/-
  TaintAlias.Proofs.Site.Feedback — facts fed back into the alias stage.

  The host engine hands every fact it gets back to the alias stage, at any statement,
  through any site that shares the manager, and each round appends the fact's fields to
  new aliases. Still only finitely many facts can come out, if the oracle answers with
  locals of a finite set `V` and fields of a finite set `F`.

  What a call derives has the source of the fact it is given, a local of `V`, fields of
  the alias and of the fact only, and at most as many as the manager's field limit
  (`toEngine_append_within`). So it stays among the facts of `Reached`, a finite set of
  keys (`reach`), and sets are compared by keys alone: provenance grows without bound.

  Proved (`feedback_bounded`):
  - every fact that is ever in the set is `Reached`;
  - at most as many calls enlarge the set as there are such facts;
  - a host that never stops calling sees the set stop growing;
  - a host that visits each fact of the set once, the new ones too, runs out of facts.
-/

import Mathlib.Data.Finset.Card
import Mathlib.Data.Finset.Prod
import Mathlib.Data.Fintype.Basic
import Mathlib.Order.Lattice.Nat
import TaintAlias.Proofs.Manager.Vocabulary

namespace TaintAlias

variable {V : Finset Variable} {F : Finset Field} {k : Nat} {T : FactSet}

/-! ## The facts that can come out -/

/-- A fact of `T`, or one with a source of `T`, a local of `V`, and at most `k` fields of
    `F` and `T`. -/
inductive Fact.Reached (V : Finset Variable) (F : Finset Field) (k : Nat) (T : FactSet) (f : Fact) : Prop
  | old (g : Fact) (hg : g ∈ T) (hsame : g.Same f)
  | new (hsource : ∃ g ∈ T, f.source = g.source) (hbase : ∃ v ∈ V, f.path.base = some v)
      (hlength : f.path.fields.length ≤ k)
      (hfields : ∀ x ∈ f.path.fields, x ∈ F ∨ ∃ g ∈ T, x ∈ g.path.fields)

/-- The lists of at most `n` members of `F`. -/
def chains (F : Finset Field) : Nat → Finset (List Field)
  | 0 => {[]}
  | n + 1 => insert [] ((F ×ˢ chains F n).image fun c => c.1 :: c.2)

theorem mem_chains {n : Nat} {fs : List Field} : fs ∈ chains F n ↔ fs.length ≤ n ∧ ∀ f ∈ fs, f ∈ F := by
  induction n generalizing fs with
  | zero => cases fs <;> simp [chains]
  | succ n ih =>
    cases fs with
    | nil => simp [chains]
    | cons f fs =>
      simp only [chains, Finset.mem_insert, reduceCtorEq, Finset.mem_image, Finset.mem_product, Prod.exists,
        List.cons.injEq, false_or, List.length_cons, Nat.add_le_add_iff_right, List.mem_cons, forall_eq_or_imp, ih]
      constructor
      · rintro ⟨g, gs, ⟨hg, hlen, hgs⟩, rfl, rfl⟩
        exact ⟨hlen, hg, hgs⟩
      · rintro ⟨hlen, hf, hfs⟩
        exact ⟨f, fs, ⟨hf, hlen, hfs⟩, rfl, rfl⟩

def FactSet.keys (T : FactSet) : Finset (EnginePath × Option Source) := (T.facts.map (·.key)).toFinset

def FactSet.sources (T : FactSet) : Finset (Option Source) := (T.facts.map (·.source)).toFinset

def FactSet.fields (T : FactSet) : Finset Field := (T.facts.flatMap (·.path.fields)).toFinset

/-- The keys of the facts that can come out. -/
def reach (V : Finset Variable) (F : Finset Field) (k : Nat) (T : FactSet) :
    Finset (EnginePath × Option Source) :=
  T.keys ∪ ((V ×ˢ chains (F ∪ T.fields) k) ×ˢ ((Finset.univ : Finset Bool) ×ˢ T.sources)).image
    fun c => (⟨some c.1.1, c.1.2, c.2.1⟩, c.2.2)

theorem mem_reach {f : Fact} : f.key ∈ reach V F k T ↔ f.Reached V F k T := by
  have hold : f.key ∈ T.keys ↔ ∃ g ∈ T, g.Same f := by
    simp only [FactSet.keys, List.mem_toFinset, List.mem_map]
    rfl
  have hsources : ∀ s, s ∈ T.sources ↔ ∃ g ∈ T, s = g.source := by
    intro s
    simp only [FactSet.sources, List.mem_toFinset, List.mem_map, eq_comm]
    rfl
  have hfields : ∀ x, x ∈ F ∪ T.fields ↔ x ∈ F ∨ ∃ g ∈ T, x ∈ g.path.fields := by
    intro x
    simp only [FactSet.fields, Finset.mem_union, List.mem_toFinset, List.mem_flatMap]
    rfl
  rw [reach, Finset.mem_union, hold, Finset.mem_image]
  constructor
  · rintro (⟨g, hg, hsame⟩ | ⟨⟨⟨v, fs⟩, cut, s⟩, hc, hkey⟩)
    · exact .old g hg hsame
    · simp only [Finset.mem_product, mem_chains, hfields, hsources, Finset.mem_univ, true_and] at hc
      obtain ⟨⟨hv, hlen, hfs⟩, hs⟩ := hc
      have hpath : f.path = ⟨some v, fs, cut⟩ := congrArg Prod.fst hkey.symm
      have hsrc : f.source = s := congrArg Prod.snd hkey.symm
      exact .new (by rwa [hsrc]) ⟨v, hv, by rw [hpath]⟩ (by rwa [hpath]) (by rwa [hpath])
  · rintro (⟨g, hg, hsame⟩ | ⟨hs, ⟨v, hv, hbase⟩, hlen, hfs⟩)
    · exact Or.inl ⟨g, hg, hsame⟩
    · refine Or.inr ⟨((v, f.path.fields), f.path.cutOff, f.source), ?_, ?_⟩
      · simp only [Finset.mem_product, mem_chains, hfields, hsources, Finset.mem_univ, true_and]
        exact ⟨⟨hv, hlen, hfs⟩, hs⟩
      · rw [Fact.key, ← hbase]

/-- What is the same as a reached fact is reached. -/
theorem Fact.Reached.of_same {f g : Fact} (h : f.Reached V F k T) (hsame : f.Same g) : g.Reached V F k T := by
  rw [← mem_reach] at h ⊢
  rwa [← show f.key = g.key from hsame]

theorem Fact.Reached.source {f : Fact} (h : f.Reached V F k T) : ∃ g ∈ T, f.source = g.source := by
  cases h with
  | old g hg hsame => exact ⟨g, hg, hsame.source.symm⟩
  | new hsource => exact hsource

theorem Fact.Reached.fields {f : Fact} (h : f.Reached V F k T) :
    ∀ x ∈ f.path.fields, x ∈ F ∨ ∃ g ∈ T, x ∈ g.path.fields := by
  cases h with
  | old g hg hsame =>
    have hpath : g.path = f.path := hsame.path
    exact fun x hx => Or.inr ⟨g, hg, hpath ▸ hx⟩
  | new _ _ _ hfields => exact hfields

/-! ## What one call derives -/

/-- A translated alias has a local of `V`, at most `k` fields, and no fields but those of
    `F` and those appended: a wildcard adds none, and the limit is applied last. -/
theorem OraclePath.toEngine_append_within {p : OraclePath} {fs : List Field} {e : EnginePath}
    (hp : p.Within V F) (he : (p.append fs).toEngine k = .ok e) :
    (∃ v ∈ V, e.base = some v) ∧ e.fields.length ≤ k ∧ ∀ x ∈ e.fields, x ∈ F ∨ x ∈ fs := by
  obtain ⟨v, gs, cut, tail, hv, hsegs, rfl⟩ : ∃ v gs cut tail, p.root = .var v ∧
      p.segments ++ fs.map .field = gs.map .field ++ tail ∧ e = EnginePath.limit k ⟨some v, gs, cut⟩ := by
    obtain ⟨v, gs, hv, ⟨hs, he⟩ | ⟨rest, hs, he⟩⟩ := toEngine_cases he
    · exact ⟨v, gs, false, [], hv, by rw [List.append_nil]; exact hs, he⟩
    · exact ⟨v, gs, true, _, hv, hs, he⟩
  refine ⟨⟨v, hp.root v hv, by simp⟩, EnginePath.length_limit_le _ _, fun x hx => ?_⟩
  have hgs : x ∈ gs := by
    unfold EnginePath.limit at hx
    split at hx
    · exact List.mem_of_mem_take hx
    · exact hx
  have hseg : Segment.field x ∈ p.segments ++ fs.map .field := by
    rw [hsegs]
    exact List.mem_append_left _ (List.mem_map_of_mem hgs)
  rcases List.mem_append.mp hseg with h | h
  · exact Or.inl (hp.fields x h)
  · obtain ⟨y, hy, hxy⟩ := List.mem_map.mp h
    cases hxy
    exact Or.inr hy

namespace Site

/-- The sites of managers with one configuration: configured, baseline or alias-aware,
    and adjusted in any way. -/
inductive Shares (config : Config) : Site → Prop
  | ofManager {m : Manager} (h : m.config = config) : Shares config (.ofManager m)
  | baseline {m : Manager} (h : m.config = config) : Shares config (.baseline m)
  | aliasAware {m : Manager} (h : m.config = config) : Shares config (.aliasAware m)
  | withStrategy {s : Site} (h : Shares config s) (strategy : Sparsification) :
      Shares config { s with strategy }
  | withReturnSites {s : Site} (h : Shares config s) (returnSites : ReturnSites) :
      Shares config { s with returnSites }
  | withIgnored {s : Site} (h : Shares config s) (fragments : List String) :
      Shares config (s.withIgnored fragments)
  | enter {s : Site} (h : Shares config s) (fact : Fact) (callee : Method) (site : Stmt) (context : Fact) :
      Shares config (s.enter fact callee site context)

/-- All of them have the manager's field limit. -/
theorem Shares.pathLength {config : Config} {s : Site} (h : Shares config s) :
    s.pathLength = config.pathLength := by
  induction h with
  | ofManager h => rw [← h]; rfl
  | baseline h => rw [← h]; rfl
  | aliasAware h => rw [← h]; rfl
  | withStrategy _ _ ih => exact ih
  | withReturnSites _ _ ih => exact ih
  | withIgnored _ _ ih => exact ih
  | enter _ _ _ _ _ ih => exact ih

/-- What a call adds to a set stands behind it: facts not yet in it, no two the same, and
    reached if the fact and the answers are. -/
theorem taint_adds {s : Site} {m : Manager} {oracle : Oracle} (context : Fact) (stmt : Stmt)
    (target : Option Variable) (set : FactSet) (method : Method) {fact : Fact} (hm : m.Within V F)
    (ho : oracle.Within V F) (hfact : fact.Reached V F s.pathLength.toNat T) :
    ∃ added, (s.taint m oracle context stmt target set method fact).set.facts = set.facts ++ added ∧
      (added.map (·.key)).Nodup ∧
        ∀ f ∈ added, set.contains f = false ∧ f.Reached V F s.pathLength.toNat T := by
  rcases @taint_set_cases s m oracle context fact stmt target set method with hset | ⟨base, aliases, -, hr, hset⟩
  · rw [hset]
    exact ⟨[], by simp⟩
  · rw [hset]
    have hwithin := Manager.getAliases_within hm ho hr
    obtain ⟨added, hfacts, hpair, hadded⟩ := set.insertAll_facts (s.gains stmt base fact aliases.paths)
    refine ⟨added, hfacts, List.pairwise_map.mpr hpair, fun f hf => ⟨(hadded f hf).2, ?_⟩⟩
    obtain ⟨p, hp, -, e, he, rfl⟩ := mem_gains.mp (hadded f hf).1
    obtain ⟨hbase, hlen, hfields⟩ := OraclePath.toEngine_append_within (hwithin p hp) he
    exact .new hfact.source hbase hlen fun x hx => (hfields x hx).elim Or.inl fun h => hfact.fields x h

end Site

/-! ## Calls in a row -/

/-- A call to be made with some fact. -/
structure Visit where
  oracle : Oracle
  site : Site
  context : Fact
  stmt : Stmt
  target : Option Variable
  method : Method

/-- A manager, and the set its calls taint. -/
structure Feed where
  manager : Manager
  set : FactSet

def Visit.Fits (V : Finset Variable) (F : Finset Field) (config : Config) (v : Visit) : Prop :=
  v.oracle.Within V F ∧ v.site.Shares config

namespace Feed

def visit (st : Feed) (fact : Fact) (v : Visit) : Feed :=
  let o := v.site.taint st.manager v.oracle v.context v.stmt v.target st.set v.method fact
  ⟨o.manager, o.set⟩

/-- What holds of every feed that started with the set `T`. -/
structure Bounded (V : Finset Variable) (F : Finset Field) (config : Config) (T : FactSet) (st : Feed) :
    Prop where
  configured : st.manager.config = config
  within : st.manager.Within V F
  reached : ∀ f ∈ st.set, f.Reached V F config.pathLength.toNat T
  /-- The facts that came in: no two are the same. -/
  grown : ∃ added, st.set.facts = T.facts ++ added ∧ (added.map (·.key)).Nodup

variable {config : Config} {st : Feed}

theorem bounded_start {m : Manager} (hconfig : m.config = config) (hm : m.Within V F) (T : FactSet) :
    Bounded V F config T ⟨m, T⟩ where
  configured := hconfig
  within := hm
  reached f hf := .old f hf (.refl f)
  grown := ⟨[], by simp⟩

theorem bounded_visit (h : st.Bounded V F config T) {fact : Fact} (hfact : st.set.contains fact = true)
    {v : Visit} (hv : v.Fits V F config) :
    (st.visit fact v).Bounded V F config T ∧ st.set.facts <+: (st.visit fact v).set.facts := by
  obtain ⟨g, hg, hsame⟩ := FactSet.contains_iff.mp hfact
  have hreached := (h.reached g hg).of_same hsame
  rw [← hv.2.pathLength] at hreached
  obtain ⟨added, hfacts, hnodup, hadded⟩ := Site.taint_adds v.context v.stmt v.target st.set v.method
    h.within hv.1 hreached
  have hfacts' : (st.visit fact v).set.facts = st.set.facts ++ added := hfacts
  let call : Manager.Ev := .taint v.oracle v.site v.context v.stmt v.target st.set v.method fact
  have hstep := Manager.step_config st.manager call
  refine ⟨⟨hstep.2.trans h.configured, ?_, fun f hf => ?_, ?_⟩, hfacts' ▸ List.prefix_append _ _⟩
  · have hcall : ∀ (s : Session) (c : Session.Call), call.oracle? = some c.oracle → s.Within V F →
        (s.reply c).session.Within V F := by
      intro s c ho hs
      have hcalled : v.oracle = c.oracle := Option.some.inj ho
      exact (Session.within_reply hs (hcalled ▸ hv.1)).1
    exact Manager.live_step (fun strategy => Session.within_start strategy st.manager.config) hcall h.within
  · have hf' : f ∈ st.set.facts ++ added := hfacts' ▸ hf
    rcases List.mem_append.mp hf' with hf' | hf'
    · exact h.reached f hf'
    · exact hv.2.pathLength ▸ (hadded f hf').2
  · obtain ⟨before, hbefore, hbnodup⟩ := h.grown
    refine ⟨before ++ added, by rw [hfacts', hbefore, List.append_assoc], ?_⟩
    rw [List.map_append]
    refine List.nodup_append.mpr ⟨hbnodup, hnodup, ?_⟩
    rintro a ha b hb rfl
    -- a new fact would be the same as one that is in the set
    obtain ⟨f, hf, rfl⟩ := List.mem_map.mp ha
    obtain ⟨g, hg, hkey⟩ := List.mem_map.mp hb
    have hin : st.set.contains g = true :=
      FactSet.contains_iff.mpr ⟨f, hbefore ▸ List.mem_append_right _ hf, hkey.symm⟩
    rw [(hadded g hg).1] at hin
    cases hin

/-- No more facts come in than can come out. -/
theorem Bounded.size_le (h : st.Bounded V F config T) :
    st.set.size ≤ T.size + (reach V F config.pathLength.toNat T).card := by
  obtain ⟨added, hfacts, hnodup⟩ := h.grown
  have hsub : (added.map (·.key)).toFinset ⊆ reach V F config.pathLength.toNat T := by
    intro k hk
    obtain ⟨f, hf, rfl⟩ := List.mem_map.mp (List.mem_toFinset.mp hk)
    have hin : f ∈ st.set.facts := hfacts ▸ List.mem_append_right _ hf
    exact mem_reach.mpr (h.reached f hin)
  calc
    st.set.size = T.size + added.length := by simp [FactSet.size, hfacts]
    _ = T.size + (added.map (·.key)).toFinset.card := by
      rw [List.toFinset_card_of_nodup hnodup, List.length_map]
    _ ≤ _ := Nat.add_le_add_left (Finset.card_le_card hsub) _

/-- The feed after the first `n` of endlessly many calls. -/
def after (st : Feed) (calls : Nat → Fact × Visit) : Nat → Feed
  | 0 => st
  | n + 1 => (st.after calls n).visit (calls n).1 (calls n).2

/-- The first `n` calls are made with facts that are in the set then. -/
def Follows (V : Finset Variable) (F : Finset Field) (config : Config) (st : Feed)
    (calls : Nat → Fact × Visit) (n : Nat) : Prop :=
  ∀ i < n, (st.after calls i).set.contains (calls i).1 = true ∧ (calls i).2.Fits V F config

variable {calls : Nat → Fact × Visit} {n : Nat}

theorem bounded_after (h : st.Bounded V F config T) (hcalls : st.Follows V F config calls n) :
    (st.after calls n).Bounded V F config T := by
  induction n with
  | zero => exact h
  | succ n ih =>
    obtain ⟨hfact, hfits⟩ := hcalls n (by omega)
    exact (bounded_visit (ih fun i hi => hcalls i (by omega)) hfact hfits).1

theorem prefix_after (h : st.Bounded V F config T) (hcalls : st.Follows V F config calls n) {i : Nat}
    (hi : i ≤ n) : (st.after calls i).set.facts <+: (st.after calls n).set.facts := by
  induction n with
  | zero =>
    obtain rfl : i = 0 := by omega
    exact List.prefix_refl _
  | succ n ih =>
    rcases Nat.le_succ_iff.mp hi with hi | rfl
    · have hcalls' : st.Follows V F config calls n := fun i hi => hcalls i (by omega)
      obtain ⟨hfact, hfits⟩ := hcalls n (by omega)
      exact (ih hcalls' hi).trans (bounded_visit (bounded_after h hcalls') hfact hfits).2
    · exact List.prefix_refl _

/-- How many of the first `n` calls enlarge the set. -/
def enlarging (st : Feed) (calls : Nat → Fact × Visit) (n : Nat) : Nat :=
  ((Finset.range n).filter fun i => (st.after calls i).set.size < (st.after calls (i + 1)).set.size).card

theorem enlarging_le (h : st.Bounded V F config T) (hcalls : st.Follows V F config calls n) :
    st.set.size + st.enlarging calls n ≤ (st.after calls n).set.size := by
  induction n with
  | zero => exact Nat.le_refl _
  | succ n ih =>
    have hle : (st.after calls n).set.size ≤ (st.after calls (n + 1)).set.size :=
      (prefix_after h hcalls (Nat.le_succ n)).length_le
    have ih := ih fun i hi => hcalls i (by omega)
    unfold enlarging at ih ⊢
    rw [Finset.range_add_one, Finset.filter_insert]
    split
    · rw [Finset.card_insert_of_notMem (by simp)]
      omega
    · omega

/-- A set that cannot grow beyond a bound stops growing. -/
theorem exists_after_eq (h : st.Bounded V F config T) (hcalls : ∀ n, st.Follows V F config calls n) :
    ∃ N, ∀ n, N ≤ n → (st.after calls n).set = (st.after calls N).set := by
  let sizes : Set Nat := Set.range fun n => (st.after calls n).set.size
  have hbdd : BddAbove sizes := by
    refine ⟨T.size + (reach V F config.pathLength.toNat T).card, ?_⟩
    rintro _ ⟨n, rfl⟩
    exact (bounded_after h (hcalls n)).size_le
  obtain ⟨N, hN⟩ : sSup sizes ∈ sizes := Nat.sSup_mem ⟨_, 0, rfl⟩ hbdd
  refine ⟨N, fun n hn => ?_⟩
  have hmax : (st.after calls n).set.size ≤ (st.after calls N).set.size := by
    simp only [hN]
    exact le_csSup hbdd ⟨n, rfl⟩
  exact congrArg FactSet.mk ((prefix_after h (hcalls n) hn).eq_of_length_le hmax).symm

/-! ## A host that visits every fact once -/

/-- Calls made with one fact. -/
def visitAll (st : Feed) (fact : Fact) (vs : List Visit) : Feed := vs.foldl (fun st v => st.visit fact v) st

theorem bounded_visitAll (h : st.Bounded V F config T) {fact : Fact} (hfact : st.set.contains fact = true)
    {vs : List Visit} (hvs : ∀ v ∈ vs, v.Fits V F config) :
    (st.visitAll fact vs).Bounded V F config T ∧ st.set.facts <+: (st.visitAll fact vs).set.facts := by
  induction vs generalizing st with
  | nil => exact ⟨h, List.prefix_refl _⟩
  | cons v vs ih =>
    obtain ⟨hnext, hpre⟩ := bounded_visit h hfact (hvs v List.mem_cons_self)
    have hin : (st.visit fact v).set.contains fact = true := by
      obtain ⟨g, hg, hsame⟩ := FactSet.contains_iff.mp hfact
      exact FactSet.contains_iff.mpr ⟨g, hpre.subset hg, hsame⟩
    obtain ⟨hlast, hpre'⟩ := ih hnext hin fun w hw => hvs w (List.mem_cons_of_mem _ hw)
    exact ⟨hlast, hpre.trans hpre'⟩

/-- A round visits the oldest of the facts still to be visited; those that come in join
    behind the others. -/
def round (choose : Fact → List Visit) : Feed × List Fact → Feed × List Fact
  | (st, []) => (st, [])
  | (st, fact :: todo) =>
    let next := st.visitAll fact (choose fact)
    (next, todo ++ next.set.facts.drop st.set.size)

/-- The feed and the facts still to be visited after `n` rounds. -/
def work (st : Feed) (plan : Nat → Fact → List Visit) : Nat → Feed × List Fact
  | 0 => (st, st.set.facts)
  | n + 1 => round (plan n) (st.work plan n)

/-- The facts of the set are those visited in `n` rounds and then those still to be
    visited. -/
def Queued (n : Nat) (w : Feed × List Fact) : Prop :=
  w.2 = [] ∨ ∃ visited, w.1.set.facts = visited ++ w.2 ∧ visited.length = n

theorem round_queued {choose : Fact → List Visit} {w : Feed × List Fact} (h : w.1.Bounded V F config T)
    (hw : Queued n w) (hchoose : ∀ fact, ∀ v ∈ choose fact, v.Fits V F config) :
    (round choose w).1.Bounded V F config T ∧ Queued (n + 1) (round choose w) := by
  obtain ⟨st, todo⟩ := w
  cases todo with
  | nil => exact ⟨h, Or.inl rfl⟩
  | cons fact todo =>
    obtain hnil | ⟨visited, hfacts, hlen⟩ := hw
    · cases hnil
    · have hfacts : st.set.facts = visited ++ fact :: todo := hfacts
      have hin : st.set.contains fact = true :=
        FactSet.contains_iff.mpr ⟨fact, by simp [hfacts], .refl fact⟩
      obtain ⟨hnext, added, hadded⟩ := bounded_visitAll h hin (hchoose fact)
      have hadded : st.set.facts ++ added = (st.visitAll fact (choose fact)).set.facts := hadded
      refine ⟨hnext, Or.inr ⟨visited ++ [fact], ?_, by simp [hlen]⟩⟩
      simp only [round, ← hadded, FactSet.size, List.drop_left]
      simp [hfacts]

theorem work_queued {plan : Nat → Fact → List Visit} (h : st.Bounded V F config T)
    (hplan : ∀ n fact, ∀ v ∈ plan n fact, v.Fits V F config) (n : Nat) :
    (st.work plan n).1.Bounded V F config T ∧ Queued n (st.work plan n) := by
  induction n with
  | zero => exact ⟨h, Or.inr ⟨[], rfl, rfl⟩⟩
  | succ n ih => exact round_queued ih.1 ih.2 (hplan n)

/-- Nothing is left to visit after as many rounds as there can be facts. -/
theorem work_done {plan : Nat → Fact → List Visit} (h : st.Bounded V F config T)
    (hplan : ∀ n fact, ∀ v ∈ plan n fact, v.Fits V F config) :
    ∃ n ≤ T.size + (reach V F config.pathLength.toNat T).card, (st.work plan n).2 = [] := by
  refine ⟨_, le_refl _, ?_⟩
  obtain ⟨hbound, hdone | ⟨visited, hfacts, hlen⟩⟩ := work_queued h hplan
    (T.size + (reach V F config.pathLength.toNat T).card)
  · exact hdone
  · have hsize := hbound.size_le
    have hlength := congrArg List.length hfacts
    rw [List.length_append, hlen] at hlength
    rw [FactSet.size, hlength] at hsize
    exact List.length_eq_zero_iff.mp (by omega)

/-- Facts fed back are bounded. Take a manager as `create` returns it, after any operations
    with oracles within `V` and `F`, and any set `T`. Then only reached facts come out of
    any calls, and no more calls enlarge the set than there are reached keys. Of endlessly
    many calls, all from some point on leave the set as it is, and a host that visits
    every fact once comes to an end. -/
theorem feedback_bounded {program : Program} {config : Config} {m : Manager} {notices : List Notice}
    (hcreate : Manager.create program config = .ok (m, notices)) (V : Finset Variable) (F : Finset Field)
    (before : List Manager.Ev)
    (hbefore : ∀ e ∈ before, ∀ oracle, e.oracle? = some oracle → oracle.Within V F) (T : FactSet) :
    let st : Feed := ⟨m.after before, T⟩
    let k := config.pathLength.toNat
    (∀ f : Fact, f.key ∈ reach V F k T ↔ f.Reached V F k T) ∧
    (∀ calls n, st.Follows V F config calls n →
      (∀ i ≤ n, ∀ f ∈ (st.after calls i).set, f.Reached V F k T) ∧
        st.enlarging calls n ≤ (reach V F k T).card) ∧
    (∀ calls, (∀ n, st.Follows V F config calls n) →
      ∃ N, ∀ n, N ≤ n → (st.after calls n).set = (st.after calls N).set) ∧
    ∀ plan, (∀ n fact, ∀ v ∈ plan n fact, Visit.Fits V F config v) →
      ∃ n ≤ T.size + (reach V F k T).card, (st.work plan n).2 = [] := by
  intro st k
  have hstart : st.Bounded V F config T :=
    bounded_start (Manager.config_of_create hcreate before).2
      (Manager.within_after (Manager.within_of_create hcreate) hbefore) T
  refine ⟨fun f => mem_reach, fun calls n hcalls => ⟨fun i hi f hf => ?_, ?_⟩,
    fun calls hcalls => exists_after_eq hstart hcalls, fun plan hplan => work_done hstart hplan⟩
  · exact (bounded_after hstart fun j hj => hcalls j (by omega)).reached f hf
  · have hgrown := enlarging_le hstart hcalls
    have hsize := (bounded_after hstart hcalls).size_le
    have hT : st.set.size = T.size := rfl
    rw [hT] at hgrown
    exact Nat.add_le_add_iff_left.mp (hgrown.trans hsize)

/-- `v1.f2*` is fed back for ever, and visited by a host together with what comes out. -/
theorem feedback_bounded_cut_off :
    let V : Finset Variable := {⟨1⟩, ⟨3⟩, ⟨4⟩}
    let F : Finset Field := {⟨5⟩}
    let st : Feed := ⟨Site.oneWriteManager, ⟨[Site.cutOffFact]⟩⟩
    let v : Visit := ⟨Site.answering Site.mixedAliases, Site.oneWriteSite, .zero, ⟨1⟩, none, ⟨1⟩⟩
    let calls : Nat → Fact × Visit := fun _ => (Site.cutOffFact, v)
    (st.after calls 1).set.facts.map (·.path) =
      [⟨some ⟨1⟩, [⟨2⟩], true⟩, ⟨some ⟨3⟩, [⟨5⟩], true⟩, ⟨some ⟨4⟩, [⟨2⟩], false⟩] ∧
    (∀ f ∈ (st.after calls 1).set, f.Reached V F 5 st.set) ∧
    (∃ N, ∀ n, N ≤ n → (st.after calls n).set = (st.after calls N).set) ∧
    ∃ n ≤ 1 + (reach V F 5 st.set).card, (st.work (fun _ _ => [v]) n).2 = [] := by
  intro V F st v calls
  have hcreate : Manager.create Site.oneWrite Preset.baseline.config =
      .ok (Site.oneWriteManager, [.managerReady .none false false]) := rfl
  have hanswer : Site.mixedAliases.Within V F := by
    intro p hp
    have hp := AliasSet.mem_ofList.mp hp
    simp only [List.mem_cons, List.not_mem_nil, or_false] at hp
    rcases hp with rfl | rfl | rfl | rfl | rfl <;> exact ⟨by simp [V], by simp [F]⟩
  have hfits : v.Fits V F Preset.baseline.config := by
    refine ⟨fun ask a ha => ?_, .ofManager rfl⟩
    cases ha
    exact hanswer
  have hstart : st.Bounded V F Preset.baseline.config st.set :=
    bounded_start rfl (Manager.within_of_create hcreate) st.set
  have hcalls : ∀ n, st.Follows V F Preset.baseline.config calls n := by
    intro n
    induction n with
    | zero => exact fun i hi => by omega
    | succ n ih =>
      intro i hi
      -- the fact is there from the start
      obtain ⟨added, hfacts, -⟩ := (bounded_after hstart fun j (hj : j < i) => ih j (by omega)).grown
      exact ⟨FactSet.contains_iff.mpr ⟨Site.cutOffFact, hfacts ▸ List.mem_cons_self, .refl _⟩, hfits⟩
  obtain ⟨-, hreached, hstable, hdone⟩ := feedback_bounded hcreate V F [] (by simp) st.set
  exact ⟨by decide, (hreached calls 1 (hcalls 1)).1 1 le_rfl, hstable calls hcalls,
    hdone (fun _ _ => [v]) fun _ _ w hw => List.mem_singleton.mp hw ▸ hfits⟩

end Feed

end TaintAlias
