/-
  TaintAlias.Proofs.Site.Effect — what one call at an alias site adds to a set of facts.

  A fact at a statement calls for a query exactly when its kind there names a base
  (`SiteKind.base?`). Field writes and return sites then do the same (`dialogue_of_base`):
  a return site splits the last field off and appends it again. Such a call makes one
  query, for the fact's base, and passes the reply on (`taint_passes`).

  The aliases of the answer are walked one after the other, in whatever order the set
  of them yields (`visit`). Proved, for every such order (`taint_effect`):
  - the call succeeds, and the set gains the derived facts of all aliases that are not
    rooted at the base and translate, and no other fact;
  - old facts stay as they are; a fact that is new was derived from the given one, at
    the statement, and is rooted at another local;
  - two orders leave the same facts, provenance included. Aliases that collapse to one
    path derive one and the same fact, so it does not matter which comes first.
-/

import Mathlib.Data.List.Perm.Basic
import TaintAlias.Proofs.Path
import TaintAlias.Site

namespace TaintAlias

/-! ## Many insertions -/

namespace FactSet

/-- Insert facts one after the other. -/
def insertAll (s : FactSet) (fs : List Fact) : FactSet := fs.foldl insert s

@[simp] theorem insertAll_nil (s : FactSet) : s.insertAll [] = s := rfl

@[simp] theorem insertAll_cons (s : FactSet) (f : Fact) (fs : List Fact) :
    s.insertAll (f :: fs) = (s.insert f).insertAll fs := rfl

theorem contains_iff {s : FactSet} {f : Fact} : s.contains f = true ↔ ∃ g ∈ s.facts, g.Same f := by
  simp [contains]

theorem contains_insert_iff {s : FactSet} {f g : Fact} :
    (s.insert f).contains g = true ↔ s.contains g = true ∨ f.Same g := by
  unfold insert; split
  · rename_i hf
    refine ⟨Or.inl, fun h => h.elim id fun hfg => ?_⟩
    obtain ⟨f', hf', hs⟩ := contains_iff.mp hf
    exact contains_iff.mpr ⟨f', hf', hs.trans hfg⟩
  · simp [contains_iff, or_and_right, exists_or]

theorem contains_insertAll {s : FactSet} {fs : List Fact} {g : Fact} :
    (s.insertAll fs).contains g = true ↔ s.contains g = true ∨ ∃ f ∈ fs, f.Same g := by
  induction fs generalizing s with
  | nil => simp
  | cons f fs ih => rw [insertAll_cons, ih, contains_insert_iff, or_assoc]; simp

/-- The facts that come in stand behind the old ones, none is the same as an old one,
    and no two of them are the same. -/
theorem insertAll_facts (s : FactSet) (fs : List Fact) :
    ∃ added, (s.insertAll fs).facts = s.facts ++ added ∧ added.Pairwise (fun f g => ¬ f.Same g) ∧
      ∀ f ∈ added, f ∈ fs ∧ s.contains f = false := by
  induction fs generalizing s with
  | nil => exact ⟨[], by simp⟩
  | cons f fs ih =>
    obtain ⟨added, hfacts, hpair, hadded⟩ := ih (s.insert f)
    rw [insertAll_cons, hfacts]
    by_cases hf : s.contains f = true
    · rw [insert_of_contains hf] at hadded ⊢
      exact ⟨added, rfl, hpair, fun g hg => ⟨List.mem_cons_of_mem _ (hadded g hg).1, (hadded g hg).2⟩⟩
    · have hnew : ∀ g ∈ added, s.contains g = false ∧ ¬ f.Same g := by
        intro g hg
        have hg' := (hadded g hg).2
        rw [← Bool.not_eq_true, contains_insert_iff, not_or, Bool.not_eq_true] at hg'
        exact hg'
      refine ⟨f :: added, ?_, List.pairwise_cons.mpr ⟨fun g hg => (hnew g hg).2, hpair⟩, fun g hg => ?_⟩
      · simp [insert, hf]
      · rcases List.mem_cons.mp hg with rfl | hg
        · exact ⟨List.mem_cons_self, by simpa using hf⟩
        · exact ⟨List.mem_cons_of_mem _ (hadded g hg).1, (hnew g hg).1⟩

/-- If the same facts among `fs` are also equal, exactly those come in that the set did
    not contain, so their order decides nothing but the order they are kept in. -/
theorem insertAll_perm {s : FactSet} {fs gs : List Fact} (hfs : ∀ f ∈ fs, ∀ g ∈ fs, f.Same g → f = g)
    (h : fs.Perm gs) : (s.insertAll fs).facts.Perm (s.insertAll gs).facts := by
  have key : ∀ l : List Fact, (∀ f, f ∈ l ↔ f ∈ fs) →
      ∃ added, (s.insertAll l).facts = s.facts ++ added ∧ added.Nodup ∧
        ∀ f, f ∈ added ↔ f ∈ fs ∧ s.contains f = false := by
    intro l hl
    obtain ⟨added, hfacts, hpair, hadded⟩ := insertAll_facts s l
    refine ⟨added, hfacts, hpair.imp ?_, fun f => ⟨fun hf => ?_, ?_⟩⟩
    · rintro f g hne rfl
      exact hne (Fact.Same.refl f)
    · exact ⟨(hl f).mp (hadded f hf).1, (hadded f hf).2⟩
    · rintro ⟨hf, hnot⟩
      have hin : (s.insertAll l).contains f = true :=
        contains_insertAll.mpr (Or.inr ⟨f, (hl f).mpr hf, Fact.Same.refl f⟩)
      obtain ⟨g, hg, hsame⟩ := contains_iff.mp hin
      rw [hfacts] at hg
      rcases List.mem_append.mp hg with hg | hg
      · have := contains_iff.mpr ⟨g, hg, hsame⟩
        rw [hnot] at this; cases this
      · have := hfs g ((hl g).mp (hadded g hg).1) f hf hsame
        exact this ▸ hg
  obtain ⟨as, has, hnas, hmas⟩ := key fs fun _ => Iff.rfl
  obtain ⟨bs, hbs, hnbs, hmbs⟩ := key gs fun _ => h.symm.mem_iff
  rw [has, hbs]
  refine List.Perm.append_left _ ((List.perm_ext_iff_of_nodup hnas hnbs).mpr fun f => ?_)
  rw [hmas, hmbs]

end FactSet

/-! ## When a fact is queried -/

/-- The base whose aliases are queried, if they are. -/
def SiteKind.base? : SiteKind → Option Variable
  | .fieldWrite base | .returnSite base _ _ => some base
  | _ => none

namespace Site

variable {s : Site} {m : Manager} {oracle : Oracle} {context fact : Fact} {stmt : Stmt} {base : Variable}

/-- A kind with a base comes out of two branches only, the two kinds of alias sites. -/
theorem classify_of_base? {program : Program} (h : (s.classify program context stmt fact).base? = some base) :
    ¬ s.ignores (program.signature (program.methodOf stmt)) = true ∧ fact.path.base = some base ∧
      (program.isCall stmt = false ∧ s.classify program context stmt fact = .fieldWrite base ∨
        program.isCall stmt = true ∧ s.returnSites.handled = true ∧ ¬ context.Same fact ∧
          ∃ front last, front ++ [last] = fact.path.fields ∧
            s.classify program context stmt fact = .returnSite base front last) := by
  generalize hk : s.classify program context stmt fact = kind at h
  simp only [classify] at hk
  split at hk
  · cases hk; cases h
  · rename_i hignored
    split at hk
    · cases hk; cases h
    · rename_i b hb
      split at hk
      · rename_i hcall
        split at hk
        · rename_i hhandled
          split at hk
          · cases hk; cases h
          · rename_i last hlast
            obtain ⟨front, hfields⟩ := List.getLast?_eq_some_iff.mp hlast
            split at hk
            · cases hk; cases h
            · rename_i hsame
              cases hk
              cases h
              exact ⟨hignored, hb, Or.inr ⟨hcall, hhandled, hsame, _, last, by simp [hfields], rfl⟩⟩
        · cases hk; cases h
      · rename_i hcall
        cases hk
        cases h
        exact ⟨hignored, hb, Or.inl ⟨Bool.eq_false_iff.mpr hcall, rfl⟩⟩

/-- Two suffixes in turn are one suffix. -/
theorem extended_split (base : Variable) (front back : List Field) (aliases : AliasSet) :
    extended base [front, back] aliases = extended base [front ++ back] aliases := by
  simp [extended, OraclePath.append_append]

/-- A call that queries at all reports that it examined the fact, queries the fact's base
    and extends what it gets by all the fact's fields. -/
theorem dialogue_of_base {program : Program} (target : Option Variable) (set : FactSet) (method : Method)
    (h : (s.classify program context stmt fact).base? = some base) :
    s.dialogue program context stmt target set method fact =
      .report [.examined stmt method target fact] (s.inquire program stmt base [fact.path.fields] fact set) := by
  rcases classify_of_base? h with ⟨-, -, ⟨-, hk⟩ | ⟨-, -, -, front, last, hfields, hk⟩⟩
  · simp only [dialogue, hk]
  · simp only [dialogue, hk, inquire, extended_split, hfields]

/-- A call that makes the query `q` and passes the reply `r` to it on. -/
structure Passes (o : Outcome) (q : SessionQuery) (r : Manager.Reply) : Prop where
  result : o.result = r.result.map fun _ => ()
  manager : o.manager = r.manager
  asks : o.asks = r.asked.toList
  queries : o.queries = [q]

theorem Passes.asked {o : Outcome} {q : SessionQuery} {r : Manager.Reply} (h : Passes o q r) :
    o.asked = r.asked := by
  rw [Outcome.asked, h.asks]
  cases r.asked <;> rfl

theorem taint_passes (oracle : Oracle) (target : Option Variable) (set : FactSet) (method : Method)
    (h : (s.classify m.program context stmt fact).base? = some base) :
    Passes (s.taint m oracle context stmt target set method fact)
      ⟨s.strategy, stmt, m.program.methodOf stmt, base⟩
      (m.getAliases oracle s.strategy stmt (m.program.methodOf stmt) base) := by
  rw [taint, dialogue_of_base target set method h]
  simp only [inquire, Dialogue.play]
  cases hr : (m.getAliases oracle s.strategy stmt (m.program.methodOf stmt) base).result with
  | error e => exact ⟨by rw [hr]; rfl, rfl, List.append_nil _, rfl⟩
  | ok aliases => exact ⟨by rw [hr]; rfl, rfl, List.append_nil _, rfl⟩

theorem taint_set_of_error {e : AliasError} (target : Option Variable) (set : FactSet) (method : Method)
    (h : (s.classify m.program context stmt fact).base? = some base)
    (he : (m.getAliases oracle s.strategy stmt (m.program.methodOf stmt) base).result = .error e) :
    (s.taint m oracle context stmt target set method fact).set = set := by
  rw [taint, dialogue_of_base target set method h]
  simp only [inquire, Dialogue.play, he]

/-- A fact that is not queried adds nothing, asks nothing and leaves the manager alone. -/
theorem taint_of_none (target : Option Variable) (set : FactSet) (method : Method)
    (h : (s.classify m.program context stmt fact).base? = none) :
    let o := s.taint m oracle context stmt target set method fact
    o.result = .ok () ∧ o.set = set ∧ o.manager = m ∧ o.asks = [] ∧ o.queries = [] := by
  unfold taint dialogue
  cases hk : s.classify m.program context stmt fact with
  | fieldWrite b => rw [hk] at h; cases h
  | returnSite b front last => rw [hk] at h; cases h
  | _ => exact ⟨rfl, rfl, rfl, rfl, rfl⟩

theorem taint_manager_of_none (target : Option Variable) (set : FactSet) (method : Method)
    (h : (s.classify m.program context stmt fact).base? = none) :
    (s.taint m oracle context stmt target set method fact).manager = m :=
  (taint_of_none target set method h).2.2.1

/-! ## Walking the aliases -/

/-- The fact derived for a path, if the path translates. -/
def derived? (k : Nat) (stmt : Stmt) (fact : Fact) (p : OraclePath) : Option Fact :=
  match p.toEngine k with
  | .ok e => some (.derived fact e stmt)
  | .error _ => none

theorem derived?_eq_some {k : Nat} {p : OraclePath} {f : Fact} :
    derived? k stmt fact p = some f ↔ ∃ e, p.toEngine k = .ok e ∧ f = .derived fact e stmt := by
  unfold derived?
  cases p.toEngine k with
  | ok e => simp [eq_comm]
  | error e => simp

theorem spread_eq (k : Nat) (stmt : Stmt) (fact : Fact) (paths : List OraclePath) (set : FactSet) :
    spread k stmt fact paths set = set.insertAll (paths.filterMap (derived? k stmt fact)) := by
  induction paths generalizing set with
  | nil => rfl
  | cons p paths ih =>
    have hstep : spread k stmt fact (p :: paths) set =
        spread k stmt fact paths (match p.toEngine k with
          | .ok e => set.insert (.derived fact e stmt)
          | .error _ => set) := rfl
    rw [hstep, ih]
    cases hp : p.toEngine k <;> simp [derived?, hp]

/-- The set after the paths of an answer are handled in the order of `order`: those
    rooted at `base` are left out, all others are extended by the fact's fields. -/
def visit (s : Site) (stmt : Stmt) (base : Variable) (fact : Fact) (order : List OraclePath)
    (set : FactSet) : FactSet :=
  spread s.pathLength.toNat stmt fact
    ((order.filter (·.base? ≠ some base)).map (·.append fact.path.fields)) set

/-- The facts a call derives, in the order of `order`. -/
def gains (s : Site) (stmt : Stmt) (base : Variable) (fact : Fact) (order : List OraclePath) : List Fact :=
  (order.filter (·.base? ≠ some base)).filterMap fun p =>
    derived? s.pathLength.toNat stmt fact (p.append fact.path.fields)

theorem visit_eq (order : List OraclePath) (set : FactSet) :
    s.visit stmt base fact order set = set.insertAll (s.gains stmt base fact order) := by
  rw [visit, spread_eq, List.filterMap_map]; rfl

theorem mem_gains {order : List OraclePath} {f : Fact} :
    f ∈ s.gains stmt base fact order ↔ ∃ p ∈ order, p.base? ≠ some base ∧
      ∃ e, (p.append fact.path.fields).toEngine s.pathLength.toNat = .ok e ∧ f = .derived fact e stmt := by
  simp only [gains, List.mem_filterMap, List.mem_filter, decide_eq_true_eq, derived?_eq_some, and_assoc]

/-- Facts derived from one fact at one statement are equal once they are the same. -/
theorem eq_of_same_gains {order : List OraclePath} {f g : Fact} (hf : f ∈ s.gains stmt base fact order)
    (hg : g ∈ s.gains stmt base fact order) (h : f.Same g) : f = g := by
  obtain ⟨-, -, -, e, -, rfl⟩ := mem_gains.mp hf
  obtain ⟨-, -, -, e', -, rfl⟩ := mem_gains.mp hg
  have hpath : e = e' := h.path
  rw [hpath]

/-- The answer to the query of a call decides its result and its set. -/
theorem taint_of_answer {aliases : AliasSet} (target : Option Variable) (set : FactSet) (method : Method)
    (h : (s.classify m.program context stmt fact).base? = some base)
    (ha : (m.getAliases oracle s.strategy stmt (m.program.methodOf stmt) base).result = .ok aliases) :
    (s.taint m oracle context stmt target set method fact).result = .ok () ∧
      (s.taint m oracle context stmt target set method fact).set =
        s.visit stmt base fact aliases.paths set := by
  rw [taint, dialogue_of_base target set method h]
  simp only [inquire, Dialogue.play, ha]
  exact ⟨trivial, rfl⟩

/-- A call leaves the set as it was, or it queries, is answered, and inserts what it derives. -/
theorem taint_set_cases (target : Option Variable) (set : FactSet) (method : Method) :
    (s.taint m oracle context stmt target set method fact).set = set ∨
      ∃ base aliases, (s.classify m.program context stmt fact).base? = some base ∧
        (m.getAliases oracle s.strategy stmt (m.program.methodOf stmt) base).result = .ok aliases ∧
        (s.taint m oracle context stmt target set method fact).set =
          set.insertAll (s.gains stmt base fact aliases.paths) := by
  cases hb : (s.classify m.program context stmt fact).base? with
  | none => exact Or.inl (taint_of_none target set method hb).2.1
  | some base =>
    cases hr : (m.getAliases oracle s.strategy stmt (m.program.methodOf stmt) base).result with
    | error e => exact Or.inl (taint_set_of_error target set method hb hr)
    | ok aliases =>
      right
      refine ⟨base, aliases, rfl, hr, ?_⟩
      rw [(taint_of_answer target set method hb hr).2, visit_eq]

/-! ## The effect of a call -/

/-- What the aliases of `base`, extended by the fields of `fact`, make of `set`. -/
structure Effect (s : Site) (stmt : Stmt) (base : Variable) (fact : Fact) (aliases : AliasSet)
    (set final : FactSet) : Prop where
  /-- Up to provenance: the old facts, and one for each alias that has another root and
      translates. -/
  contains : ∀ f, final.contains f = true ↔ set.contains f = true ∨
    ∃ p ∈ aliases, p.base? ≠ some base ∧
      ∃ e, (p.append fact.path.fields).toEngine s.pathLength.toNat = .ok e ∧
        Fact.Same (.derived fact e stmt) f
  /-- Old facts keep their provenance; that of a new one is the call's. -/
  facts : ∃ added, final.facts = set.facts ++ added ∧ ∀ f ∈ added,
    set.contains f = false ∧ f.stmt = some stmt ∧ f.parent? = some fact ∧
      f.ancestors = fact :: fact.ancestors ∧ f.source = fact.source ∧
      ∃ v, f.path.base = some v ∧ v ≠ base

theorem contains_visit {aliases : AliasSet} {order : List OraclePath} (ho : order.Perm aliases.paths)
    (set : FactSet) (f : Fact) :
    (s.visit stmt base fact order set).contains f = true ↔ set.contains f = true ∨
      ∃ p ∈ aliases, p.base? ≠ some base ∧
        ∃ e, (p.append fact.path.fields).toEngine s.pathLength.toNat = .ok e ∧
          Fact.Same (.derived fact e stmt) f := by
  rw [visit_eq, FactSet.contains_insertAll]
  refine or_congr_right ⟨?_, ?_⟩
  · rintro ⟨g, hg, hsame⟩
    obtain ⟨p, hp, hne, e, he, rfl⟩ := mem_gains.mp hg
    exact ⟨p, ho.mem_iff.mp hp, hne, e, he, hsame⟩
  · rintro ⟨p, hp, hne, e, he, hsame⟩
    exact ⟨_, mem_gains.mpr ⟨p, ho.mem_iff.mpr hp, hne, e, he, rfl⟩, hsame⟩

theorem effect_visit {aliases : AliasSet} {order : List OraclePath} (ho : order.Perm aliases.paths)
    (set : FactSet) : s.Effect stmt base fact aliases set (s.visit stmt base fact order set) where
  contains := contains_visit ho set
  facts := by
    obtain ⟨added, hfacts, -, hadded⟩ := set.insertAll_facts (s.gains stmt base fact order)
    refine ⟨added, by rw [visit_eq, hfacts], fun f hf => ?_⟩
    obtain ⟨hgain, hnew⟩ := hadded f hf
    obtain ⟨p, -, hne, e, he, rfl⟩ := mem_gains.mp hgain
    refine ⟨hnew, rfl, rfl, rfl, rfl, ?_⟩
    obtain ⟨v, hv⟩ := OraclePath.base?_of_toEngine he
    rw [OraclePath.append_base?] at hv
    refine ⟨v, (OraclePath.base_of_toEngine he).trans hv, fun hvb => hne (hvb ▸ hv)⟩

theorem visit_perm {order order' : List OraclePath} (h : order.Perm order') (set : FactSet) :
    (s.visit stmt base fact order set).facts.Perm (s.visit stmt base fact order' set).facts := by
  rw [visit_eq, visit_eq]
  refine FactSet.insertAll_perm (fun f hf g hg => eq_of_same_gains hf hg) ?_
  exact (h.filter _).filterMap _

/-- A call that queries asks for the fact's base. If it is answered it succeeds. For every
    order the aliases are walked in, the set it leaves is the initial one with the derived
    facts of the aliases, and the facts it holds are, with their provenance, those the call
    leaves. -/
theorem taint_effect {aliases : AliasSet} {order : List OraclePath} (target : Option Variable)
    (set : FactSet) (method : Method)
    (h : (s.classify m.program context stmt fact).base? = some base)
    (ha : (m.getAliases oracle s.strategy stmt (m.program.methodOf stmt) base).result = .ok aliases)
    (ho : order.Perm aliases.paths) :
    let o := s.taint m oracle context stmt target set method fact
    fact.path.base = some base ∧ o.result = .ok () ∧ o.set = s.visit stmt base fact aliases.paths set ∧
      s.Effect stmt base fact aliases set (s.visit stmt base fact order set) ∧
      (s.visit stmt base fact order set).facts.Perm o.set.facts := by
  intro o
  obtain ⟨hresult, hset⟩ := taint_of_answer target set method h ha
  refine ⟨(classify_of_base? h).2.1, hresult, hset, effect_visit ho set, ?_⟩
  rw [hset]
  exact visit_perm ho set

/-! ## A field write with a few aliases -/

/-- A method with one write and one statement behind it. -/
def oneWrite : Program where
  methodOf _ := ⟨1⟩
  successors stmt := if stmt = ⟨1⟩ then [⟨2⟩] else []
  isCall _ := false
  signature _ := "void main()"

def oneWriteManager : Manager := ⟨oneWrite, Preset.baseline.config, none⟩

def oneWriteSite : Site := ofManager oneWriteManager

/-- `v1.f2*` is tainted. -/
def cutOffFact : Fact := .tainted ⟨⟨0⟩, "in"⟩ ⟨some ⟨1⟩, [⟨2⟩], true⟩

/-- An oracle with one answer. -/
def answering (aliases : AliasSet) : Oracle where
  solve _ := .ok { aliases }

/-- Two aliases with one translation, one without any, a plain one, and the base. -/
def mixedAliases : AliasSet :=
  .ofList [⟨.var ⟨3⟩, [.field ⟨5⟩, .wildcard]⟩, ⟨.var ⟨3⟩, [.field ⟨5⟩, .wildcard, .element]⟩,
    ⟨.var ⟨4⟩, [.element]⟩, ⟨.var ⟨4⟩, []⟩, ⟨.var ⟨1⟩, []⟩]

theorem taint_effect_backwards :
    let o := oneWriteSite.taint oneWriteManager (answering mixedAliases) .zero ⟨1⟩ none .empty ⟨1⟩ cutOffFact
    let visit := oneWriteSite.visit ⟨1⟩ ⟨1⟩ cutOffFact
    (o.set.facts.map (·.path) = [⟨some ⟨3⟩, [⟨5⟩], true⟩, ⟨some ⟨4⟩, [⟨2⟩], false⟩]) ∧
      cutOffFact.path.base = some ⟨1⟩ ∧ o.result = .ok () ∧ o.set = visit mixedAliases.paths .empty ∧
      oneWriteSite.Effect ⟨1⟩ ⟨1⟩ cutOffFact mixedAliases .empty (visit mixedAliases.paths.reverse .empty) ∧
      (visit mixedAliases.paths.reverse .empty).facts.Perm o.set.facts :=
  ⟨by decide, taint_effect none .empty ⟨1⟩ (by decide) rfl (List.reverse_perm _)⟩

end Site

end TaintAlias
