/-
  TaintAlias.Proofs.CallContexts — the recorded contexts are a multimap.

  `Ev` lists what can be done with recorded contexts: record one, ask for the callers of
  an entry, ask for the size, and clear. What counts of a history is the list of records
  since the last clear (`recorded`).

  Proved, for every history (`after_holds`):
  - the callers of an entry are the contexts recorded under it, each once up to
    provenance, and of equal ones the first that was recorded;
  - the size is the number of different entries recorded, and only without records there
    is none;
  - if records change places, and no clear stands between them, the size and the callers
    stay the same, up to provenance and order.

  A record adds its context to the callers of its own entry and to no others
  (`callers_addTo`), whatever else is stored.

  Two histories of the same operations, on facts that differ in provenance only, answer
  the same up to provenance (`outs_congr`).
-/

import Mathlib.Data.Finset.Card
import Mathlib.Data.List.DropRight
import Mathlib.Data.List.Perm.Basic
import TaintAlias.CallContexts

namespace TaintAlias

/-- What identifies a context. -/
def CallContext.key (c : CallContext) : Stmt × EnginePath × Option Source := (c.site, c.fact.key)

theorem CallContext.same_iff {a b : CallContext} : a.Same b ↔ a.key = b.key := by
  simp only [Same, Fact.Same, key, Prod.mk.injEq]

theorem CallContext.Same.refl (a : CallContext) : a.Same a := ⟨rfl, rfl⟩

theorem CallContext.Same.symm {a b : CallContext} (h : a.Same b) : b.Same a := ⟨h.1.symm, h.2.symm⟩

theorem CallContext.Same.trans {a b c : CallContext} (h : a.Same b) (h' : b.Same c) : a.Same c :=
  ⟨h.1.trans h'.1, h.2.trans h'.2⟩

/-- What identifies an entry. -/
def Entry.key (e : Entry) : Method × EnginePath × Option Source := (e.callee, e.fact.key)

theorem Entry.same_iff {a b : Entry} : a.Same b ↔ a.key = b.key := by
  simp only [Same, Fact.Same, key, Prod.mk.injEq]

theorem Entry.Same.symm {a b : Entry} (h : a.Same b) : b.Same a := ⟨h.1.symm, h.2.symm⟩

theorem Entry.Same.trans {a b c : Entry} (h : a.Same b) (h' : b.Same c) : a.Same c :=
  ⟨h.1.trans h'.1, h.2.trans h'.2⟩

namespace CallContexts

/-! ## The contexts of one entry -/

/-- Contexts added one after the other. -/
def addAll (ctxs : List CallContext) : List CallContext := ctxs.foldl addContext []

theorem addAll_concat (ctxs : List CallContext) (ctx : CallContext) :
    addAll (ctxs ++ [ctx]) = addContext (addAll ctxs) ctx := by
  simp [addAll]

theorem addContext_of_same {ctxs : List CallContext} {ctx : CallContext} (h : ∃ c ∈ ctxs, c.Same ctx) :
    addContext ctxs ctx = ctxs := by
  simp [addContext, h]

theorem addContext_of_new {ctxs : List CallContext} {ctx : CallContext} (h : ¬ ∃ c ∈ ctxs, c.Same ctx) :
    addContext ctxs ctx = ctxs ++ [ctx] := by
  simp [addContext, h]

/-- Up to provenance nothing is lost and nothing comes in. -/
theorem exists_same_addAll {ctxs : List CallContext} {ctx : CallContext} :
    (∃ c ∈ addAll ctxs, c.Same ctx) ↔ ∃ c ∈ ctxs, c.Same ctx := by
  induction ctxs using List.reverseRecOn with
  | nil => rfl
  | append_singleton ctxs x ih =>
    have hsplit : (∃ c ∈ ctxs ++ [x], c.Same ctx) ↔ (∃ c ∈ ctxs, c.Same ctx) ∨ x.Same ctx := by
      simp [or_and_right, exists_or]
    rw [addAll_concat, hsplit, ← ih]
    by_cases hx : ∃ c ∈ addAll ctxs, c.Same x
    · rw [addContext_of_same hx]
      refine ⟨Or.inl, fun h => h.elim id fun hsame => ?_⟩
      obtain ⟨c, hc, hcx⟩ := hx
      exact ⟨c, hc, hcx.trans hsame⟩
    · rw [addContext_of_new hx]
      simp [or_and_right, exists_or]

theorem pairwise_addAll (ctxs : List CallContext) :
    (addAll ctxs).Pairwise fun a b => ¬ a.Same b := by
  induction ctxs using List.reverseRecOn with
  | nil => exact List.Pairwise.nil
  | append_singleton ctxs x ih =>
    rw [addAll_concat]
    by_cases hx : ∃ c ∈ addAll ctxs, c.Same x
    · rwa [addContext_of_same hx]
    · rw [addContext_of_new hx, List.pairwise_append]
      refine ⟨ih, List.pairwise_singleton _ _, fun c hc y hy hsame => ?_⟩
      obtain rfl := List.mem_singleton.mp hy
      exact hx ⟨c, hc, hsame⟩

/-- What is kept is the first of its like. -/
theorem find?_of_mem_addAll {ctxs : List CallContext} {ctx : CallContext} (h : ctx ∈ addAll ctxs) :
    ctxs.find? (fun c => decide (c.Same ctx)) = some ctx := by
  induction ctxs using List.reverseRecOn with
  | nil => cases h
  | append_singleton ctxs x ih =>
    rw [addAll_concat] at h
    rw [List.find?_append]
    by_cases hx : ∃ c ∈ addAll ctxs, c.Same x
    · rw [addContext_of_same hx] at h
      rw [ih h]
      rfl
    · rw [addContext_of_new hx] at h
      rcases List.mem_append.mp h with h | h
      · rw [ih h]
        rfl
      · obtain rfl := List.mem_singleton.mp h
        have hnone : ctxs.find? (fun c => decide (c.Same ctx)) = none :=
          List.find?_eq_none.mpr fun c hc hsame =>
            hx (exists_same_addAll.mpr ⟨c, hc, of_decide_eq_true hsame⟩)
        rw [hnone]
        simp [CallContext.Same.refl]

/-- The order contexts are added in decides only which of equal ones stays, and where. -/
theorem keys_addAll_perm {ctxs ctxs' : List CallContext} (h : ctxs.Perm ctxs') :
    ((addAll ctxs).map (·.key)).Perm ((addAll ctxs').map (·.key)) := by
  have hnodup : ∀ l, ((addAll l).map (·.key)).Nodup := fun l =>
    List.pairwise_map.mpr ((pairwise_addAll l).imp fun hne heq => hne (CallContext.same_iff.mpr heq))
  have hmem : ∀ l, ∀ ctx : CallContext, ctx.key ∈ (addAll l).map (·.key) ↔ ∃ c ∈ l, c.Same ctx := by
    intro l ctx
    rw [← exists_same_addAll]
    simp only [List.mem_map, CallContext.same_iff]
  refine (List.perm_ext_iff_of_nodup (hnodup ctxs) (hnodup ctxs')).mpr fun k => ?_
  -- either side holds keys of contexts only
  constructor
  · intro hk
    obtain ⟨ctx, -, rfl⟩ := List.mem_map.mp hk
    obtain ⟨c, hc, hsame⟩ := (hmem ctxs ctx).mp hk
    exact (hmem ctxs' ctx).mpr ⟨c, h.mem_iff.mp hc, hsame⟩
  · intro hk
    obtain ⟨ctx, -, rfl⟩ := List.mem_map.mp hk
    obtain ⟨c, hc, hsame⟩ := (hmem ctxs' ctx).mp hk
    exact (hmem ctxs ctx).mpr ⟨c, h.mem_iff.mpr hc, hsame⟩

/-! ## One more record -/

/-- A record counts under its own entry, and under no other. -/
theorem callers_addTo (entry : Entry) (ctx : CallContext) (entries : List (Entry × List CallContext))
    (callee : Method) (fact : Fact) :
    callersOf ⟨addTo entry ctx entries⟩ callee fact =
      if entry.Same ⟨callee, fact⟩ then addContext (callersOf ⟨entries⟩ callee fact) ctx
      else callersOf ⟨entries⟩ callee fact := by
  induction entries with
  | nil =>
    by_cases hk : entry.Same ⟨callee, fact⟩ <;> simp [addTo, callersOf, hk, addContext]
  | cons e rest ih =>
    obtain ⟨e, ctxs⟩ := e
    by_cases he : e.Same entry
    · -- the record goes here, and `e` and `entry` are asked for together
      have hiff : e.Same ⟨callee, fact⟩ ↔ entry.Same ⟨callee, fact⟩ :=
        ⟨fun h => he.symm.trans h, fun h => he.trans h⟩
      by_cases hk : entry.Same ⟨callee, fact⟩ <;> simp [addTo, callersOf, he, hiff, hk]
    · by_cases hk : e.Same ⟨callee, fact⟩
      · have hne : ¬ entry.Same ⟨callee, fact⟩ := fun h => he (hk.trans h.symm)
        simp [addTo, callersOf, he, hk, hne]
      · simpa [addTo, callersOf, he, hk] using ih

/-- The keys of the entries, oldest first. -/
def keys (entries : List (Entry × List CallContext)) : List (Method × EnginePath × Option Source) :=
  entries.map (·.1.key)

theorem keys_addTo (entry : Entry) (ctx : CallContext) (entries : List (Entry × List CallContext)) :
    keys (addTo entry ctx entries) =
      if entry.key ∈ keys entries then keys entries else keys entries ++ [entry.key] := by
  induction entries with
  | nil => rfl
  | cons e rest ih =>
    obtain ⟨e, ctxs⟩ := e
    by_cases he : e.Same entry
    · have hkey := Entry.same_iff.mp he
      simp [addTo, keys, he, hkey]
    · have hkey : entry.key ≠ e.key := fun h => he (Entry.same_iff.mpr h.symm)
      have hcons : ∀ l, keys ((e, ctxs) :: l) = e.key :: keys l := fun _ => rfl
      simp only [addTo, he, if_false, hcons, ih, List.mem_cons, hkey, false_or]
      split <;> rfl

/-! ## Histories -/

inductive Ev where
  | record (entry : Entry) (ctx : CallContext)
  | callers (entry : Entry)
  | size
  | clear

inductive Out where
  | callers (ctxs : List CallContext)
  | size (n : Nat) (isEmpty : Bool)
  | done

def step (c : CallContexts) : Ev → Out × CallContexts
  | .record entry ctx => (.done, c.record entry.callee entry.fact ctx.site ctx.fact)
  | .callers entry => (.callers (c.callersOf entry.callee entry.fact), c)
  | .size => (.size c.size c.isEmpty, c)
  | .clear => (.done, c.clear)

/-- The contexts after a history. -/
def after (c : CallContexts) (evs : List Ev) : CallContexts := evs.foldl (fun c e => (c.step e).2) c

theorem after_concat (c : CallContexts) (evs : List Ev) (e : Ev) :
    c.after (evs ++ [e]) = ((c.after evs).step e).2 := by
  simp [after]

def Ev.isClear : Ev → Bool
  | .clear => true
  | _ => false

def Ev.record? : Ev → Option (Entry × CallContext)
  | .record entry ctx => some (entry, ctx)
  | _ => none

/-- What was recorded since the last clear, oldest first. -/
def recorded (evs : List Ev) : List (Entry × CallContext) :=
  (evs.rtakeWhile fun e => !e.isClear).filterMap Ev.record?

theorem recorded_concat_clear (evs : List Ev) : recorded (evs ++ [.clear]) = [] := by
  simp [recorded, Ev.isClear]

theorem recorded_concat {e : Ev} (evs : List Ev) (h : e.isClear = false) :
    recorded (evs ++ [e]) = recorded evs ++ e.record?.toList := by
  cases e <;> simp_all [recorded, Ev.isClear, Ev.record?]

/-- Asking records nothing. -/
theorem recorded_concat_read {e : Ev} (evs : List Ev) (h : e.isClear = false) (hr : e.record? = none) :
    recorded (evs ++ [e]) = recorded evs := by
  rw [recorded_concat evs h, hr]
  exact List.append_nil _

/-- Changing the places of what stands between two clears changes the places of records. -/
theorem recorded_perm (pre post : List Ev) {block block' : List Ev} (hno : ∀ e ∈ block, e.isClear = false)
    (h : block.Perm block') : (recorded (pre ++ block ++ post)).Perm (recorded (pre ++ block' ++ post)) := by
  induction post using List.reverseRecOn with
  | nil =>
    have hblock : ∀ l : List Ev, (∀ e ∈ l, e.isClear = false) →
        recorded (pre ++ l) = recorded pre ++ l.filterMap Ev.record? := by
      intro l hl
      induction l using List.reverseRecOn with
      | nil => simp
      | append_singleton l e ih =>
        rw [← List.append_assoc, recorded_concat _ (hl e (by simp)),
          ih fun x hx => hl x (List.mem_append_left _ hx)]
        cases he : e.record? <;> simp [he]
    rw [List.append_nil, List.append_nil, hblock block hno,
      hblock block' fun e he => hno e (h.mem_iff.mpr he)]
    exact (h.filterMap _).append_left _
  | append_singleton post e ih =>
    rw [← List.append_assoc, ← List.append_assoc]
    by_cases he : e.isClear = true
    · cases e with
      | clear => rw [recorded_concat_clear, recorded_concat_clear]
      | _ => cases he
    · have he : e.isClear = false := Bool.eq_false_iff.mpr he
      rw [recorded_concat _ he, recorded_concat _ he]
      exact ih.append_right _

/-- The contexts recorded under an entry. -/
def contextsOf (rs : List (Entry × CallContext)) (entry : Entry) : List CallContext :=
  (rs.filter fun r => decide (r.1.Same entry)).map (·.2)

/-! ## What a history leaves -/

/-- Callers of an entry are the contexts recorded under it, added in order. -/
theorem callersOf_after (evs : List Ev) (callee : Method) (fact : Fact) :
    (empty.after evs).callersOf callee fact = addAll (contextsOf (recorded evs) ⟨callee, fact⟩) := by
  induction evs using List.reverseRecOn with
  | nil => rfl
  | append_singleton evs e ih =>
    rw [after_concat]
    cases e with
    | record entry ctx =>
      have hstep : ((empty.after evs).step (.record entry ctx)).2 =
          ⟨addTo entry ctx (empty.after evs).entries⟩ := rfl
      rw [hstep, callers_addTo, ih, recorded_concat _ rfl]
      by_cases hk : entry.Same ⟨callee, fact⟩
      · simp [Ev.record?, contextsOf, hk, addAll]
      · simp [Ev.record?, contextsOf, hk]
    | callers entry => rw [recorded_concat_read _ rfl rfl]; exact ih
    | size => rw [recorded_concat_read _ rfl rfl]; exact ih
    | clear => rw [recorded_concat_clear]; rfl

/-- The entries are those recorded, no two with one key. -/
theorem keys_after (evs : List Ev) :
    (keys (empty.after evs).entries).Nodup ∧
      ∀ k, k ∈ keys (empty.after evs).entries ↔ k ∈ (recorded evs).map (·.1.key) := by
  induction evs using List.reverseRecOn with
  | nil => exact ⟨List.nodup_nil, fun k => Iff.rfl⟩
  | append_singleton evs e ih =>
    obtain ⟨hnodup, hmem⟩ := ih
    rw [after_concat]
    cases e with
    | record entry ctx =>
      have hstep : ((empty.after evs).step (.record entry ctx)).2.entries =
          addTo entry ctx (empty.after evs).entries := rfl
      rw [hstep, keys_addTo, recorded_concat _ rfl]
      have hrec : ∀ k, k ∈ (recorded evs ++ (Ev.record entry ctx).record?.toList).map (·.1.key) ↔
          k ∈ (recorded evs).map (·.1.key) ∨ k = entry.key := fun k => by simp [Ev.record?]
      split
      · rename_i hin
        refine ⟨hnodup, fun k => ?_⟩
        rw [hrec, hmem]
        exact ⟨Or.inl, fun h => h.elim id fun hk => hk ▸ (hmem _).mp hin⟩
      · rename_i hin
        refine ⟨List.nodup_append.mpr ⟨hnodup, List.nodup_singleton _, ?_⟩, fun k => ?_⟩
        · rintro a ha b hb rfl
          exact hin (List.mem_singleton.mp hb ▸ ha)
        · rw [hrec, List.mem_append, List.mem_singleton, hmem]
    | callers entry => rw [recorded_concat_read _ rfl rfl]; exact ⟨hnodup, hmem⟩
    | size => rw [recorded_concat_read _ rfl rfl]; exact ⟨hnodup, hmem⟩
    | clear => rw [recorded_concat_clear]; exact ⟨List.nodup_nil, fun k => Iff.rfl⟩

/-- How many different entries were recorded. -/
def entryCount (rs : List (Entry × CallContext)) : Nat := (rs.map (·.1.key)).toFinset.card

theorem size_after (evs : List Ev) : (empty.after evs).size = entryCount (recorded evs) := by
  obtain ⟨hnodup, hmem⟩ := keys_after evs
  calc
    (empty.after evs).size = (keys (empty.after evs).entries).length := by simp [size, keys]
    _ = (keys (empty.after evs).entries).toFinset.card := (List.toFinset_card_of_nodup hnodup).symm
    _ = entryCount (recorded evs) := by
      rw [entryCount]
      congr 1
      ext k
      rw [List.mem_toFinset, List.mem_toFinset, hmem]

theorem isEmpty_after (evs : List Ev) : (empty.after evs).isEmpty = true ↔ recorded evs = [] := by
  rw [isEmpty, List.isEmpty_iff_length_eq_zero, ← size, size_after, entryCount, Finset.card_eq_zero,
    List.toFinset_eq_empty_iff, List.map_eq_nil_iff]

/-- `c` holds what was recorded as `rs`, and nothing else. -/
structure Holds (c : CallContexts) (rs : List (Entry × CallContext)) : Prop where
  /-- No context is returned twice. -/
  nodup : ∀ callee fact, (c.callersOf callee fact).Pairwise fun a b => ¬ a.Same b
  /-- Up to provenance, those recorded under the entry are returned. -/
  exact : ∀ callee fact ctx, (∃ a ∈ c.callersOf callee fact, a.Same ctx) ↔
    ∃ r ∈ rs, r.1.Same ⟨callee, fact⟩ ∧ r.2.Same ctx
  /-- Of equal ones the first recorded is returned, with its provenance. -/
  first : ∀ callee fact, ∀ ctx ∈ c.callersOf callee fact,
    (rs.find? fun r => decide (r.1.Same ⟨callee, fact⟩ ∧ r.2.Same ctx)).map (·.2) = some ctx
  size : c.size = entryCount rs
  isEmpty : c.isEmpty = true ↔ rs = []

theorem exists_mem_contextsOf {rs : List (Entry × CallContext)} {entry : Entry} {ctx : CallContext} :
    (∃ c ∈ contextsOf rs entry, c.Same ctx) ↔ ∃ r ∈ rs, r.1.Same entry ∧ r.2.Same ctx := by
  constructor
  · rintro ⟨c, hc, hsame⟩
    obtain ⟨r, hr, rfl⟩ := List.mem_map.mp hc
    obtain ⟨hr, hentry⟩ := List.mem_filter.mp hr
    exact ⟨r, hr, of_decide_eq_true hentry, hsame⟩
  · rintro ⟨r, hr, hentry, hsame⟩
    exact ⟨r.2, List.mem_map_of_mem (List.mem_filter.mpr ⟨hr, decide_eq_true hentry⟩), hsame⟩

theorem find?_contextsOf (rs : List (Entry × CallContext)) (entry : Entry) (ctx : CallContext) :
    (contextsOf rs entry).find? (fun c => decide (c.Same ctx)) =
      (rs.find? fun r => decide (r.1.Same entry ∧ r.2.Same ctx)).map (·.2) := by
  rw [contextsOf, List.find?_map, List.find?_filter]
  simp only [Function.comp_def, Bool.decide_and, Bool.decide_eq_true]

/-- What is there after a history holds the records since the last clear. Where records
    between two clears change places, size and callers are the same up to provenance. -/
theorem after_holds (evs : List Ev) :
    (empty.after evs).Holds (recorded evs) ∧
      ∀ pre block block' post, evs = pre ++ block ++ post → (∀ e ∈ block, e.isClear = false) →
        block.Perm block' →
          let c := empty.after (pre ++ block' ++ post)
          c.size = (empty.after evs).size ∧ c.isEmpty = (empty.after evs).isEmpty ∧
            ∀ callee fact, ((c.callersOf callee fact).map (·.key)).Perm
              (((empty.after evs).callersOf callee fact).map (·.key)) := by
  constructor
  · constructor
    · intro callee fact
      rw [callersOf_after]
      exact pairwise_addAll _
    · intro callee fact ctx
      rw [callersOf_after, exists_same_addAll]
      exact exists_mem_contextsOf
    · intro callee fact ctx h
      rw [callersOf_after] at h
      rw [← find?_contextsOf, find?_of_mem_addAll h]
    · exact size_after evs
    · exact isEmpty_after evs
  · rintro pre block block' post rfl hno hperm c
    have hrec := recorded_perm pre post hno hperm
    have hsize : c.size = (empty.after (pre ++ block ++ post)).size := by
      rw [size_after, size_after, entryCount, entryCount]
      exact congrArg Finset.card (List.toFinset_eq_of_perm _ _ (hrec.symm.map _))
    refine ⟨hsize, ?_, fun callee fact => ?_⟩
    · rw [Bool.eq_iff_iff, isEmpty_after, isEmpty_after]
      exact ⟨fun h => List.perm_nil.mp (h ▸ hrec), fun h => List.nil_perm.mp (h ▸ hrec)⟩
    · rw [callersOf_after, callersOf_after]
      exact keys_addAll_perm ((hrec.symm.filter _).map _)

/-- `v1` tainted at its source, and derived anew from that: one fact, two provenances. -/
def freshFact : Fact := .tainted ⟨⟨0⟩, "in"⟩ ⟨some ⟨1⟩, [], false⟩

def laterFact : Fact := .derived freshFact ⟨some ⟨1⟩, [], false⟩ ⟨7⟩

/-- Two equal contexts under equal entries, behind a clear and in either order. -/
theorem after_holds_swapped :
    let early : Ev := .record ⟨⟨1⟩, freshFact⟩ ⟨⟨10⟩, laterFact⟩
    let late : Ev := .record ⟨⟨1⟩, laterFact⟩ ⟨⟨10⟩, freshFact⟩
    let other : Ev := .record ⟨⟨2⟩, .zero⟩ ⟨⟨20⟩, .zero⟩
    let c := empty.after [other, .clear, early, late, other]
    let swapped := empty.after [other, .clear, late, early, other]
    c.callersOf ⟨1⟩ laterFact = [⟨⟨10⟩, laterFact⟩] ∧
      swapped.callersOf ⟨1⟩ laterFact = [⟨⟨10⟩, freshFact⟩] ∧
      c.size = 2 ∧ swapped.size = c.size ∧
      ((swapped.callersOf ⟨1⟩ laterFact).map (·.key)).Perm ((c.callersOf ⟨1⟩ laterFact).map (·.key)) := by
  intro early late other c swapped
  obtain ⟨hsize, -, hcallers⟩ := (after_holds [other, .clear, early, late, other]).2 [other, .clear]
    [early, late] [late, early] [other] rfl (by decide) (List.Perm.swap _ _ _)
  exact ⟨rfl, rfl, rfl, hsize, hcallers _ _⟩

/-! ## Provenance does not count -/

/-- The same operation on facts that are the same. -/
def Ev.Same : Ev → Ev → Prop
  | .record entry ctx, .record entry' ctx' => entry.Same entry' ∧ ctx.Same ctx'
  | .callers entry, .callers entry' => entry.Same entry'
  | .size, .size | .clear, .clear => True
  | _, _ => False

/-- The same answer up to provenance. -/
def Out.Same : Out → Out → Prop
  | .callers ctxs, .callers ctxs' => List.Forall₂ CallContext.Same ctxs ctxs'
  | .size n isEmpty, .size n' isEmpty' => n = n' ∧ isEmpty = isEmpty'
  | .done, .done => True
  | _, _ => False

/-- The answers to one operation after another. -/
def outs (c : CallContexts) : List Ev → List Out
  | [] => []
  | e :: evs => (c.step e).1 :: outs (c.step e).2 evs

/-- An entry with its contexts, up to provenance. -/
def SameRow (r r' : Entry × List CallContext) : Prop :=
  r.1.Same r'.1 ∧ List.Forall₂ CallContext.Same r.2 r'.2

/-- The same rows in the same order. -/
abbrev SameRows : List (Entry × List CallContext) → List (Entry × List CallContext) → Prop :=
  List.Forall₂ SameRow

theorem sameRows_refl (rows : List (Entry × List CallContext)) : SameRows rows rows :=
  List.forall₂_same.mpr fun _ _ =>
    ⟨⟨rfl, rfl⟩, List.forall₂_same.mpr fun ctx _ => CallContext.Same.refl ctx⟩

theorem addContext_congr {ctxs ctxs' : List CallContext} {ctx ctx' : CallContext}
    (h : List.Forall₂ CallContext.Same ctxs ctxs') (hctx : ctx.Same ctx') :
    List.Forall₂ CallContext.Same (addContext ctxs ctx) (addContext ctxs' ctx') := by
  have hmem : (∃ c ∈ ctxs, c.Same ctx) ↔ ∃ c ∈ ctxs', c.Same ctx' := by
    induction h with
    | nil => simp
    | @cons a b as bs hab _ ih =>
      have hiff : a.Same ctx ↔ b.Same ctx' :=
        ⟨fun h => hab.symm.trans (h.trans hctx), fun h => hab.trans (h.trans hctx.symm)⟩
      simp only [List.exists_mem_cons_iff, hiff, ih]
  by_cases hc : ∃ c ∈ ctxs, c.Same ctx
  · rwa [addContext_of_same hc, addContext_of_same (hmem.mp hc)]
  · rw [addContext_of_new hc, addContext_of_new fun h => hc (hmem.mpr h)]
    exact List.rel_append h (.cons hctx .nil)

theorem addTo_congr {rows rows' : List (Entry × List CallContext)} {entry entry' : Entry}
    {ctx ctx' : CallContext} (h : SameRows rows rows') (he : entry.Same entry') (hctx : ctx.Same ctx') :
    SameRows (addTo entry ctx rows) (addTo entry' ctx' rows') := by
  induction h with
  | nil => exact .cons ⟨he, .cons hctx .nil⟩ .nil
  | @cons r r' rest rest' hr hrest ih =>
    obtain ⟨e, ctxs⟩ := r
    obtain ⟨e', ctxs'⟩ := r'
    have hiff : e.Same entry ↔ e'.Same entry' :=
      ⟨fun h => hr.1.symm.trans (h.trans he), fun h => hr.1.trans (h.trans he.symm)⟩
    simp only [addTo, hiff]
    split
    · exact .cons ⟨hr.1, addContext_congr hr.2 hctx⟩ hrest
    · exact .cons hr ih

theorem callersOf_congr {c c' : CallContexts} {entry entry' : Entry} (h : SameRows c.entries c'.entries)
    (he : entry.Same entry') :
    List.Forall₂ CallContext.Same (c.callersOf entry.callee entry.fact)
      (c'.callersOf entry'.callee entry'.fact) := by
  unfold callersOf
  generalize c.entries = rows at h ⊢
  generalize c'.entries = rows' at h ⊢
  induction h with
  | nil => exact .nil
  | @cons r r' rest rest' hr hrest ih =>
    have hiff : r.1.Same entry ↔ r'.1.Same entry' :=
      ⟨fun h => hr.1.symm.trans (h.trans he), fun h => hr.1.trans (h.trans he.symm)⟩
    by_cases hk : r.1.Same entry
    · simpa only [List.find?_cons, hk, hiff.mp hk, decide_true] using hr.2
    · have hk' : ¬ r'.1.Same entry' := fun h => hk (hiff.mpr h)
      simpa only [List.find?_cons, hk, hk', decide_false] using ih

/-- One operation answers and changes the same. -/
theorem step_congr {c c' : CallContexts} {e e' : Ev} (h : SameRows c.entries c'.entries) (he : e.Same e') :
    (c.step e).1.Same (c'.step e').1 ∧ SameRows (c.step e).2.entries (c'.step e').2.entries := by
  cases e with
  | record entry ctx =>
    cases e' with
    | record entry' ctx' => exact ⟨trivial, addTo_congr h he.1 he.2⟩
    | _ => cases he
  | callers entry =>
    cases e' with
    | callers entry' => exact ⟨callersOf_congr h he, h⟩
    | _ => cases he
  | size =>
    cases e' with
    | size =>
      have hlen := h.length_eq
      refine ⟨⟨hlen, ?_⟩, h⟩
      rw [isEmpty, isEmpty, Bool.eq_iff_iff, List.isEmpty_iff_length_eq_zero,
        List.isEmpty_iff_length_eq_zero, hlen]
    | _ => cases he
  | clear =>
    cases e' with
    | clear => exact ⟨trivial, .nil⟩
    | _ => cases he

/-- So does a whole history. -/
theorem outs_congr {c c' : CallContexts} {evs evs' : List Ev} (h : SameRows c.entries c'.entries)
    (hevs : List.Forall₂ Ev.Same evs evs') : List.Forall₂ Out.Same (c.outs evs) (c'.outs evs') := by
  induction hevs generalizing c c' with
  | nil => exact .nil
  | cons he _ ih =>
    obtain ⟨hout, hrows⟩ := step_congr h he
    exact .cons hout (ih hrows)

end CallContexts

end TaintAlias
