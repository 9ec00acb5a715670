/-
  TaintAlias.Proofs.Site.Dropped — which paths have no translation, and what is dropped.

  A path fails to translate for one of two reasons. Its root is no local, whatever its
  segments; or its root is a local, and an array element stands in front of the first
  wildcard (`BlockedAt`). The error names the root, or the first array element with its
  index among all segments (`namedFields_eq_error`). Nothing else fails.

  The field limit has no part in this: it is applied to paths that translated. An array
  element beyond it still blocks, and one behind a wildcard never does.

  `toFact` is the fact an alias site derives for a path. It fails as the translation
  does, for every fact and statement, and the alias stage drops a path, with that cause
  in its notice, exactly if it fails (`fails_iff_blocked`).
-/

import TaintAlias.Proofs.Site.Effect

namespace TaintAlias

/-! ## Blocked paths -/

/-- Segment `i` is an array element; neither another one nor a wildcard is in front. -/
def BlockedAt (segs : List Segment) (i : Nat) : Prop :=
  segs[i]? = some .element ∧ ∀ j < i, segs[j]? ≠ some .element ∧ segs[j]? ≠ some .wildcard

instance (segs : List Segment) (i : Nat) : Decidable (BlockedAt segs i) := inferInstanceAs (Decidable (_ ∧ _))

variable {segs : List Segment} {i : Nat}

theorem not_blockedAt_nil : ¬ BlockedAt [] i := by
  intro h
  cases h.1

theorem blockedAt_element : BlockedAt (.element :: segs) i ↔ i = 0 := by
  constructor
  · intro h
    by_contra hi
    exact (h.2 0 (by omega)).1 rfl
  · rintro rfl
    exact ⟨rfl, fun j hj => by omega⟩

theorem not_blockedAt_wildcard : ¬ BlockedAt (.wildcard :: segs) i := by
  intro h
  cases i with
  | zero => cases h.1
  | succ i => exact (h.2 0 (by omega)).2 rfl

theorem not_blockedAt_field_zero {f : Field} : ¬ BlockedAt (.field f :: segs) 0 := by
  intro h
  cases h.1

/-- A named field in front shifts the segment that blocks. -/
theorem blockedAt_field_succ {f : Field} : BlockedAt (.field f :: segs) (i + 1) ↔ BlockedAt segs i := by
  constructor
  · intro h
    exact ⟨h.1, fun j hj => h.2 (j + 1) (by omega)⟩
  · intro h
    refine ⟨h.1, fun j hj => ?_⟩
    cases j with
    | zero => exact ⟨by simp, by simp⟩
    | succ j => exact h.2 j (by omega)

/-- Reading the named fields fails at the segment that blocks, and nowhere else. -/
theorem namedFields_eq_error {cause : Untranslatable} :
    namedFields i segs = .error cause ↔ ∃ j, BlockedAt segs j ∧ cause = .segment .element (i + j) := by
  induction segs generalizing i with
  | nil => simp [namedFields, not_blockedAt_nil]
  | cons s segs ih =>
    cases s with
    | field f =>
      have hstep : namedFields i (.field f :: segs) = .error cause ↔ namedFields (i + 1) segs = .error cause := by
        simp only [namedFields]
        cases namedFields (i + 1) segs <;> simp
      rw [hstep, ih]
      constructor
      · rintro ⟨j, hj, rfl⟩
        exact ⟨j + 1, blockedAt_field_succ.mpr hj, by rw [Nat.add_assoc, Nat.add_comm 1]⟩
      · rintro ⟨j, hj, rfl⟩
        cases j with
        | zero => exact absurd hj not_blockedAt_field_zero
        | succ j => exact ⟨j, blockedAt_field_succ.mp hj, by rw [Nat.add_assoc, Nat.add_comm 1]⟩
    | element => simp [namedFields, blockedAt_element, eq_comm]
    | wildcard => simp [namedFields, not_blockedAt_wildcard]

/-! ## Failed translations -/

namespace OraclePath

variable {p : OraclePath} {v : Variable}

theorem toEngine_of_root (k : Nat) (h : ∀ v, p.root ≠ .var v) : p.toEngine k = .error (.root p.root) := by
  unfold toEngine
  cases hroot : p.root with
  | var v => exact absurd hroot (h v)
  | static f => rfl
  | allocation s => rfl

/-- A path rooted at a local fails exactly where it is blocked. -/
theorem toEngine_eq_error_of_local (k : Nat) (hv : p.root = .var v) {cause : Untranslatable} :
    p.toEngine k = .error cause ↔ ∃ i, BlockedAt p.segments i ∧ cause = .segment .element i := by
  have hstep : p.toEngine k = .error cause ↔ namedFields 0 p.segments = .error cause := by
    simp only [toEngine, hv]
    cases namedFields 0 p.segments <;> simp
  rw [hstep, namedFields_eq_error]
  simp only [Nat.zero_add]

theorem toEngine_eq_error (k : Nat) {cause : Untranslatable} :
    p.toEngine k = .error cause ↔
      ((∀ v, p.root ≠ .var v) ∧ cause = .root p.root) ∨
      ((∃ v, p.root = .var v) ∧ ∃ i, BlockedAt p.segments i ∧ cause = .segment .element i) := by
  by_cases hlocal : ∃ v, p.root = .var v
  · obtain ⟨v, hv⟩ := hlocal
    rw [toEngine_eq_error_of_local k hv]
    simp [hv]
  · have hroot : ∀ v, p.root ≠ .var v := fun v hv => hlocal ⟨v, hv⟩
    rw [toEngine_of_root k hroot]
    simp [hroot, eq_comm]

/-- Nothing else fails. -/
theorem exists_toEngine (k : Nat) :
    (∃ e, p.toEngine k = .ok e) ↔ (∃ v, p.root = .var v) ∧ ∀ i, ¬ BlockedAt p.segments i := by
  cases he : p.toEngine k with
  | ok e =>
    obtain ⟨v, -, hv, -⟩ := toEngine_cases he
    refine iff_of_true ⟨e, rfl⟩ ⟨⟨v, hv⟩, fun i hi => ?_⟩
    rw [(toEngine_eq_error_of_local k hv).mpr ⟨i, hi, rfl⟩] at he
    cases he
  | error cause =>
    refine iff_of_false nofun ?_
    rintro ⟨⟨v, hv⟩, hfree⟩
    obtain ⟨i, hi, -⟩ := (toEngine_eq_error_of_local k hv).mp he
    exact hfree i hi

/-- The fact derived for `p` from `fact` at `stmt`, with at most `k` fields. -/
def toFact (k : Nat) (p : OraclePath) (fact : Fact) (stmt : Stmt) : Except Untranslatable Fact :=
  (p.toEngine k).map fun e => .derived fact e stmt

theorem toFact_eq_error {k : Nat} {fact : Fact} {stmt : Stmt} {cause : Untranslatable} :
    p.toFact k fact stmt = .error cause ↔ p.toEngine k = .error cause := by
  unfold toFact
  cases p.toEngine k with
  | ok e => exact ⟨nofun, nofun⟩
  | error err =>
    show Except.error err = Except.error cause ↔ _
    simp

end OraclePath

namespace Site

variable {k : Nat} {fact : Fact} {stmt : Stmt} {p : OraclePath} {paths : List OraclePath}

theorem derived?_eq_toOption : derived? k stmt fact p = (p.toFact k fact stmt).toOption := by
  unfold derived? OraclePath.toFact
  cases p.toEngine k <;> rfl

/-- The facts an alias site adds are the ones derived for the paths that translate. -/
theorem spread_eq_toFact (set : FactSet) :
    spread k stmt fact paths set = set.insertAll (paths.filterMap fun p => (p.toFact k fact stmt).toOption) := by
  rw [spread_eq]
  simp only [derived?_eq_toOption]

/-- The paths it drops are the ones that fail. -/
theorem dropped_eq_toFact (fact : Fact) :
    dropped k stmt paths = paths.filterMap fun p =>
      match p.toFact k fact stmt with
      | .ok _ => none
      | .error cause => some (.aliasDropped stmt p cause) := by
  refine List.filterMap_congr fun p _ => ?_
  unfold OraclePath.toFact
  cases p.toEngine k <;> rfl

theorem mem_dropped (fact : Fact) {cause : Untranslatable} :
    .aliasDropped stmt p cause ∈ dropped k stmt paths ↔ p ∈ paths ∧ p.toFact k fact stmt = .error cause := by
  rw [dropped_eq_toFact fact, List.mem_filterMap]
  constructor
  · rintro ⟨q, hq, hnotice⟩
    split at hnotice
    · cases hnotice
    · rename_i err herr
      cases hnotice
      exact ⟨hq, herr⟩
  · rintro ⟨hp, herr⟩
    exact ⟨p, hp, by rw [herr]⟩

theorem contains_spread {f : Fact} (set : FactSet) (hp : p ∈ paths) (hf : p.toFact k fact stmt = .ok f) :
    (spread k stmt fact paths set).contains f = true := by
  rw [spread_eq_toFact, FactSet.contains_insertAll]
  exact Or.inr ⟨f, List.mem_filterMap.mpr ⟨p, hp, by rw [hf]; rfl⟩, .refl f⟩

/-- A path fails with its root exactly if that is no local, and with a segment exactly if
    its root is a local and the segment is the array element that blocks it; any other
    path translates. The limit has no part in whether, and how, a path fails. A derived
    fact fails as the translation does, whatever it is derived from and where. An alias
    site drops exactly the paths that fail, and adds the facts of all others. -/
theorem fails_iff_blocked (p : OraclePath) :
    (∀ k r, p.toEngine k = .error (.root r) ↔ (∀ v, p.root ≠ .var v) ∧ r = p.root) ∧
    (∀ k s i, p.toEngine k = .error (.segment s i) ↔
      (∃ v, p.root = .var v) ∧ s = .element ∧ BlockedAt p.segments i) ∧
    (∀ k, (∃ e, p.toEngine k = .ok e) ↔ (∃ v, p.root = .var v) ∧ ∀ i, ¬ BlockedAt p.segments i) ∧
    (∀ j k cause, p.toEngine j = .error cause ↔ p.toEngine k = .error cause) ∧
    ∀ k fact stmt,
      (∀ cause, p.toFact k fact stmt = .error cause ↔ p.toEngine k = .error cause) ∧
      ∀ paths, p ∈ paths →
        (∀ cause, .aliasDropped stmt p cause ∈ dropped k stmt paths ↔ p.toFact k fact stmt = .error cause) ∧
        ∀ f set, p.toFact k fact stmt = .ok f → (spread k stmt fact paths set).contains f = true := by
  refine ⟨fun k r => ?_, fun k s i => ?_, fun k => ?_, fun j k cause => ?_, fun k fact stmt => ⟨fun cause => ?_, ?_⟩⟩
  · rw [OraclePath.toEngine_eq_error]
    simp
  · rw [OraclePath.toEngine_eq_error]
    simp [and_comm, and_assoc]
  · exact OraclePath.exists_toEngine k
  · rw [OraclePath.toEngine_eq_error, OraclePath.toEngine_eq_error]
  · exact OraclePath.toFact_eq_error
  · intro paths hp
    refine ⟨fun cause => ?_, fun f set hf => contains_spread set hp hf⟩
    rw [mem_dropped fact]
    exact and_iff_right hp

/-- Beyond the limit an array element still blocks; behind a wildcard it does not. -/
theorem fails_iff_blocked_beyond_limit :
    let p : OraclePath := ⟨.var ⟨1⟩, [.field ⟨2⟩, .field ⟨3⟩, .element, .wildcard]⟩
    let q : OraclePath := ⟨.var ⟨1⟩, [.field ⟨2⟩, .wildcard, .element]⟩
    let cause : Untranslatable := .segment .element 2
    p.toEngine 1 = .error cause ∧ (∃ e, q.toEngine 1 = .ok e) ∧
      .aliasDropped ⟨6⟩ p cause ∈ dropped 1 ⟨6⟩ [q, p] ∧
      (spread 1 ⟨6⟩ cutOffFact [q, p] .empty).contains (.derived cutOffFact ⟨some ⟨1⟩, [⟨2⟩], true⟩ ⟨6⟩) = true := by
  intro p q cause
  obtain ⟨-, hsegment, -, -, hstage⟩ := fails_iff_blocked p
  obtain ⟨-, -, htranslates, -, hstage'⟩ := fails_iff_blocked q
  have hfree : ∀ i, ¬ BlockedAt q.segments i := fun i h => by
    cases i with
    | zero => exact not_blockedAt_field_zero h
    | succ i => exact not_blockedAt_wildcard (blockedAt_field_succ.mp h)
  have herr : p.toEngine 1 = .error cause := (hsegment 1 .element 2).mpr ⟨⟨_, rfl⟩, rfl, by decide⟩
  obtain ⟨hfact, hdropped⟩ := hstage 1 cutOffFact ⟨6⟩
  refine ⟨herr, (htranslates 1).mpr ⟨⟨_, rfl⟩, hfree⟩, ?_, ?_⟩
  · exact ((hdropped [q, p] (by simp)).1 cause).mpr ((hfact cause).mpr herr)
  · exact ((hstage' 1 cutOffFact ⟨6⟩).2 [q, p] (by simp)).2 _ .empty rfl

end Site

end TaintAlias
