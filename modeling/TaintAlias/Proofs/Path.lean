/-
  TaintAlias.Proofs.Path — what a translated path stands for.

  A path of the pointer analysis translates in two ways: all its segments are named
  fields, and the engine's path stands for that one chain; or named fields lead up to a
  wildcard, and the engine's path stands for every chain that extends them
  (`toEngine_cases`). Either way the field limit may shorten the result, which then
  stands for more.

  `toEngine_append_covers` is the law the alias stage rests on. Of a path extended by
  the fields of a fact, the translation covers every chain the path expands to, followed
  by those fields. It covers what goes on behind the fields only if the path has a
  wildcard or the limit shortens the result.
-/

import TaintAlias.Path.Translate

namespace TaintAlias

/-! ## The chains of an engine path -/

namespace EnginePath

/-- The chains of steps `p` stands for: its own fields or, if it is cut off, whatever
    extends them, array elements included. -/
def CoversSteps (p : EnginePath) (chain : List Step) : Prop :=
  if p.cutOff then p.fields.map .field <+: chain else chain = p.fields.map .field

theorem coversSteps_exact (b : Option Variable) (fs : List Field) (chain : List Step) :
    CoversSteps ⟨b, fs, false⟩ chain ↔ chain = fs.map .field := by
  simp [CoversSteps]

theorem coversSteps_cut (b : Option Variable) (fs : List Field) (chain : List Step) :
    CoversSteps ⟨b, fs, true⟩ chain ↔ fs.map .field <+: chain := by
  simp [CoversSteps]

theorem prefix_of_coversSteps {p : EnginePath} {chain : List Step} (h : p.CoversSteps chain) :
    p.fields.map .field <+: chain := by
  unfold CoversSteps at h; split at h
  · exact h
  · exact h ▸ List.prefix_refl _

theorem eq_of_coversSteps {p : EnginePath} {chain : List Step} (hcut : p.cutOff = false)
    (h : p.CoversSteps chain) : chain = p.fields.map .field := by
  simpa [CoversSteps, hcut] using h

theorem map_field_prefix {fs gs : List Field} : fs.map Step.field <+: gs.map .field ↔ fs <+: gs :=
  List.prefix_map_iff_of_injective fun _ _ h => Step.field.inj h

/-- On chains of fields alone this is `Covers`. -/
theorem coversSteps_map {p : EnginePath} {chain : List Field} :
    p.CoversSteps (chain.map .field) ↔ p.Covers chain := by
  unfold CoversSteps Covers; split
  · exact map_field_prefix
  · exact List.map_inj_right fun _ _ h => Step.field.inj h

theorem limit_of_le {k : Nat} {p : EnginePath} (h : p.fields.length ≤ k) : p.limit k = p := by
  have hk : ¬ k < p.fields.length := by omega
  simp [limit, hk]

theorem limit_of_lt {k : Nat} {p : EnginePath} (h : k < p.fields.length) :
    p.limit k = ⟨p.base, p.fields.take k, true⟩ := by
  simp [limit, h]

@[simp] theorem limit_base (k : Nat) (p : EnginePath) : (p.limit k).base = p.base := by
  unfold limit; split <;> rfl

@[simp] theorem limit_fields (k : Nat) (p : EnginePath) : (p.limit k).fields = p.fields.take k := by
  unfold limit; split
  · rfl
  · exact (List.take_of_length_le (by omega)).symm

@[simp] theorem limit_cutOff (k : Nat) (p : EnginePath) :
    (p.limit k).cutOff = (p.cutOff || decide (k < p.fields.length)) := by
  unfold limit; split
  · rename_i hk; simp [hk]
  · rename_i hk; simp [hk]

/-- The limit takes nothing away from what a path stands for. -/
theorem coversSteps_limit (k : Nat) {p : EnginePath} {chain : List Step} (h : p.CoversSteps chain) :
    (p.limit k).CoversSteps chain := by
  by_cases hk : k < p.fields.length
  · rw [limit_of_lt hk, coversSteps_cut]
    exact ((List.take_prefix k p.fields).map _).trans (prefix_of_coversSteps h)
  · rw [limit_of_le (by omega)]; exact h

end EnginePath

/-! ## Segments up to the first wildcard -/

/-- The fields in front are all named, and behind them stands nothing, or a wildcard if
    the path is cut there. -/
theorem namedFields_eq_ok {i : Nat} {segs : List Segment} {fs : List Field} {cut : Bool} :
    namedFields i segs = .ok (fs, cut) ↔
      ∃ tail, segs = fs.map .field ++ tail ∧ tail.head? = if cut then some .wildcard else none := by
  induction segs generalizing i fs with
  | nil => cases fs <;> cases cut <;> simp [namedFields]
  | cons s rest ih =>
    cases s with
    | field f =>
      simp only [namedFields]
      cases fs with
      | nil => split <;> cases cut <;> simp
      | cons g fs =>
        have hrest := @ih (i + 1) fs
        split
        · rename_i gs cut' hr
          rw [hr] at hrest
          simp only [Except.ok.injEq, Prod.mk.injEq, List.cons.injEq, List.map_cons, List.cons_append,
            Segment.field.injEq] at hrest ⊢
          simp only [and_assoc, hrest, exists_and_left]
        · rename_i e hr
          rw [hr] at hrest
          simp only [reduceCtorEq, false_iff, not_exists] at hrest
          simp only [reduceCtorEq, List.map_cons, List.cons_append, List.cons.injEq, Segment.field.injEq,
            false_iff, not_exists]
          exact fun tail h => hrest tail ⟨h.1.2, h.2⟩
    | element => cases fs <;> cases cut <;> simp [namedFields]
    | wildcard => cases fs <;> cases cut <;> simp [namedFields]

theorem namedFields_exact {i : Nat} {segs : List Segment} {fs : List Field} :
    namedFields i segs = .ok (fs, false) ↔ segs = fs.map .field := by
  simp [namedFields_eq_ok]

theorem namedFields_cut {i : Nat} {segs : List Segment} {fs : List Field} :
    namedFields i segs = .ok (fs, true) ↔ ∃ rest, segs = fs.map .field ++ .wildcard :: rest := by
  rw [namedFields_eq_ok]
  constructor
  · rintro ⟨tail, hs, ht⟩
    obtain ⟨rest, rfl⟩ := List.head?_eq_some_iff.mp ht
    exact ⟨rest, hs⟩
  · rintro ⟨rest, hs⟩
    exact ⟨_, hs, rfl⟩

/-! ## Expansion -/

theorem expands_fields {fs : List Field} {chain : List Step} :
    Expands (fs.map .field) chain ↔ chain = fs.map .field := by
  constructor
  · intro h
    induction fs generalizing chain with
    | nil => cases h; rfl
    | cons f fs ih =>
      cases h with
      | field _ h => rw [ih h]; rfl
  · rintro rfl
    induction fs with
    | nil => exact .nil
    | cons f fs ih => exact .field f ih

/-- Leading fields stay in front of every expansion. -/
theorem prefix_of_expands {fs : List Field} {rest : List Segment} {chain : List Step}
    (h : Expands (fs.map .field ++ rest) chain) : fs.map .field <+: chain := by
  induction fs generalizing chain with
  | nil => exact List.nil_prefix
  | cons f fs ih =>
    cases h with
    | field _ h => exact List.cons_prefix_cons.mpr ⟨rfl, ih h⟩

/-! ## Translation -/

namespace OraclePath

theorem toEngine_exact (k : Nat) {p : OraclePath} {v : Variable} (fs : List Field) (hv : p.root = .var v)
    (hs : p.segments = fs.map .field) : p.toEngine k = .ok (EnginePath.limit k ⟨some v, fs, false⟩) := by
  simp only [toEngine, hv, namedFields_exact.mpr hs]

theorem toEngine_cut (k : Nat) {p : OraclePath} {v : Variable} (fs : List Field) (rest : List Segment)
    (hv : p.root = .var v) (hs : p.segments = fs.map .field ++ .wildcard :: rest) :
    p.toEngine k = .ok (EnginePath.limit k ⟨some v, fs, true⟩) := by
  simp only [toEngine, hv, namedFields_cut.mpr ⟨rest, hs⟩]

/-- The two ways a path translates. -/
theorem toEngine_cases {k : Nat} {p : OraclePath} {e : EnginePath} (h : p.toEngine k = .ok e) :
    ∃ v fs, p.root = .var v ∧
      ((p.segments = fs.map .field ∧ e = EnginePath.limit k ⟨some v, fs, false⟩) ∨
        (∃ rest, p.segments = fs.map .field ++ .wildcard :: rest ∧
          e = EnginePath.limit k ⟨some v, fs, true⟩)) := by
  cases hroot : p.root with
  | var v =>
    simp only [toEngine, hroot] at h
    split at h
    · rename_i fs cut hn
      refine ⟨v, fs, rfl, ?_⟩
      cases cut with
      | false => exact Or.inl ⟨namedFields_exact.mp hn, (Except.ok.inj h).symm⟩
      | true =>
        obtain ⟨rest, hs⟩ := namedFields_cut.mp hn
        exact Or.inr ⟨rest, hs, (Except.ok.inj h).symm⟩
    · cases h
  | static f => simp [toEngine, hroot] at h
  | allocation s => simp [toEngine, hroot] at h

/-- A translated path keeps its local. -/
theorem base_of_toEngine {k : Nat} {p : OraclePath} {e : EnginePath} (h : p.toEngine k = .ok e) :
    e.base = p.base? := by
  obtain ⟨v, fs, hv, ⟨_, rfl⟩ | ⟨_, _, rfl⟩⟩ := toEngine_cases h <;> simp [base?, hv]

theorem base?_eq_some {p : OraclePath} {v : Variable} : p.base? = some v ↔ p.root = .var v := by
  unfold base?; split <;> simp_all

/-- Only paths rooted at a local translate. -/
theorem base?_of_toEngine {k : Nat} {p : OraclePath} {e : EnginePath} (h : p.toEngine k = .ok e) :
    ∃ v, p.base? = some v := by
  obtain ⟨v, -, hv, -⟩ := toEngine_cases h
  exact ⟨v, by simp [base?, hv]⟩

@[simp] theorem append_root (p : OraclePath) (fs : List Field) : (p.append fs).root = p.root := rfl

@[simp] theorem append_segments (p : OraclePath) (fs : List Field) :
    (p.append fs).segments = p.segments ++ fs.map .field := rfl

@[simp] theorem append_base? (p : OraclePath) (fs : List Field) : (p.append fs).base? = p.base? := rfl

theorem append_append (p : OraclePath) (fs gs : List Field) :
    (p.append fs).append gs = p.append (fs ++ gs) := by
  simp [append]

/-- Extended by `fs`, a path that translates still does, and its translation covers what
    the path expands to followed by `chain`, which starts with `fs`, exactly if the path
    has a wildcard, or the limit shortens the result, or `chain` is `fs` and no more. -/
theorem toEngine_append_covers {k : Nat} {p : OraclePath} {e : EnginePath} (fs : List Field)
    {way chain : List Step} (he : p.toEngine k = .ok e) (hway : Expands p.segments way)
    (hchain : fs.map .field <+: chain) :
    ∃ e', (p.append fs).toEngine k = .ok e' ∧
      (e'.CoversSteps (way ++ chain) ↔
        p.isSummary = true ∨ k < p.segments.length + fs.length ∨ chain = fs.map .field) := by
  obtain ⟨v, ds, hv, ⟨hs, -⟩ | ⟨rest, hs, -⟩⟩ := toEngine_cases he
  · -- named fields only: `way` is these fields, and the result is exact unless shortened
    have hsum : p.isSummary = false := by simp [isSummary, hs]
    have hlen : p.segments.length = ds.length := by simp [hs]
    rw [hs, expands_fields] at hway
    subst hway
    refine ⟨_, toEngine_exact k (ds ++ fs) hv (by simp [hs]), ?_⟩
    by_cases hk : k < ds.length + fs.length
    · have hcov : ((ds ++ fs).take k).map Step.field <+: ds.map Step.field ++ chain := by
        have h1 := (List.take_prefix k (ds ++ fs)).map Step.field
        rw [List.map_append] at h1
        exact h1.trans ((List.prefix_append_right_inj _).mpr hchain)
      rw [EnginePath.limit_of_lt (by simpa using hk), EnginePath.coversSteps_cut, hlen]
      exact ⟨fun _ => Or.inr (Or.inl hk), fun _ => hcov⟩
    · rw [EnginePath.limit_of_le (by simpa using hk), EnginePath.coversSteps_exact, hlen]
      simp [hsum, hk]
  · -- a wildcard: the result covers whatever starts with the fields in front of it
    have hsum : p.isSummary = true := by simp [isSummary, hs]
    refine ⟨_, toEngine_cut k ds (rest ++ fs.map .field) hv (by simp [hs]), ?_⟩
    rw [hs] at hway
    have hcov : EnginePath.CoversSteps ⟨some v, ds, true⟩ (way ++ chain) :=
      (EnginePath.coversSteps_cut _ _ _).mpr ((prefix_of_expands hway).trans (List.prefix_append _ _))
    exact ⟨fun _ => Or.inl hsum, fun _ => EnginePath.coversSteps_limit k hcov⟩

end OraclePath

end TaintAlias
