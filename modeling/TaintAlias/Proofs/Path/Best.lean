/-
  TaintAlias.Proofs.Path.Best — a translation is the best one within the field limit.

  A path of the engine approximates a path of the pointer analysis (`Approximates`) if
  it has the other's local, at most `k` fields, and stands for every chain the other
  expands to. The best approximation (`Best`) stands for no more than any other does;
  there is at most one (`Best.unique`).

  What a path translates to is its best approximation, for every limit, zero included
  (`toEngine_best`). No approximation can do better, in either way a path translates:
  - named fields expand to one chain. If they exceed the limit, an approximation stops
    within them, and has to be cut off there (`cutOff_of_covers_fields`);
  - behind a wildcard any field may come next, so an approximation stops in front of
    it, and has to be cut off as well (`cutOff_of_covers_wildcard`).

  So a translation is exact unless the path has a wildcard or exceeds the limit, and an
  exact one stands for the one chain the path expands to.
-/

import TaintAlias.Proofs.Path

namespace TaintAlias

/-! ## Comparing engine paths -/

namespace EnginePath

theorem coversSteps_fields (e : EnginePath) : e.CoversSteps (e.fields.map .field) :=
  coversSteps_map.mpr e.covers_fields

theorem prefix_of_coversSteps_map {e : EnginePath} {fs : List Field} (h : e.CoversSteps (fs.map .field)) :
    e.fields <+: fs :=
  map_field_prefix.mp (prefix_of_coversSteps h)

/-- A cut-off path stands for whatever a path that extends its fields does. -/
theorem coversSteps_of_cutOff {e e' : EnginePath} {chain : List Step} (hcut : e'.cutOff = true)
    (hfields : e'.fields <+: e.fields) (h : e.CoversSteps chain) : e'.CoversSteps chain := by
  unfold CoversSteps
  rw [if_pos hcut]
  exact (hfields.map _).trans (prefix_of_coversSteps h)

/-- Only a cut-off path stands for more than its own fields. -/
theorem coversSteps_fields_append {e : EnginePath} (s : Step) :
    e.CoversSteps (e.fields.map .field ++ [s]) ↔ e.cutOff = true := by
  unfold CoversSteps
  by_cases hcut : e.cutOff = true
  · simp [hcut]
  · simp [hcut]

/-- Paths that stand for the same are the same. -/
theorem eq_of_coversSteps_iff {e e' : EnginePath} (hbase : e.base = e'.base)
    (h : ∀ chain, e.CoversSteps chain ↔ e'.CoversSteps chain) : e = e' := by
  have hle : e'.fields <+: e.fields := prefix_of_coversSteps_map ((h _).mp e.coversSteps_fields)
  have hge : e.fields <+: e'.fields := prefix_of_coversSteps_map ((h _).mpr e'.coversSteps_fields)
  have hfields : e.fields = e'.fields := hge.eq_of_length_le hle.length_le
  have hcut : e.cutOff = true ↔ e'.cutOff = true := by
    rw [← coversSteps_fields_append .element, ← coversSteps_fields_append .element, h, hfields]
  obtain ⟨b, fs, c⟩ := e
  obtain ⟨b', fs', c'⟩ := e'
  simp only at hbase hfields hcut
  rw [hbase, hfields, Bool.eq_iff_iff.mpr hcut]

end EnginePath

/-! ## Chains that fork -/

/-- What leads into both branches of a fork ends in front of it. -/
theorem prefix_of_fork {α : Type} {xs as bs bs' : List α} {a a' : α} (h : xs <+: as ++ a :: bs)
    (h' : xs <+: as ++ a' :: bs') (hne : a ≠ a') : xs <+: as := by
  induction as generalizing xs with
  | nil =>
    cases xs with
    | nil => exact List.nil_prefix
    | cons x xs =>
      have hx : x = a := (List.cons_prefix_cons.mp h).1
      have hx' : x = a' := (List.cons_prefix_cons.mp h').1
      exact absurd (hx.symm.trans hx') hne
  | cons b as ih =>
    cases xs with
    | nil => exact List.nil_prefix
    | cons x xs =>
      obtain ⟨hx, hxs⟩ := List.cons_prefix_cons.mp h
      obtain ⟨-, hxs'⟩ := List.cons_prefix_cons.mp h'
      exact List.cons_prefix_cons.mpr ⟨hx, ih hxs hxs'⟩

theorem exists_expands (segs : List Segment) : ∃ chain, Expands segs chain := by
  induction segs with
  | nil => exact ⟨[], .nil⟩
  | cons s segs ih =>
    obtain ⟨chain, h⟩ := ih
    cases s with
    | field f => exact ⟨_, .field f h⟩
    | element => exact ⟨_, .element h⟩
    | wildcard => exact ⟨_, .wildcard [] h⟩

theorem expands_fields_append (fs : List Field) {segs : List Segment} {chain : List Step}
    (h : Expands segs chain) : Expands (fs.map .field ++ segs) (fs.map .field ++ chain) := by
  induction fs with
  | nil => exact h
  | cons f fs ih => exact .field f ih

/-- Where a wildcard stands, any field may come next. -/
theorem exists_expands_wildcard (fs : List Field) (rest : List Segment) :
    ∃ tail, ∀ f, Expands (fs.map .field ++ .wildcard :: rest) (fs.map .field ++ .field f :: tail) := by
  obtain ⟨tail, h⟩ := exists_expands rest
  exact ⟨tail, fun f => expands_fields_append fs (.wildcard [f] h)⟩

/-! ## What an approximation cannot avoid -/

namespace EnginePath

theorem cutOff_of_covers_fields {e : EnginePath} {fs : List Field} (h : e.CoversSteps (fs.map .field))
    (hlen : e.fields.length < fs.length) : e.cutOff = true := by
  by_cases hcut : e.cutOff = true
  · exact hcut
  · have heq := congrArg List.length (eq_of_coversSteps (Bool.eq_false_iff.mpr hcut) h)
    simp only [List.length_map] at heq
    omega

theorem cutOff_of_covers_wildcard {e : EnginePath} {fs : List Field} {rest : List Segment}
    (h : ∀ chain, Expands (fs.map .field ++ .wildcard :: rest) chain → e.CoversSteps chain) :
    e.cutOff = true ∧ e.fields <+: fs := by
  obtain ⟨tail, hany⟩ := exists_expands_wildcard fs rest
  -- two chains that differ in the field behind `fs`
  have h₀ := h _ (hany ⟨0⟩)
  have h₁ := h _ (hany ⟨1⟩)
  have hne : Step.field ⟨0⟩ ≠ .field ⟨1⟩ := by decide
  constructor
  · by_cases hcut : e.cutOff = true
    · exact hcut
    · have heq := (eq_of_coversSteps (Bool.eq_false_iff.mpr hcut) h₀).trans
        (eq_of_coversSteps (Bool.eq_false_iff.mpr hcut) h₁).symm
      exact absurd (List.cons.inj (List.append_cancel_left heq)).1 hne
  · exact map_field_prefix.mp (prefix_of_fork (prefix_of_coversSteps h₀) (prefix_of_coversSteps h₁) hne)

end EnginePath

/-! ## The best approximation -/

namespace OraclePath

/-- `e` stands for all that `p` expands to, at the same local and within `k` fields. -/
structure Approximates (k : Nat) (p : OraclePath) (e : EnginePath) : Prop where
  base : ∃ v, p.root = .var v ∧ e.base = some v
  length : e.fields.length ≤ k
  sound : ∀ chain, Expands p.segments chain → e.CoversSteps chain

/-- And for no more than any other approximation does. -/
structure Best (k : Nat) (p : OraclePath) (e : EnginePath) : Prop extends Approximates k p e where
  precise : ∀ e', Approximates k p e' → ∀ chain, e.CoversSteps chain → e'.CoversSteps chain

variable {k : Nat} {p : OraclePath} {e e' : EnginePath}

theorem Best.unique (h : p.Best k e) (h' : p.Best k e') : e = e' := by
  obtain ⟨v, hv, hbase⟩ := h.base
  obtain ⟨v', hv', hbase'⟩ := h'.base
  have hvv : v = v' := Root.var.inj (hv.symm.trans hv')
  refine EnginePath.eq_of_coversSteps_iff (by rw [hbase, hbase', hvv]) fun chain => ⟨?_, ?_⟩
  · exact h.precise e' h'.toApproximates chain
  · exact h'.precise e h.toApproximates chain

theorem approximates_toEngine (h : p.toEngine k = .ok e) : p.Approximates k e := by
  obtain ⟨v, fs, hv, ⟨hs, rfl⟩ | ⟨rest, hs, rfl⟩⟩ := toEngine_cases h
  · refine ⟨⟨v, hv, EnginePath.limit_base _ _⟩, EnginePath.length_limit_le _ _, ?_⟩
    intro chain hchain
    rw [hs, expands_fields] at hchain
    exact EnginePath.coversSteps_limit k ((EnginePath.coversSteps_exact _ _ _).mpr hchain)
  · refine ⟨⟨v, hv, EnginePath.limit_base _ _⟩, EnginePath.length_limit_le _ _, ?_⟩
    intro chain hchain
    rw [hs] at hchain
    exact EnginePath.coversSteps_limit k ((EnginePath.coversSteps_cut _ _ _).mpr (prefix_of_expands hchain))

/-- An approximation of named fields covers what these cover within the limit. -/
theorem precise_fields {v : Variable} {fs : List Field} (hs : p.segments = fs.map .field)
    (h' : p.Approximates k e') {chain : List Step}
    (hchain : (EnginePath.limit k ⟨some v, fs, false⟩).CoversSteps chain) : e'.CoversSteps chain := by
  have hcov : e'.CoversSteps (fs.map .field) := h'.sound _ (hs ▸ expands_fields.mpr rfl)
  by_cases hk : k < fs.length
  · have hcut := EnginePath.cutOff_of_covers_fields hcov (Nat.lt_of_le_of_lt h'.length hk)
    refine EnginePath.coversSteps_of_cutOff hcut ?_ hchain
    rw [EnginePath.limit_fields]
    exact List.prefix_take_iff.mpr ⟨EnginePath.prefix_of_coversSteps_map hcov, h'.length⟩
  · rw [EnginePath.limit_of_le (Nat.not_lt.mp hk), EnginePath.coversSteps_exact] at hchain
    rw [hchain]
    exact hcov

/-- An approximation of a path with a wildcard covers what the fields in front of it
    cover, cut off and within the limit. -/
theorem precise_wildcard {v : Variable} {fs : List Field} {rest : List Segment}
    (hs : p.segments = fs.map .field ++ .wildcard :: rest) (h' : p.Approximates k e') {chain : List Step}
    (hchain : (EnginePath.limit k ⟨some v, fs, true⟩).CoversSteps chain) : e'.CoversSteps chain := by
  obtain ⟨hcut, hfields⟩ := EnginePath.cutOff_of_covers_wildcard (hs ▸ h'.sound)
  refine EnginePath.coversSteps_of_cutOff hcut ?_ hchain
  rw [EnginePath.limit_fields]
  exact List.prefix_take_iff.mpr ⟨hfields, h'.length⟩

theorem best_toEngine (h : p.toEngine k = .ok e) : p.Best k e := by
  refine ⟨approximates_toEngine h, ?_⟩
  intro e' h' chain hchain
  obtain ⟨v, fs, -, ⟨hs, rfl⟩ | ⟨rest, hs, rfl⟩⟩ := toEngine_cases h
  · exact precise_fields hs h' hchain
  · exact precise_wildcard hs h' hchain

/-- A wildcard cuts the translation off, and so does a segment beyond the limit. -/
theorem cutOff_toEngine (h : p.toEngine k = .ok e) :
    e.cutOff = true ↔ p.isSummary = true ∨ k < p.segments.length := by
  obtain ⟨v, fs, -, ⟨hs, rfl⟩ | ⟨rest, hs, rfl⟩⟩ := toEngine_cases h
  · simp [isSummary, hs]
  · simp [isSummary, hs]

/-- A translation that is not cut off has the one chain of the path. -/
theorem expands_of_exact (h : p.toEngine k = .ok e) (hcut : e.cutOff = false) (chain : List Step) :
    Expands p.segments chain ↔ chain = e.fields.map .field := by
  obtain ⟨v, fs, -, ⟨hs, rfl⟩ | ⟨rest, hs, rfl⟩⟩ := toEngine_cases h
  · have hk : fs.length ≤ k := by simpa using hcut
    rw [hs, expands_fields, EnginePath.limit_of_le hk]
  · simp at hcut

/-- The translation of a path, if there is one, is the one best approximation of the
    path within `k` fields. It is cut off exactly if the path has a wildcard or more
    than `k` segments; if it is not, both stand for one and the same chain. -/
theorem toEngine_best (h : p.toEngine k = .ok e) :
    p.Best k e ∧ (∀ e', p.Best k e' → e' = e) ∧
      (e.cutOff = true ↔ p.isSummary = true ∨ k < p.segments.length) ∧
      (e.cutOff = false → ∃ only, (∀ chain, Expands p.segments chain ↔ chain = only) ∧
        ∀ chain, e.CoversSteps chain ↔ chain = only) := by
  refine ⟨best_toEngine h, fun e' h' => h'.unique (best_toEngine h), cutOff_toEngine h, ?_⟩
  intro hcut
  refine ⟨e.fields.map .field, expands_of_exact h hcut, fun chain => ?_⟩
  simp [EnginePath.CoversSteps, hcut]

/-- A wildcard behind the limit, an array element behind the wildcard. -/
def farWildcard : OraclePath := ⟨.var ⟨1⟩, [.field ⟨2⟩, .field ⟨5⟩, .wildcard, .element, .wildcard, .field ⟨9⟩]⟩

theorem toEngine_best_wildcard :
    farWildcard.toEngine 1 = .ok ⟨some ⟨1⟩, [⟨2⟩], true⟩ ∧ farWildcard.Best 1 ⟨some ⟨1⟩, [⟨2⟩], true⟩ ∧
      farWildcard.toEngine 2 = .ok ⟨some ⟨1⟩, [⟨2⟩, ⟨5⟩], true⟩ ∧
      farWildcard.Best 2 ⟨some ⟨1⟩, [⟨2⟩, ⟨5⟩], true⟩ :=
  ⟨rfl, (toEngine_best rfl).1, rfl, (toEngine_best rfl).1⟩

end OraclePath

end TaintAlias
