/-
  TaintAlias.Proofs.Path.Extend — fields appended before and after translation.

  The alias stage appends a fact's fields to a path of the pointer analysis and
  translates the result. `EnginePath.extend` appends the fields to the translation
  instead: behind a cut nothing is seen of them, elsewhere they are appended and the
  limit is applied again.

  Both ways give the same (`toEngine_append`), wherever the cut falls: within the path,
  at its end or within the fields, and whether a wildcard or the limit makes it. Named
  fields at the end never decide whether a path translates, nor at which segment it fails
  to (`namedFields_append`).
-/

import TaintAlias.Proofs.Path

namespace TaintAlias

/-- `fs` behind the fields of `e`, within `k` fields. -/
def EnginePath.extend (k : Nat) (e : EnginePath) (fs : List Field) : EnginePath :=
  if e.cutOff then e else limit k ⟨e.base, e.fields ++ fs, false⟩

namespace EnginePath

theorem extend_of_cutOff {k : Nat} {e : EnginePath} (h : e.cutOff = true) (fs : List Field) :
    e.extend k fs = e := by
  rw [extend, if_pos h]

/-- The limit may be applied before the fields come in. -/
theorem extend_limit (k : Nat) (b : Option Variable) (ds fs : List Field) :
    (limit k ⟨b, ds, false⟩).extend k fs = limit k ⟨b, ds ++ fs, false⟩ := by
  by_cases hk : k < ds.length
  · -- the limit cuts within `ds`, with or without `fs`
    have hlen : k < (ds ++ fs).length := by
      rw [List.length_append]
      omega
    have htake : (ds ++ fs).take k = ds.take k := List.take_append_of_le_length (by omega)
    rw [limit_of_lt hk, limit_of_lt hlen, extend_of_cutOff rfl]
    simp only [htake]
  · rw [limit_of_le (Nat.not_lt.mp hk)]
    rfl

theorem extend_limit_cut (k : Nat) (b : Option Variable) (ds fs : List Field) :
    (limit k ⟨b, ds, true⟩).extend k fs = limit k ⟨b, ds, true⟩ := by
  apply extend_of_cutOff
  rw [limit_cutOff, Bool.true_or]

end EnginePath

/-- Fields at the end show only where no wildcard stands in front of them. -/
theorem namedFields_append (i : Nat) (segs : List Segment) (fs : List Field) :
    namedFields i (segs ++ fs.map .field) =
      (namedFields i segs).map fun (ds, cut) => (if cut then ds else ds ++ fs, cut) := by
  induction segs generalizing i with
  | nil => exact namedFields_exact.mpr rfl
  | cons s segs ih =>
    cases s with
    | field f =>
      simp only [List.cons_append, namedFields, ih]
      cases namedFields (i + 1) segs with
      | error err => rfl
      | ok r =>
        obtain ⟨ds, cut⟩ := r
        cases cut
        · rfl
        · rfl
    | element => rfl
    | wildcard => rfl

namespace OraclePath

theorem toEngine_append (k : Nat) (p : OraclePath) (fs : List Field) :
    (p.append fs).toEngine k = (p.toEngine k).map (·.extend k fs) := by
  unfold toEngine
  rw [append_root, append_segments, namedFields_append]
  cases p.root with
  | var v =>
    cases namedFields 0 p.segments with
    | error err => rfl
    | ok r =>
      obtain ⟨ds, cut⟩ := r
      cases cut with
      | false => exact congrArg Except.ok (EnginePath.extend_limit k (some v) ds fs).symm
      | true => exact congrArg Except.ok (EnginePath.extend_limit_cut k (some v) ds fs).symm
  | static f => rfl
  | allocation s => rfl

/-- An extended path translates exactly if the path does, and fails as the path does; its
    translation is that of the path, extended. Extending twice is extending once, by all
    the fields in order. -/
theorem append_commutes (k : Nat) (p : OraclePath) (fs gs : List Field) :
    ((∃ e', (p.append fs).toEngine k = .ok e') ↔ ∃ e, p.toEngine k = .ok e) ∧
    (∀ cause, (p.append fs).toEngine k = .error cause ↔ p.toEngine k = .error cause) ∧
    (∀ e, p.toEngine k = .ok e → (p.append fs).toEngine k = .ok (e.extend k fs)) ∧
    (p.append fs).append gs = p.append (fs ++ gs) ∧
    ((p.append fs).append gs).root = p.root ∧
    ((p.append fs).append gs).segments = p.segments ++ (fs ++ gs).map .field := by
  rw [toEngine_append, append_append]
  cases p.toEngine k with
  | ok e =>
    refine ⟨⟨fun _ => ⟨e, rfl⟩, fun _ => ⟨_, rfl⟩⟩, fun cause => ⟨nofun, nofun⟩, ?_, rfl, rfl, rfl⟩
    intro e' h
    cases h
    rfl
  | error err =>
    exact ⟨⟨nofun, nofun⟩, fun cause => Iff.rfl, nofun, rfl, rfl, rfl⟩

/-- The limit cuts within the fields appended to `v1.f2`. -/
theorem append_commutes_limited :
    let p : OraclePath := ofFields ⟨1⟩ [⟨2⟩]
    p.toEngine 2 = .ok ⟨some ⟨1⟩, [⟨2⟩], false⟩ ∧
      (p.append [⟨3⟩, ⟨4⟩]).toEngine 2 = .ok ⟨some ⟨1⟩, [⟨2⟩, ⟨3⟩], true⟩ := by
  intro p
  obtain ⟨-, -, hok, -⟩ := append_commutes 2 p [⟨3⟩, ⟨4⟩] []
  exact ⟨rfl, hok _ rfl⟩

end OraclePath

end TaintAlias
