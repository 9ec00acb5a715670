/-
  TaintAlias.Proofs.Config.Valid — what a configuration that validates says.

  `Valid` states the rules between the fields apart from their order and their error
  texts; `validate` succeeds exactly if they hold (`validate_eq_ok`). A manager is created
  for valid configurations only (`valid_of_create`), and the presets are valid.

  A text is blank exactly if nothing is left of it when white space is trimmed from both
  ends (`trim_eq_nil`), so no part of a blank text is anything but blank.
-/

import Mathlib.Data.List.DropRight
import TaintAlias.Config.Preset
import TaintAlias.Manager

namespace TaintAlias

/-! ## Blank texts -/

namespace Text

/-- A text without the white space at its ends. -/
def trim (s : String) : List Char := (s.toList.dropWhile isSpace).rdropWhile isSpace

theorem trim_eq_nil {s : String} : trim s = [] ↔ isBlank s = true := by
  rw [trim, List.rdropWhile_eq_nil_iff, isBlank, List.all_eq_true]
  constructor
  · intro h c hc
    -- what is left behind the white space in front starts with something else
    cases hrest : s.toList.dropWhile isSpace with
    | nil => exact List.dropWhile_eq_nil_iff.mp hrest c hc
    | cons d rest =>
      have hd : isSpace d = true := h d (hrest ▸ List.mem_cons_self)
      have hne := List.head_dropWhile_not (l := s.toList) isSpace (by simp [hrest])
      simp only [hrest, List.head_cons] at hne
      rw [hd] at hne
      cases hne
  · intro h c hc
    exact h c ((List.dropWhile_sublist isSpace).subset hc)

theorem isBlank_of_infix {s t : String} (ht : isBlank t = true) (h : s.toList <:+: t.toList) : isBlank s = true := by
  rw [isBlank, List.all_eq_true] at ht ⊢
  exact fun c hc => ht c (h.subset hc)

end Text

/-! ## Valid configurations -/

namespace Config

structure Valid (c : Config) : Prop where
  pathLength : 1 ≤ c.pathLength.toNat ∧ c.pathLength.toNat ≤ 64
  capacity : ∀ n, c.capacity = some n → n ≠ 0 ∧ c.caching = true
  ignored : ∀ f ∈ c.ignored, Text.isBlank f = false

theorem pathLength_out_of_range {c : Config} : c.pathLength = 0 ∨ c.pathLength > maxPathLength ↔
    ¬ (1 ≤ c.pathLength.toNat ∧ c.pathLength.toNat ≤ 64) := by
  have hzero : c.pathLength = 0 ↔ c.pathLength.toNat = 0 := UInt64.toNat_inj.symm
  have hmax : c.pathLength > maxPathLength ↔ 64 < c.pathLength.toNat := UInt64.lt_iff_toNat_lt
  rw [hzero, hmax]
  omega

theorem guard_eq_ok {ε : Type} {P : Prop} [Decidable P] {e : ε} {r : Except ε Unit} :
    (if P then .error e else r) = .ok () ↔ ¬ P ∧ r = .ok () := by
  by_cases h : P
  · simp [h]
  · simp [h]

theorem validate_eq_ok {c : Config} : c.validate = .ok () ↔ c.Valid := by
  rw [validate, guard_eq_ok, guard_eq_ok, guard_eq_ok, guard_eq_ok, pathLength_out_of_range, not_not]
  constructor
  · rintro ⟨hlength, hzero, hcaching, hblank, -⟩
    refine ⟨hlength, fun n hn => ⟨?_, ?_⟩, fun f hf => ?_⟩
    · rintro rfl
      exact hzero hn
    · by_contra hoff
      exact hcaching ⟨by simp [hn], Bool.eq_false_iff.mpr hoff⟩
    · by_contra hf'
      exact hblank (List.any_eq_true.mpr ⟨f, hf, by simpa using hf'⟩)
  · intro h
    refine ⟨h.pathLength, fun hzero => (h.capacity 0 hzero).1 rfl, ?_, ?_, rfl⟩
    · rintro ⟨hsome, hoff⟩
      obtain ⟨n, hn⟩ := Option.ne_none_iff_exists'.mp hsome
      rw [(h.capacity n hn).2] at hoff
      cases hoff
    · intro hblank
      obtain ⟨f, hf, hblank⟩ := List.any_eq_true.mp hblank
      rw [h.ignored f hf] at hblank
      cases hblank

end Config

theorem Preset.valid_config (p : Preset) : p.config.Valid := Config.validate_eq_ok.mp p.validate_config

theorem Manager.valid_of_create {program : Program} {config : Config} {m : Manager} {notices : List Notice}
    (h : create program config = .ok (m, notices)) : config.Valid := by
  unfold create at h
  split at h
  · cases h
  · rename_i hok
    exact Config.validate_eq_ok.mp hok

end TaintAlias
