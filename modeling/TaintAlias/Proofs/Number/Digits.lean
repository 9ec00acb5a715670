/-
  TaintAlias.Proofs.Number.Digits — numbers read back from their digits.

  Digits are read in the base they were written in, in either case of the letters, with
  any zeros in front (`number?_written`). In base ten a number is written without zeros in
  front (`head_toDigits`).

  What is read at all is a row of digits, and it is read as the number these digits write in
  their base (`number?_eq_some`).
-/

import Mathlib.Data.List.Forall2
import Mathlib.Data.Nat.Digits.Defs
import Mathlib.Tactic.Ring
import TaintAlias.Number.Digits

namespace TaintAlias

variable {base : Nat}

/-! ## What digits write -/

/-- A character for a digit; the letters are of either case. -/
def IsDigit (base : Nat) (c : Char) (d : Nat) : Prop :=
  d < base ∧ (c = Nat.digitChar d ∨ c = (Nat.digitChar d).toUpper)

/-- Digits, the highest one first, and the number they write. -/
def IsDigits (base : Nat) (cs : List Char) (n : Nat) : Prop :=
  cs ≠ [] ∧ ∃ ds, List.Forall₂ (IsDigit base) cs ds ∧ n = Nat.ofDigits base ds.reverse

theorem digit?_of_ge {c : Char} (h : 103 ≤ c.toNat) : digit? c = none := by
  simp only [digit?]
  rw [if_neg (by simp; omega), if_neg (by simp; omega), if_neg (by simp; omega)]

theorem digit?_eq_some {c : Char} {d : Nat} : digit? c = some d ↔ IsDigit 16 c d := by
  have hread : ∀ n < 103, ∀ d ∈ digit? (Char.ofNat n), IsDigit 16 (Char.ofNat n) d := by
    unfold IsDigit
    decide
  have hwritten : ∀ d < 16, digit? (Nat.digitChar d) = some d ∧ digit? (Nat.digitChar d).toUpper = some d := by
    decide
  constructor
  · intro h
    have hlt : c.toNat < 103 := by
      by_contra hge
      rw [digit?_of_ge (not_lt.mp hge)] at h
      cases h
    rw [← Char.ofNat_toNat c] at h ⊢
    exact hread _ hlt _ h
  · rintro ⟨hd, rfl | rfl⟩
    · exact (hwritten d hd).1
    · exact (hwritten d hd).2

theorem isDigit_iff (hbase : base ≤ 16) {c : Char} {d : Nat} : IsDigit base c d ↔ digit? c = some d ∧ d < base := by
  rw [digit?_eq_some]
  constructor
  · rintro ⟨hd, hc⟩
    exact ⟨⟨hd.trans_le hbase, hc⟩, hd⟩
  · rintro ⟨⟨-, hc⟩, hd⟩
    exact ⟨hd, hc⟩

theorem numberFrom?_eq_some (hbase : base ≤ 16) {cs : List Char} {acc n : Nat} : numberFrom? base acc cs = some n ↔
    ∃ ds, List.Forall₂ (IsDigit base) cs ds ∧ n = acc * base ^ cs.length + Nat.ofDigits base ds.reverse := by
  induction cs generalizing acc with
  | nil => simp [numberFrom?, List.forall₂_nil_left_iff, eq_comm]
  | cons c cs ih =>
    -- the first digit counts as often as the digits behind it allow
    have hvalue {d : Nat} {ds : List Nat} (h : List.Forall₂ (IsDigit base) cs ds) :
        acc * base ^ (cs.length + 1) + Nat.ofDigits base (d :: ds).reverse =
          (acc * base + d) * base ^ cs.length + Nat.ofDigits base ds.reverse := by
      rw [List.reverse_cons, Nat.ofDigits_append, Nat.ofDigits_singleton, List.length_reverse, ← h.length_eq]
      ring
    simp only [List.length_cons]
    constructor
    · intro h
      simp only [numberFrom?] at h
      split at h
      · rename_i d hc
        split at h
        · rename_i hd
          obtain ⟨ds, hds, hn⟩ := ih.mp h
          exact ⟨d :: ds, .cons ((isDigit_iff hbase).mpr ⟨hc, hd⟩) hds, hn.trans (hvalue hds).symm⟩
        · cases h
      · cases h
    · rintro ⟨_, h, hn⟩
      obtain ⟨d, ds, hc, hds, rfl⟩ := List.forall₂_cons_left_iff.mp h
      obtain ⟨hdigit, hd⟩ := (isDigit_iff hbase).mp hc
      simp only [numberFrom?, hdigit, hd, if_true]
      exact ih.mpr ⟨ds, hds, hn.trans (hvalue hds)⟩

theorem number?_eq_some (hbase : base ≤ 16) {cs : List Char} {n : Nat} :
    number? base cs = some n ↔ IsDigits base cs n := by
  cases cs with
  | nil => simp [number?, IsDigits]
  | cons c cs =>
    have hnumber : number? base (c :: cs) = numberFrom? base 0 (c :: cs) := rfl
    rw [hnumber, numberFrom?_eq_some hbase]
    simp [IsDigits]

/-! ## Numbers read back -/

theorem numberFrom?_append (base acc : Nat) (cs ds : List Char) :
    numberFrom? base acc (cs ++ ds) = (numberFrom? base acc cs).bind (numberFrom? base · ds) := by
  induction cs generalizing acc with
  | nil => rfl
  | cons c cs ih =>
    simp only [List.cons_append, numberFrom?]
    split
    · split
      · exact ih _
      · rfl
    · rfl

/-- A way to write digits that is read back. -/
def WritesDigits (base : Nat) (write : Char → Char) : Prop :=
  ∀ d < base, digit? (write (Nat.digitChar d)) = some d

theorem writesDigits_ten : WritesDigits 10 id := fun _ hd => digit?_eq_some.mpr ⟨by omega, .inl rfl⟩

theorem writesDigits_upper : WritesDigits 16 Char.toUpper := fun _ hd => digit?_eq_some.mpr ⟨hd, .inr rfl⟩

variable {write : Char → Char}

theorem numberFrom?_digit (hw : WritesDigits base write) (acc : Nat) {d : Nat} (hd : d < base) :
    numberFrom? base acc [write (Nat.digitChar d)] = some (acc * base + d) := by
  simp [numberFrom?, hw d hd, hd]

theorem numberFrom?_toDigits (hbase : 1 < base) (hw : WritesDigits base write) (n : Nat) :
    numberFrom? base 0 ((Nat.toDigits base n).map write) = some n := by
  induction n using Nat.strongRecOn with
  | _ n ih =>
    rw [Nat.toDigits_eq_if hbase]
    split
    · rename_i hn
      rw [List.map_singleton, numberFrom?_digit hw 0 hn]
      simp
    · rename_i hn
      have hlt : n / base < n := Nat.div_lt_self (by omega) hbase
      have hdigit := numberFrom?_digit hw (n / base) (Nat.mod_lt n (by omega : base > 0))
      rw [List.map_append, numberFrom?_append, ih _ hlt, Option.bind_some, List.map_singleton, hdigit,
        Nat.div_add_mod']

/-- Zeros in front do not count. -/
theorem numberFrom?_zeros (hbase : 0 < base) (k : Nat) (ds : List Char) :
    numberFrom? base 0 (List.replicate k '0' ++ ds) = numberFrom? base 0 ds := by
  induction k with
  | zero => rfl
  | succ k ih =>
    have hzero : digit? '0' = some 0 := by decide
    simp only [List.replicate_succ, List.cons_append, numberFrom?, hzero, hbase, if_true, Nat.zero_mul,
      Nat.zero_add]
    exact ih

theorem number?_written (hbase : 1 < base) (hw : WritesDigits base write) (k n : Nat) :
    number? base (List.replicate k '0' ++ (Nat.toDigits base n).map write) = some n := by
  have hread : numberFrom? base 0 (List.replicate k '0' ++ (Nat.toDigits base n).map write) = some n := by
    rw [numberFrom?_zeros (by omega), numberFrom?_toDigits hbase hw]
  have hne : List.replicate k '0' ++ (Nat.toDigits base n).map write ≠ [] := by
    simp [Nat.toDigits_ne_nil]
  unfold number?
  split
  · rename_i h
    exact absurd h hne
  · exact hread

/-- Only zero is written with a zero in front. -/
theorem head_toDigits {n : Nat} (hn : n ≠ 0) : (Nat.toDigits 10 n).head? ≠ some '0' := by
  induction n using Nat.strongRecOn with
  | _ n ih =>
    rw [Nat.toDigits_eq_if (by decide)]
    split
    · rename_i hlt
      have hall : ∀ d < 10, d ≠ 0 → [Nat.digitChar d].head? ≠ some '0' := by decide
      exact hall n hlt hn
    · rename_i hge
      have hdiv : n / 10 ≠ 0 := by omega
      have hhead := ih (n / 10) (by omega) hdiv
      obtain ⟨c, cs, hcs⟩ := List.exists_cons_of_ne_nil (Nat.toDigits_ne_nil (n := n / 10) (b := 10))
      rw [hcs] at hhead ⊢
      exact hhead

end TaintAlias
