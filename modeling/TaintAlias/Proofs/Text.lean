/-
  TaintAlias.Proofs.Text — texts that can be told apart.

  The longer texts are put together from fixed pieces and numbers. A number is a run of
  digits, and the piece behind it starts with something else, so where it ends can be
  seen (`idText_append_inj`). Read from the left, such a text gives back all its numbers:
  queries with one text are one query (`Query.text_injective`), and counting by the text
  is counting by the query.
-/

import Mathlib.Data.List.Basic
import TaintAlias.Query

namespace TaintAlias

/-! ## Numbers in a text -/

/-- A list that does not start with a `p` has no `p` in front. -/
theorem takeWhile_eq_nil_of_head? {α : Type} {p : α → Bool} {cs : List α} (h : ∀ c ∈ cs.head?, p c = false) :
    cs.takeWhile p = [] := by
  cases cs with
  | nil => rfl
  | cons c cs => exact List.takeWhile_cons_of_neg (by simp [h c rfl])

theorem toList_idText (i : UInt32) : (idText i).toList = Nat.toDigits 10 i.toNat := by
  rw [idText, Nat.toString_eq_repr, Nat.toList_repr]

theorem isDigit_of_mem_idText {i : UInt32} {c : Char} (h : c ∈ (idText i).toList) : c.isDigit = true := by
  rw [toList_idText] at h
  exact Nat.isDigit_of_mem_toDigits (by decide) (by decide) h

theorem toList_idText_inj {i j : UInt32} (h : (idText i).toList = (idText j).toList) : i = j := by
  rw [toList_idText, toList_idText] at h
  apply UInt32.toNat_inj.mp
  calc
    i.toNat = Nat.ofDigitChars 10 (Nat.toDigits 10 i.toNat) 0 := Nat.ofDigitChars_ten_toDigits.symm
    _ = Nat.ofDigitChars 10 (Nat.toDigits 10 j.toNat) 0 := by rw [h]
    _ = j.toNat := Nat.ofDigitChars_ten_toDigits

/-- Two texts with fronts of one kind of characters, and behind them another kind, have the
    same parts. -/
theorem append_inj_of_head? {p : Char → Bool} {as bs cs ds : List Char} (ha : ∀ a ∈ as, p a = true)
    (hb : ∀ b ∈ bs, p b = true) (hc : ∀ c ∈ cs.head?, p c = false) (hd : ∀ d ∈ ds.head?, p d = false)
    (h : as ++ cs = bs ++ ds) : as = bs ∧ cs = ds := by
  have hfront : ∀ {xs ys : List Char}, (∀ x ∈ xs, p x = true) → (∀ y ∈ ys.head?, p y = false) →
      (xs ++ ys).takeWhile p = xs := by
    intro xs ys hx hy
    rw [List.takeWhile_append_of_pos hx, takeWhile_eq_nil_of_head? hy, List.append_nil]
  have hab : as = bs := by rw [← hfront ha hc, h, hfront hb hd]
  rw [hab] at h
  exact ⟨hab, List.append_cancel_left h⟩

/-- A number in a text ends where no digit follows. -/
theorem idText_append_inj {i j : UInt32} {cs ds : List Char} (hc : ∀ c ∈ cs.head?, c.isDigit = false)
    (hd : ∀ c ∈ ds.head?, c.isDigit = false)
    (h : (idText i).toList ++ cs = (idText j).toList ++ ds) : i = j ∧ cs = ds := by
  obtain ⟨hij, hrest⟩ := append_inj_of_head? (fun c => isDigit_of_mem_idText) (fun c => isDigit_of_mem_idText) hc hd h
  exact ⟨toList_idText_inj hij, hrest⟩

/-! ## Queries -/

/-- The text of a query, cut in front of its numbers and behind them. -/
theorem Query.toList_text (q : Query) : q.text.toList =
    ("BackwardQuery(" ++ "v").toList ++ ((idText q.var.id).toList ++ ((" @ " ++ "m").toList ++
      ((idText q.method.id).toList ++ ((":" ++ "s").toList ++ ((idText q.stmt.id).toList ++
        ((" -> " ++ "s").toList ++ ((idText q.successor.id).toList ++ ")".toList))))))) := by
  unfold text Variable.text Method.text Stmt.text
  simp only [String.toList_append, List.append_assoc]

theorem Query.text_injective : Function.Injective Query.text := by
  intro q r h
  have h := congrArg String.toList h
  rw [toList_text, toList_text] at h
  have h1 := List.append_cancel_left h
  obtain ⟨hvar, h2⟩ := idText_append_inj (by simp) (by simp) h1
  obtain ⟨hmethod, h3⟩ := idText_append_inj (by simp) (by simp) (List.append_cancel_left h2)
  obtain ⟨hstmt, h4⟩ := idText_append_inj (by simp) (by simp) (List.append_cancel_left h3)
  obtain ⟨hsuccessor, -⟩ := idText_append_inj (by simp) (by simp) (List.append_cancel_left h4)
  obtain ⟨⟨m⟩, ⟨s⟩, ⟨s'⟩, ⟨v⟩⟩ := q
  obtain ⟨⟨m'⟩, ⟨t⟩, ⟨t'⟩, ⟨w⟩⟩ := r
  cases hvar
  cases hmethod
  cases hstmt
  cases hsuccessor
  rfl

end TaintAlias
