/-
  TaintAlias.Proofs.Yaml.Cursor — cursors that move over known characters.

  What a writer leaves unescaped are printable characters. Of these only the space is a
  blank, and only the line feed and the two separators are breaks, each of which is kept
  as it is. A cursor in front of known characters moves over them one by one
  (`rest_advance`, `advance_advance`) and over a break to the next line
  (`nextLine_of_break`).
-/

import TaintAlias.Yaml.Cursor

namespace TaintAlias.Yaml

/-! ## Printable characters -/

theorem isAllowed_of_isPrintable {c : Char} (h : isPrintable c = true) : isAllowed c = true := by
  simp only [isPrintable, isAllowed, Bool.or_eq_true, Bool.and_eq_true, decide_eq_true_eq, beq_iff_eq] at h ⊢
  omega

theorem eq_space_of_isBlank {c : Char} (h : isPrintable c = true) (hb : isBlank c = true) : c = ' ' := by
  simp only [isBlank, Bool.or_eq_true, beq_iff_eq] at hb
  rcases hb with rfl | rfl
  · rfl
  · revert h; decide

theorem isBlank_of_ne_space {c : Char} (h : isPrintable c = true) (hc : (c == ' ') = false) : isBlank c = false := by
  cases hb : isBlank c with
  | false => rfl
  | true =>
    obtain rfl := eq_space_of_isBlank h hb
    cases hc

theorem isBreak_cases {c : Char} (h : isPrintable c = true) (hb : isBreak c = true) :
    c = '\n' ∨ c = '\u2028' ∨ c = '\u2029' := by
  simp only [isBreak, Bool.or_eq_true, beq_iff_eq] at hb
  rcases hb with (((rfl | rfl) | rfl) | rfl) | rfl
  · exact Or.inl rfl
  · revert h; decide
  · revert h; decide
  · exact Or.inr (Or.inl rfl)
  · exact Or.inr (Or.inr rfl)

theorem keptBreak_of_isPrintable {c : Char} (h : isPrintable c = true) (hb : isBreak c = true) :
    keptBreak c = c := by
  rcases isBreak_cases h hb with rfl | rfl | rfl <;> decide

theorem isBreak_of_isBlank {c : Char} (h : isBlank c = true) : isBreak c = false := by
  simp only [isBlank, Bool.or_eq_true, beq_iff_eq] at h
  rcases h with rfl | rfl <;> decide

theorem isBlank_of_isBreak {c : Char} (h : isBreak c = true) : isBlank c = false := by
  cases hb : isBlank c with
  | false => rfl
  | true => rw [isBreak_of_isBlank hb] at h; cases h

/-- Neither a blank nor a break comes first. -/
def BeginsWord (cs : List Char) : Prop := ∀ a ∈ cs.head?, isBlank a = false ∧ isBreak a = false

theorem beginsWord_cons {a : Char} (hblank : isBlank a = false) (hbreak : isBreak a = false) (cs : List Char) :
    BeginsWord (a :: cs) := by
  intro b hb
  cases hb
  exact ⟨hblank, hbreak⟩

/-- The longest run in front, and what begins behind it. -/
theorem exists_run (p : Char → Bool) (cs : List Char) :
    ∃ run rest, cs = run ++ rest ∧ (∀ a ∈ run, p a = true) ∧ ∀ a ∈ rest.head?, p a = false := by
  refine ⟨cs.takeWhile p, cs.dropWhile p, List.takeWhile_append_dropWhile.symm,
    List.all_eq_true.mp List.all_takeWhile, fun a ha => ?_⟩
  have hnot := List.head?_dropWhile_not p cs
  rw [Option.mem_def.mp ha] at hnot
  simpa using hnot

theorem exists_run_cons {p : Char → Bool} {a : Char} (h : p a = true) (cs : List Char) :
    ∃ run rest, a :: cs = run ++ rest ∧ run ≠ [] ∧ (∀ a ∈ run, p a = true) ∧ ∀ a ∈ rest.head?, p a = false := by
  obtain ⟨run, rest, hcut, hrun, hrest⟩ := exists_run p (a :: cs)
  refine ⟨run, rest, hcut, ?_, hrun, hrest⟩
  rintro rfl
  obtain rfl : a :: cs = rest := hcut
  rw [hrest a rfl] at h
  cases h

namespace Cursor

theorem octetCount_append (cs ds : List Char) : octetCount (cs ++ ds) = octetCount cs + octetCount ds := by
  have hacc : ∀ n, List.foldl (fun n c => n + Char.utf8Size c) n ds = n + octetCount ds := by
    induction ds with
    | nil => intro n; rfl
    | cons d ds ih =>
      intro n
      have hd : octetCount (d :: ds) = 0 + d.utf8Size + octetCount ds := ih _
      rw [List.foldl_cons, ih, hd]
      omega
  rw [octetCount, List.foldl_append, hacc]
  rfl

@[simp] theorem advance_zero (c : Cursor) : c.advance 0 = c := by
  simp [advance, octetCount]

theorem advance_advance (c : Cursor) (m n : Nat) : (c.advance m).advance n = c.advance (m + n) := by
  simp only [advance, List.drop_drop, List.take_add, octetCount_append, Nat.add_assoc]

@[simp] theorem advance_line (c : Cursor) (n : Nat) : (c.advance n).line = c.line := rfl

@[simp] theorem advance_column (c : Cursor) (n : Nat) : (c.advance n).column = c.column + n := rfl

/-- Past the characters in front. -/
theorem rest_advance {c : Cursor} {cs ds : List Char} (h : c.rest = cs ++ ds) :
    (c.advance cs.length).rest = ds := by
  simp [advance, h]

theorem rest_advance_one {c : Cursor} {a : Char} {cs : List Char} (h : c.rest = a :: cs) :
    (c.advance 1).rest = cs := by
  simp [advance, h]

theorem index_advance {c : Cursor} {cs ds : List Char} (h : c.rest = cs ++ ds) :
    (c.advance cs.length).index = c.index + octetCount cs := by
  simp [advance, h]

theorem nextLine_of_break {c : Cursor} {b : Char} {cs : List Char} (h : c.rest = b :: cs)
    (hp : isPrintable b = true) (hb : isBreak b = true) :
    c.nextLine = ⟨cs, c.index + b.utf8Size, c.line + 1, 0⟩ := by
  have hr : b ≠ '\r' := by
    rintro rfl
    revert hp
    decide
  unfold nextLine
  rw [h]
  split
  · rename_i heq
    exact absurd (List.cons.inj heq).1 hr
  · rename_i heq
    obtain ⟨rfl, rfl⟩ := List.cons.inj heq
    rw [if_pos hb]
  · rename_i heq
    cases heq

theorem keptBreak_of_break {c : Cursor} {b : Char} {cs : List Char} (h : c.rest = b :: cs)
    (hp : isPrintable b = true) (hb : isBreak b = true) : c.keptBreak = [b] := by
  simp [keptBreak, h, hb, keptBreak_of_isPrintable hp hb]

theorem atDocumentMark_of_column {c : Cursor} (h : 0 < c.column) : c.atDocumentMark = false := by
  have hcolumn : (c.column == 0) = false := by
    rw [beq_eq_false_iff_ne]
    omega
  simp [atDocumentMark, atLineOf, hcolumn]

end Cursor

end TaintAlias.Yaml
