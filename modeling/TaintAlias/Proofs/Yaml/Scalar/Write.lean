/-
  TaintAlias.Proofs.Yaml.Scalar.Write — what scalars are written with.

  Each style is chosen only for texts it can hold (`styleOf_cases`), and whatever the style
  and the text, only printable characters are written (`isPrintable_of_mem_writeScalar`).
  Numbers in decimal digits are plain scalars (`allowsPlain_of_digits`) that stand for
  themselves (`natural?_toDigits`).
-/

import TaintAlias.Proofs.Yaml.Scalar.Literal
import TaintAlias.Proofs.Yaml.Scalar.Quoted

namespace TaintAlias.Yaml

/-- The styles a text is written in, and what allows them. -/
theorem styleOf_cases (text : String) :
    (styleOf text = .literal ∧ allowsBlock text.toList = true) ∨
      (styleOf text = .plain ∧ allowsPlain text.toList = true ∧ text.toList ≠ []) ∨
      (styleOf text = .single ∧ allowsSingle text.toList = true ∧ '\n' ∉ text.toList) ∨
      styleOf text = .double := by
  simp only [styleOf]
  split
  · split
    · exact Or.inl ⟨rfl, by assumption⟩
    · exact Or.inr (Or.inr (Or.inr rfl))
  · rename_i hfeed
    split
    · rename_i hplain
      simp only [Bool.and_eq_true] at hplain
      refine Or.inr (Or.inl ⟨rfl, hplain.1.1, fun hnil => ?_⟩)
      obtain rfl : text = "" := String.toList_eq_nil_iff.mp hnil
      have hkind := hplain.1.2
      revert hkind
      decide
    · split
      · exact Or.inr (Or.inr (Or.inl ⟨rfl, by assumption, by simpa using hfeed⟩))
      · exact Or.inr (Or.inr (Or.inr rfl))

/-! ## Digits -/

theorem digit?_of_mem {base acc n : Nat} {cs : List Char} (h : numberFrom? base acc cs = some n) {a : Char}
    (ha : a ∈ cs) : (digit? a).isSome = true := by
  induction cs generalizing acc with
  | nil => cases ha
  | cons c cs ih =>
    simp only [numberFrom?] at h
    split at h
    · rename_i d hd
      split at h
      · rcases List.mem_cons.mp ha with rfl | ha
        · simp [hd]
        · exact ih h ha
      · cases h
    · cases h

theorem digit?_of_mem_toDigits {n : Nat} {a : Char} (h : a ∈ Nat.toDigits 10 n) : (digit? a).isSome = true := by
  have hread := numberFrom?_toDigits (by decide) writesDigits_ten n
  rw [List.map_id] at hread
  exact digit?_of_mem hread h

theorem digit?_of_mem_upperHex {digits n : Nat} {a : Char} (h : a ∈ upperHex digits n) :
    (digit? a).isSome = true := by
  rcases List.mem_append.mp h with h | h
  · obtain rfl := List.eq_of_mem_replicate h
    decide
  · exact digit?_of_mem (numberFrom?_toDigits (by decide) writesDigits_upper n) h

theorem isPrintable_of_digit? {a : Char} (h : (digit? a).isSome = true) : isPrintable a = true := by
  have hrange : 48 ≤ a.toNat ∧ a.toNat ≤ 102 := by
    simp only [digit?, Bool.and_eq_true, decide_eq_true_eq] at h
    split at h
    · omega
    · split at h
      · omega
      · split at h
        · omega
        · cases h
  simp only [isPrintable, Bool.or_eq_true, Bool.and_eq_true, decide_eq_true_eq, beq_iff_eq]
  omega

/-- A digit is none of the characters that mean something. -/
theorem ne_of_digit? {a : Char} (h : (digit? a).isSome = true) (b : Char) (hb : digit? b = none) : a ≠ b := by
  rintro rfl
  rw [hb] at h
  cases h

/-! ## Characters -/

theorem isPrintable_of_mem_hex {e b : Char} {digits n : Nat} (he : isPrintable e = true)
    (h : b ∈ '\\' :: e :: upperHex digits n) : isPrintable b = true := by
  rcases List.mem_cons.mp h with rfl | h
  · decide
  · rcases List.mem_cons.mp h with rfl | h
    · exact he
    · exact isPrintable_of_digit? (digit?_of_mem_upperHex h)

theorem isPrintable_of_mem_escaped {a b : Char} (h : b ∈ escaped a) : isPrintable b = true := by
  unfold escaped at h
  split at h
  iterate 14 exact List.all_eq_true.mp (by decide) b h
  split at h
  · rename_i hp
    rwa [List.mem_singleton.mp h]
  · simp only at h
    split at h
    · exact isPrintable_of_mem_hex (by decide) h
    · split at h
      · exact isPrintable_of_mem_hex (by decide) h
      · exact isPrintable_of_mem_hex (by decide) h

theorem mem_singleLines {fresh : Bool} {cs : List Char} {a : Char} (h : a ∈ singleLines fresh cs) :
    a ∈ cs ∨ a = ' ' := by
  have hmargin : ∀ fresh : Bool, a ∈ (if fresh then margin else []) → a = ' ' := by
    intro fresh ha
    cases fresh with
    | false => cases ha
    | true => simpa [margin] using ha
  induction cs generalizing fresh with
  | nil => exact Or.inr (hmargin fresh h)
  | cons d cs ih =>
    simp only [singleLines] at h
    split at h
    · rcases List.mem_cons.mp h with rfl | h
      · exact Or.inl List.mem_cons_self
      · exact (ih h).imp_left (List.mem_cons_of_mem _)
    · rcases List.mem_append.mp h with h | h
      · rcases List.mem_append.mp h with h | h
        · exact Or.inr (hmargin fresh h)
        · have ha : a = d := by
            split at h <;> simpa using h
          exact Or.inl (ha ▸ List.mem_cons_self)
      · exact (ih h).imp_left (List.mem_cons_of_mem _)

theorem mem_literalLines {fresh : Bool} {cs : List Char} {a : Char} (h : a ∈ literalLines fresh cs) :
    a ∈ cs ∨ a = ' ' := by
  induction cs generalizing fresh with
  | nil => cases h
  | cons d cs ih =>
    have hnext : ∀ fresh, a ∈ d :: literalLines fresh cs → a ∈ d :: cs ∨ a = ' ' := by
      intro fresh h
      rcases List.mem_cons.mp h with rfl | h
      · exact Or.inl List.mem_cons_self
      · exact (ih h).imp_left (List.mem_cons_of_mem _)
    simp only [literalLines] at h
    split at h
    · exact hnext true h
    · rcases List.mem_append.mp h with h | h
      · split at h
        · exact Or.inr (by simpa [margin] using h)
        · cases h
      · exact hnext false h

theorem isPrintable_of_mem_literalHeader {cs : List Char} {a : Char} (h : a ∈ literalHeader cs) :
    isPrintable a = true := by
  rw [literalHeader_eq] at h
  cases hstates : statesMargin cs <;> cases hchomping : chompingOf cs <;> rw [hstates, hchomping] at h <;>
    exact List.all_eq_true.mp (by decide) a h

/-- Nothing but printable characters is written. -/
theorem isPrintable_of_mem_writeScalar {text : String} {a : Char} (h : a ∈ writeScalar text) :
    isPrintable a = true := by
  have hspace : isPrintable ' ' = true := by decide
  have hall : ∀ {cs : List Char}, needsEscapes cs = false → a ∈ cs ∨ a = ' ' → isPrintable a = true := by
    intro cs hescapes ha
    rcases ha with ha | rfl
    · simpa using List.any_eq_false.mp hescapes a ha
    · exact hspace
  rcases styleOf_cases text with ⟨hstyle, hcs⟩ | ⟨hstyle, hcs, -⟩ | ⟨hstyle, hcs, -⟩ | hstyle
  · simp only [allowsBlock, Bool.not_eq_true', Bool.or_eq_false_iff] at hcs
    simp only [writeScalar, hstyle, writeAs, List.mem_append, List.mem_cons] at h
    rcases h with h | rfl | h | h
    · exact isPrintable_of_mem_literalHeader h
    · decide
    · exact hall hcs.2 (mem_literalLines h)
    · split at h
      · cases h
      · rw [List.mem_singleton.mp h]
        decide
  · simp only [writeScalar, hstyle, writeAs, List.mem_append, List.mem_singleton] at h
    rcases h with h | rfl
    · exact (isPlainText_of_allowsPlain hcs).1.printable a h
    · decide
  · simp only [allowsSingle, Bool.not_eq_true', Bool.or_eq_false_iff] at hcs
    simp only [writeScalar, hstyle, writeAs, List.mem_append, List.mem_cons, List.not_mem_nil, or_false] at h
    rcases h with rfl | h | rfl | rfl
    · decide
    · exact hall hcs.2 (mem_singleLines h)
    · decide
    · decide
  · simp only [writeScalar, hstyle, writeAs, List.mem_append, List.mem_cons, List.mem_flatMap, List.not_mem_nil,
      or_false] at h
    rcases h with rfl | ⟨b, -, h⟩ | rfl | rfl
    · decide
    · exact isPrintable_of_mem_escaped h
    · decide
    · decide

/-! ## Numbers -/

theorem hasInnerMark_of_digits {cs : List Char} (h : ∀ a ∈ cs, (digit? a).isSome = true) (spaced : Bool) :
    hasInnerMark spaced cs = false := by
  induction cs generalizing spaced with
  | nil => rfl
  | cons a cs ih =>
    have hne := ne_of_digit? (h a List.mem_cons_self)
    simp (disch := decide) [hasInnerMark, hne, ih fun b hb => h b (List.mem_cons_of_mem _ hb)]

theorem hasOuterMark_of_digits {cs : List Char} (h : ∀ a ∈ cs, (digit? a).isSome = true) :
    hasOuterMark cs = false := by
  cases cs with
  | nil => rfl
  | cons a cs =>
    have hne := ne_of_digit? (h a List.mem_cons_self)
    simp (disch := decide) [hasOuterMark, isIndicator, isFlowMark, hne]

theorem allowsPlain_of_digits {cs : List Char} (h : ∀ a ∈ cs, (digit? a).isSome = true) : allowsPlain cs = true := by
  have hescapes : needsEscapes cs = false := List.any_eq_false.mpr fun a ha => by simp [isPrintable_of_digit? (h a ha)]
  have hbreak : cs.any isBreak = false := List.any_eq_false.mpr fun a ha => by
    have hne := ne_of_digit? (h a ha)
    simp (disch := decide) [isBreak, hne]
  have hspace : ∀ a ∈ cs, isSpaceChar a = false := fun a ha => beq_eq_false_iff_ne.mpr (ne_of_digit? (h a ha) ' ' rfl)
  have hstart : startsWith isSpaceChar cs = false := by
    cases cs with
    | nil => rfl
    | cons a cs => exact hspace a List.mem_cons_self
  have hinner := hasInnerMark_of_digits (fun a ha => h a (List.mem_of_mem_tail ha)) false
  simp only [allowsPlain, hbreak, hstart, endsWith_of_forall hspace, hescapes, hasOuterMark_of_digits h, hinner,
    Bool.or_self, Bool.not_false]

theorem isNull_of_digits {text : String} (h : ∀ a ∈ text.toList, (digit? a).isSome = true) : isNull text = false := by
  simp only [isNull, Bool.or_eq_false_iff, beq_eq_false_iff_ne]
  rw [← List.all_eq_true] at h
  refine ⟨⟨⟨?_, ?_⟩, ?_⟩, ?_⟩ <;>
    · rintro rfl
      revert h
      decide +kernel

/-- Without a sign, a mark for the base or a leading zero, the digits are decimal. -/
theorem natural?_of_ne {a : Char} {cs : List Char} (hplus : a ≠ '+') (hminus : a ≠ '-') (hzero : a ≠ '0') :
    natural? (a :: cs) = number? 10 (a :: cs) := by
  simp [natural?, hasLeadingZero, unsigned, magnitude?, hplus, hminus, hzero]

theorem natural?_toDigits (n : Nat) : natural? (Nat.toDigits 10 n) = some n := by
  by_cases hn : n = 0
  · subst hn
    rfl
  · have hread := number?_written (by decide) writesDigits_ten 0 n
    rw [List.replicate_zero, List.nil_append, List.map_id] at hread
    have hhead := head_toDigits hn
    obtain ⟨a, cs, hcs⟩ := List.exists_cons_of_ne_nil (Nat.toDigits_ne_nil (n := n) (b := 10))
    have hne := ne_of_digit? (digit?_of_mem_toDigits (n := n) (a := a) (by rw [hcs]; exact List.mem_cons_self))
    rw [hcs] at hread hhead ⊢
    rw [natural?_of_ne (hne '+' rfl) (hne '-' rfl) (by simpa using hhead), hread]

end TaintAlias.Yaml
