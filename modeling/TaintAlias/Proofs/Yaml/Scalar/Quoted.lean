/-
  TaintAlias.Proofs.Yaml.Scalar.Quoted — quoted scalars are read back.

  Double quotes hold every text on one line: each character is written as itself or as
  an escape that stands for it (`escaped_cases`), so the reader gives any text back
  (`quoted_double`).

  Single quotes hold a text of several lines if no line feed breaks them and no space
  stands next to a break. Then each run of breaks is a gap, of which all separators are
  kept and the indentation behind them is dropped, and a doubled quote is one quote
  (`quoted_single`).
-/

import Mathlib.Algebra.Group.Nat.Defs
import TaintAlias.Proofs.Number.Digits
import TaintAlias.Proofs.Yaml.Scalar.Plain

namespace TaintAlias.Yaml

variable {double : Bool} {stop : List Char}

/-! ## Gaps in quotes -/

theorem quotedFrom_blanks {c : Cursor} {blanks d : List Char} (h : c.rest = blanks ++ d) (hne : blanks ≠ [])
    (hblanks : ∀ a ∈ blanks, isBlank a = true) (hd : BeginsWord d) (hcolumn : 0 < c.column) (fuel : Nat)
    (acc : List Char) :
    quotedFrom double (fuel + 1) c acc =
      quotedFrom double fuel (c.advance blanks.length) (blanks.reverse ++ acc) := by
  obtain ⟨a, more, rfl⟩ := List.exists_cons_of_ne_nil hne
  have hgap := gap_blanks 0 h hblanks hd
  simp only [quotedFrom, Cursor.atDocumentMark_of_column hcolumn]
  rw [h]
  simp [hblanks a List.mem_cons_self, hgap, Gap.text]

/-- Breaks that are not line feeds, and the indentation behind them. -/
theorem quotedFrom_breaks {c : Cursor} {breaks : List Char} {n : Nat} {d : List Char}
    (h : c.rest = breaks ++ (List.replicate n ' ' ++ d)) (hne : breaks ≠ [])
    (hprint : ∀ a ∈ breaks, isPrintable a = true) (hbreaks : ∀ a ∈ breaks, isBreak a = true)
    (hfeed : '\n' ∉ breaks) (hd : BeginsWord d) (hcolumn : 0 < c.column) (fuel : Nat) (acc : List Char) :
    ∃ c', quotedFrom double (fuel + 1) c acc = quotedFrom double fuel c' (breaks.reverse ++ acc) ∧
      c'.rest = d ∧ c'.column = n ∧ c.line ≤ c'.line := by
  obtain ⟨b, more, rfl⟩ := List.exists_cons_of_ne_nil hne
  obtain ⟨c', hgap, hrest, hcol, hline⟩ := gap_breaks 0 h hprint hbreaks hd
  refine ⟨c', ?_, hrest, hcol, Nat.le_of_lt hline⟩
  have hb : b ≠ '\n' := fun hb => hfeed (hb ▸ List.mem_cons_self)
  simp only [quotedFrom, Cursor.atDocumentMark_of_column hcolumn]
  rw [h]
  simp [hbreaks b List.mem_cons_self, hgap, Gap.text, hb]

/-! ## Double quotes -/

theorem hexValue?_upperHex {digits n : Nat} (hdigits : 0 < digits) (hn : n < 16 ^ digits) (rest : List Char) :
    (upperHex digits n).length = digits ∧ hexValue? (upperHex digits n ++ rest) digits = some n := by
  have hle : ((Nat.toDigits 16 n).map Char.toUpper).length ≤ digits := by
    rw [List.length_map, Nat.length_toDigits_le_iff (by decide) hdigits]
    exact hn
  have hlen : (upperHex digits n).length = digits := by
    simp only [upperHex, List.length_append, List.length_replicate]
    omega
  refine ⟨hlen, ?_⟩
  have htake : (upperHex digits n ++ rest).take digits = upperHex digits n := List.take_left' hlen
  simp only [hexValue?, htake, hlen, if_true]
  exact number?_written (by decide) writesDigits_upper _ n

theorem char?_toNat (a : Char) : char? a.toNat = some a := by
  have hvalid : a.toNat.isValidChar := a.valid
  simp [char?, hvalid]

theorem numbered?_upperHex {digits : Nat} {a : Char} (hdigits : 0 < digits) (ha : a.toNat < 16 ^ digits)
    (rest : List Char) :
    numbered? (upperHex digits a.toNat ++ rest) digits =
      some (a, (upperHex digits a.toNat).length + 2) := by
  obtain ⟨hlen, hread⟩ := hexValue?_upperHex hdigits ha rest
  simp [numbered?, hread, char?_toNat, hlen]

/-- A character is written as itself, or as an escape that is read back. -/
theorem escaped_cases (a : Char) :
    (escaped a = [a] ∧ isPrintable a = true ∧ isBreak a = false ∧ a ≠ '"' ∧ a ≠ '\\') ∨
      ∃ e es, escaped a = '\\' :: e :: es ∧ isBreak e = false ∧
        ∀ rest, unescape? (e :: (es ++ rest)) = some (a, es.length + 2) := by
  unfold escaped
  split
  iterate 14 exact Or.inr ⟨_, [], rfl, by decide, fun _ => rfl⟩
  rename_i hnot
  by_cases hp : isPrintable a = true
  · rw [if_pos hp]
    refine Or.inl ⟨rfl, hp, ?_, by simp_all, by simp_all⟩
    cases hb : isBreak a with
    | false => rfl
    | true => rcases isBreak_cases hp hb with rfl | rfl | rfl <;> simp_all
  · rw [if_neg hp]
    refine Or.inr ?_
    have hmax : a.toNat < 0x110000 := by
      rcases a.valid with h | h
      · exact Nat.lt_trans h (by decide)
      · exact h.2
    split
    · rename_i hn
      exact ⟨'x', _, rfl, by decide, numbered?_upperHex (by decide) hn⟩
    · split
      · rename_i hn
        exact ⟨'u', _, rfl, by decide, numbered?_upperHex (by decide) hn⟩
      · exact ⟨'U', _, rfl, by decide, numbered?_upperHex (by decide) (Nat.lt_trans hmax (by decide))⟩

theorem flatMap_escaped_spaces (blanks cs : List Char) (h : ∀ a ∈ blanks, (a == ' ') = true) :
    (blanks ++ cs).flatMap escaped = blanks ++ cs.flatMap escaped := by
  induction blanks with
  | nil => rfl
  | cons a blanks ih =>
    obtain rfl : a = ' ' := by simpa using h a List.mem_cons_self
    have hspace : escaped ' ' = [' '] := by decide
    simp only [List.cons_append, List.flatMap_cons, hspace]
    rw [ih fun b hb => h b (List.mem_cons_of_mem _ hb)]
    rfl

/-- Behind the spaces an escaped text begins a word, and so does the quote behind it. -/
theorem beginsWord_escaped {cs : List Char} (h : ∀ a ∈ cs.head?, (a == ' ') = false) :
    BeginsWord (cs.flatMap escaped ++ '"' :: stop) := by
  cases cs with
  | nil => exact beginsWord_cons (by decide) (by decide) _
  | cons a cs =>
    obtain ⟨ha, hp, hb, -⟩ | ⟨e, es, ha, -⟩ := escaped_cases a
    · rw [List.flatMap_cons, ha]
      exact beginsWord_cons (isBlank_of_ne_space hp (h a rfl)) hb _
    · rw [List.flatMap_cons, ha]
      exact beginsWord_cons (by decide) (by decide) _

theorem quotedFrom_escaped {c : Cursor} {a : Char} {cs : List Char} (h : c.rest = escaped a ++ cs)
    (ha : (a == ' ') = false) (hcolumn : 0 < c.column) (fuel : Nat) (acc : List Char) :
    quotedFrom true (fuel + 1) c acc = quotedFrom true fuel (c.advance (escaped a).length) (a :: acc) := by
  obtain ⟨hself, hp, hb, hquote, hslash⟩ | ⟨e, es, hesc, he, hread⟩ := escaped_cases a
  · have hblank : isBlank a = false := isBlank_of_ne_space hp ha
    rw [hself] at h ⊢
    simp only [quotedFrom, Cursor.atDocumentMark_of_column hcolumn]
    rw [h]
    simp [hblank, hb, hquote, hslash]
  · rw [hesc] at h ⊢
    have hword : (isBlank '\\' || isBreak '\\') = false := by decide
    simp only [quotedFrom, Cursor.atDocumentMark_of_column hcolumn]
    rw [h]
    simp [hword, he, hread]

theorem quotedFrom_double (cs : List Char) (fuel : Nat) {c : Cursor} (acc : List Char)
    (h : c.rest = cs.flatMap escaped ++ '"' :: stop) (hcolumn : 0 < c.column) (hfuel : c.rest.length ≤ fuel) :
    ∃ c', quotedFrom true fuel c acc = some (String.ofList (acc.reverse ++ cs), c') ∧ c'.rest = stop ∧
      c.line ≤ c'.line := by
  induction hn : cs.length using Nat.strongRecOn generalizing c cs acc fuel with
  | _ n ih =>
    subst hn
    obtain ⟨fuel, rfl⟩ : ∃ n, fuel = n + 1 := ⟨fuel - 1, by simp [h] at hfuel; omega⟩
    obtain ⟨blanks, rest, rfl, hblanks, hrest⟩ := exists_run (· == ' ') cs
    by_cases hnone : blanks = []
    · subst hnone
      cases rest with
      | nil =>
        refine ⟨c.advance 1, ?_, Cursor.rest_advance_one h, Nat.le_refl _⟩
        have hword : (isBlank '"' || isBreak '"') = false := by decide
        simp only [quotedFrom, Cursor.atDocumentMark_of_column hcolumn]
        rw [h]
        simp [hword]
      | cons a rest =>
        simp only [List.nil_append, List.flatMap_cons, List.append_assoc] at h ⊢
        obtain ⟨c', hread, hrest', hline⟩ := ih rest.length (by simp) rest fuel (c := c.advance (escaped a).length)
          (a :: acc) (Cursor.rest_advance h) (by simp only [Cursor.advance_column]; omega)
          (by
            have hpos : 0 < (escaped a).length := by
              obtain ⟨ha, -⟩ | ⟨e, es, ha, -⟩ := escaped_cases a <;> simp [ha]
            rw [Cursor.rest_advance h]
            simp only [h, List.length_append] at hfuel
            simp only [List.length_append]
            omega)
          rfl
        refine ⟨c', ?_, hrest', hline⟩
        rw [quotedFrom_escaped h (hrest a rfl) hcolumn, hread]
        simp
    · have hpos := List.length_pos_iff.mpr hnone
      rw [flatMap_escaped_spaces blanks rest hblanks, List.append_assoc] at h
      have hblanks' : ∀ a ∈ blanks, isBlank a = true := fun a ha => by simp [isBlank, beq_iff_eq.mp (hblanks a ha)]
      obtain ⟨c', hread, hrest', hline⟩ := ih rest.length (by simp only [List.length_append]; omega) rest fuel
        (c := c.advance blanks.length) (blanks.reverse ++ acc) (Cursor.rest_advance h)
        (by simp only [Cursor.advance_column]; omega)
        (by
          rw [Cursor.rest_advance h]
          rw [h, List.length_append] at hfuel
          omega)
        rfl
      refine ⟨c', ?_, hrest', hline⟩
      rw [quotedFrom_blanks h hnone hblanks' (beginsWord_escaped hrest) hcolumn, hread]
      simp

/-- Every text between double quotes is read back. -/
theorem quoted_double {c : Cursor} {cs : List Char} (h : c.rest = '"' :: (cs.flatMap escaped ++ '"' :: stop)) :
    ∃ c', quoted true c = some (String.ofList cs, c') ∧ c'.rest = stop ∧ c.line ≤ c'.line := by
  have hrest := Cursor.rest_advance_one h
  exact quotedFrom_double cs (c.rest.length + 1) (c := c.advance 1) [] hrest (by simp)
    (by rw [hrest, h, List.length_cons]; omega)

/-! ## Single quotes -/

theorem hasPair_run {p q : Char → Bool} {run rest : List Char} (hrun : ∀ a ∈ run, p a = true)
    (hne : run ≠ []) (h : hasPair p q (run ++ rest) = false) :
    hasPair p q rest = false ∧ ∀ b ∈ rest.head?, q b = false := by
  induction run with
  | nil => exact absurd rfl hne
  | cons a run ih =>
    cases run with
    | nil =>
      cases rest with
      | nil => exact ⟨rfl, fun b hb => by cases hb⟩
      | cons b rest =>
        simp only [List.cons_append, List.nil_append, hasPair, hrun a List.mem_cons_self, Bool.true_and,
          Bool.or_eq_false_iff] at h
        refine ⟨h.2, fun b hb => ?_⟩
        cases hb
        exact h.1
    | cons b run =>
      simp only [List.cons_append, hasPair, Bool.or_eq_false_iff] at h
      exact ih (fun c hc => hrun c (List.mem_cons_of_mem _ hc)) (List.cons_ne_nil _ _) h.2

theorem hasPair_tail {p q : Char → Bool} {a : Char} {cs : List Char} (h : hasPair p q (a :: cs) = false) :
    hasPair p q cs = false := by
  cases cs with
  | nil => rfl
  | cons b cs =>
    simp only [hasPair, Bool.or_eq_false_iff] at h
    exact h.2

theorem hasPair_drop {p q : Char → Bool} (run : List Char) {rest : List Char}
    (h : hasPair p q (run ++ rest) = false) : hasPair p q rest = false := by
  induction run with
  | nil => exact h
  | cons a run ih => exact ih (hasPair_tail h)

/-- Without line feeds, and without spaces next to breaks. -/
structure IsSingleText (cs : List Char) : Prop where
  printable : ∀ a ∈ cs, isPrintable a = true
  feed : '\n' ∉ cs
  before : hasPair isSpaceChar isBreak cs = false
  after : hasPair isBreak isSpaceChar cs = false

theorem IsSingleText.drop {run rest : List Char} (h : IsSingleText (run ++ rest)) : IsSingleText rest where
  printable a ha := h.printable a (List.mem_append_right _ ha)
  feed hin := h.feed (List.mem_append_right _ hin)
  before := hasPair_drop run h.before
  after := hasPair_drop run h.after

theorem singleLines_breaks {breaks cs : List Char} (h : ∀ a ∈ breaks, isBreak a = true) (hne : breaks ≠ [])
    (hcs : ∀ a ∈ cs.head?, isBreak a = false) (fresh : Bool) :
    singleLines fresh (breaks ++ cs) = breaks ++ (List.replicate 2 ' ' ++ singleLines false cs) := by
  induction breaks generalizing fresh with
  | nil => exact absurd rfl hne
  | cons b breaks ih =>
    simp only [List.cons_append, singleLines, h b List.mem_cons_self, if_true]
    cases breaks with
    | nil =>
      cases cs with
      | nil => rfl
      | cons a cs => simp [singleLines, hcs a rfl, margin, List.replicate]
    | cons b' breaks => rw [ih (fun a ha => h a (List.mem_cons_of_mem _ ha)) (List.cons_ne_nil _ _) true]

theorem singleLines_spaces {blanks cs : List Char} (h : ∀ a ∈ blanks, a = ' ') :
    singleLines false (blanks ++ cs) = blanks ++ singleLines false cs := by
  induction blanks with
  | nil => rfl
  | cons a blanks ih =>
    obtain rfl := h a List.mem_cons_self
    have hbreak : isBreak ' ' = false := by decide
    simp [singleLines, hbreak, ih fun b hb => h b (List.mem_cons_of_mem _ hb)]

/-- The characters a character stands for between single quotes. -/
theorem singleLines_word {a : Char} (cs : List Char) (h : isBreak a = false) :
    singleLines false (a :: cs) = (if a = '\'' then ['\'', '\''] else [a]) ++ singleLines false cs := by
  by_cases ha : a = '\''
  · subst ha
    simp [singleLines, h]
  · simp [singleLines, h, ha]

theorem length_le_singleLines (fresh : Bool) (cs : List Char) : cs.length ≤ (singleLines fresh cs).length := by
  induction cs generalizing fresh with
  | nil => exact Nat.zero_le _
  | cons a cs ih =>
    have hnext := ih false
    have hfresh := ih true
    simp only [singleLines]
    split
    · simp only [List.length_cons]
      omega
    · have hone : 1 ≤ (if a == '\'' then [a, a] else [a]).length := by split <;> simp
      simp only [List.length_append, List.length_cons]
      omega

theorem beginsWord_single {cs : List Char} (h : BeginsWord cs) :
    BeginsWord (singleLines false cs ++ '\'' :: stop) := by
  cases cs with
  | nil => exact beginsWord_cons (by decide) (by decide) _
  | cons a cs =>
    obtain ⟨hblank, hbreak⟩ := h a rfl
    rw [singleLines_word cs hbreak]
    split
    · exact beginsWord_cons (by decide) (by decide) _
    · exact beginsWord_cons hblank hbreak _

theorem quotedFrom_word {c : Cursor} {a : Char} {cs : List Char}
    (h : c.rest = (if a = '\'' then ['\'', '\''] else [a]) ++ cs) (hblank : isBlank a = false)
    (hbreak : isBreak a = false) (hcolumn : 0 < c.column) (fuel : Nat) (acc : List Char) :
    ∃ n, 0 < n ∧ (c.advance n).rest = cs ∧
      quotedFrom false (fuel + 1) c acc = quotedFrom false fuel (c.advance n) (a :: acc) := by
  by_cases ha : a = '\''
  · subst ha
    rw [if_pos rfl] at h
    refine ⟨2, by omega, Cursor.rest_advance h, ?_⟩
    simp only [quotedFrom, Cursor.atDocumentMark_of_column hcolumn]
    rw [h]
    simp [hblank, hbreak]
  · rw [if_neg ha] at h
    refine ⟨1, by omega, Cursor.rest_advance h, ?_⟩
    simp only [quotedFrom, Cursor.atDocumentMark_of_column hcolumn]
    rw [h]
    simp [hblank, hbreak, ha]

/-- What such a text begins with: a character of a word, or a run of spaces or of breaks
    with a word behind it. -/
theorem IsSingleText.cases {cs : List Char} (h : IsSingleText cs) :
    cs = [] ∨ (∃ a rest, cs = a :: rest ∧ isBlank a = false ∧ isBreak a = false) ∨
      (∃ blanks rest, cs = blanks ++ rest ∧ blanks ≠ [] ∧ (∀ a ∈ blanks, a = ' ') ∧ BeginsWord rest) ∨
      ∃ breaks rest, cs = breaks ++ rest ∧ breaks ≠ [] ∧ (∀ a ∈ breaks, isBreak a = true) ∧ BeginsWord rest := by
  cases cs with
  | nil => exact Or.inl rfl
  | cons a more =>
    cases hblank : isBlank a with
    | true =>
      obtain ⟨blanks, rest, hcut, hne, hblanks, hrest⟩ := exists_run_cons hblank more
      rw [hcut] at h
      have hspaces : ∀ a ∈ blanks, a = ' ' := fun a ha =>
        eq_space_of_isBlank (h.printable a (List.mem_append_left _ ha)) (hblanks a ha)
      have hnobreak := (hasPair_run (fun a ha => by simp [isSpaceChar, hspaces a ha]) hne h.before).2
      exact Or.inr (Or.inr (Or.inl ⟨blanks, rest, hcut, hne, hspaces, fun a ha => ⟨hrest a ha, hnobreak a ha⟩⟩))
    | false =>
      cases hbreak : isBreak a with
      | false => exact Or.inr (Or.inl ⟨a, more, rfl, hblank, hbreak⟩)
      | true =>
        obtain ⟨breaks, rest, hcut, hne, hbreaks, hrest⟩ := exists_run_cons hbreak more
        rw [hcut] at h
        have hnospace := (hasPair_run hbreaks hne h.after).2
        refine Or.inr (Or.inr (Or.inr ⟨breaks, rest, hcut, hne, hbreaks, fun a ha => ⟨?_, hrest a ha⟩⟩))
        exact isBlank_of_ne_space (h.printable a (List.mem_append_right _ (List.mem_of_head? ha))) (hnospace a ha)

theorem quotedFrom_single (hstop : stop.head? ≠ some '\'') (cs : List Char) (fuel : Nat) {c : Cursor}
    (acc : List Char) (h : c.rest = singleLines false cs ++ '\'' :: stop) (hcs : IsSingleText cs)
    (hcolumn : 0 < c.column) (hfuel : cs.length < fuel) :
    ∃ c', quotedFrom false fuel c acc = some (String.ofList (acc.reverse ++ cs), c') ∧ c'.rest = stop ∧
      c.line ≤ c'.line := by
  induction hn : cs.length using Nat.strongRecOn generalizing c cs acc fuel with
  | _ n ih =>
    subst hn
    obtain ⟨fuel, rfl⟩ : ∃ n, fuel = n + 1 := ⟨fuel - 1, by omega⟩
    obtain rfl | ⟨a, rest, rfl, hblank, hbreak⟩ | ⟨blanks, rest, rfl, hne, hspaces, hbegins⟩ |
      ⟨breaks, rest, rfl, hne, hbreaks, hbegins⟩ := hcs.cases
    · refine ⟨c.advance 1, ?_, Cursor.rest_advance_one h, Nat.le_refl _⟩
      have hword : (isBlank '\'' || isBreak '\'') = false := by decide
      have hstop' : (stop.head? == some '\'') = false := beq_eq_false_iff_ne.mpr hstop
      simp only [quotedFrom, Cursor.atDocumentMark_of_column hcolumn]
      rw [h]
      simp [singleLines, hword, hstop']
    · simp only [List.length_cons] at hfuel ih
      rw [singleLines_word rest hbreak, List.append_assoc] at h
      obtain ⟨n, hn, hnext, hstep⟩ := quotedFrom_word h hblank hbreak hcolumn fuel acc
      obtain ⟨c', hread, hrest', hline⟩ := ih rest.length (by omega) rest fuel (c := c.advance n) (a :: acc)
        hnext (@IsSingleText.drop [a] rest hcs) (by simp only [Cursor.advance_column]; omega) (by omega) rfl
      exact ⟨c', by rw [hstep, hread]; simp, hrest', hline⟩
    · have hpos := List.length_pos_iff.mpr hne
      simp only [List.length_append] at hfuel ih
      rw [singleLines_spaces hspaces, List.append_assoc] at h
      obtain ⟨c', hread, hrest', hline⟩ := ih rest.length (by omega) rest fuel (c := c.advance blanks.length)
        (blanks.reverse ++ acc) (Cursor.rest_advance h) hcs.drop (by simp only [Cursor.advance_column]; omega)
        (by omega) rfl
      refine ⟨c', ?_, hrest', hline⟩
      rw [quotedFrom_blanks h hne (fun a ha => by simp [isBlank, hspaces a ha]) (beginsWord_single hbegins) hcolumn,
        hread]
      simp
    · have hpos := List.length_pos_iff.mpr hne
      simp only [List.length_append] at hfuel ih
      rw [singleLines_breaks hbreaks hne fun a ha => (hbegins a ha).2, List.append_assoc, List.append_assoc] at h
      obtain ⟨c₁, hstep, hrest₁, hcol₁, hline₁⟩ := quotedFrom_breaks h hne
        (fun a ha => hcs.printable a (List.mem_append_left _ ha)) hbreaks
        (fun hin => hcs.feed (List.mem_append_left _ hin)) (beginsWord_single hbegins) hcolumn fuel acc
      obtain ⟨c', hread, hrest', hline⟩ := ih rest.length (by omega) rest fuel (c := c₁) (breaks.reverse ++ acc)
        hrest₁ hcs.drop (by omega) (by omega) rfl
      refine ⟨c', ?_, hrest', Nat.le_trans hline₁ hline⟩
      rw [hstep, hread]
      simp

theorem isSingleText_of_allowsSingle {cs : List Char} (h : allowsSingle cs = true) (hfeed : '\n' ∉ cs) :
    IsSingleText cs := by
  simp only [allowsSingle, Bool.not_eq_true', Bool.or_eq_false_iff] at h
  exact ⟨fun a ha => by simpa using List.any_eq_false.mp h.2 a ha, hfeed, h.1.2, h.1.1⟩

/-- A text that may stand between single quotes is read back. -/
theorem quoted_single {c : Cursor} {cs : List Char} (h : c.rest = '\'' :: (singleLines false cs ++ '\'' :: stop))
    (hcs : allowsSingle cs = true) (hfeed : '\n' ∉ cs) (hstop : stop.head? ≠ some '\'') :
    ∃ c', quoted false c = some (String.ofList cs, c') ∧ c'.rest = stop ∧ c.line ≤ c'.line := by
  have hlen := length_le_singleLines false cs
  have hrest := Cursor.rest_advance_one h
  refine quotedFrom_single hstop cs (c.rest.length + 1) (c := c.advance 1) [] hrest
    (isSingleText_of_allowsSingle hcs hfeed) (by simp) ?_
  simp only [h, List.length_cons, List.length_append]
  omega

end TaintAlias.Yaml
