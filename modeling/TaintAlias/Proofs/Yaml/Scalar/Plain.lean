/-
  TaintAlias.Proofs.Yaml.Scalar.Plain — plain scalars are read back.

  A text that may be written plain (`allowsPlain`) ends where the writer ended it: no
  character in it ends a plain scalar (`endsPlain_of_inner`), and the blanks in it are
  gaps within a line, which are kept (`gapFrom_blanks`). So the reader gives the text back,
  in front of a colon (`plain_key`) and at the end of a line (`plain_line`).

  Gaps are read for quoted scalars too: a gap with breaks keeps the separators and drops
  the indentation of the line it ends on (`gap_breaks`).
-/

import TaintAlias.Proofs.Yaml.Cursor
import TaintAlias.Yaml.Scalar.Flow
import TaintAlias.Yaml.Scalar.Write

namespace TaintAlias.Yaml

/-! ## Gaps -/

/-- Where a word begins a gap ends. -/
theorem gapFrom_word (floor fuel : Nat) {c : Cursor} (h : BeginsWord c.rest) (g : Gap) :
    gapFrom floor fuel c g = some (g, c) := by
  cases fuel with
  | zero => rfl
  | succ fuel =>
    cases hc : c.head? with
    | none => simp [gapFrom, hc]
    | some a =>
      obtain ⟨hblank, hbreak⟩ := h a hc
      simp [gapFrom, hc, hblank, hbreak]

/-- Blanks in front of the first break are kept. -/
theorem gapFrom_blanks (floor : Nat) {c : Cursor} {blanks d : List Char} (h : c.rest = blanks ++ d)
    (hblanks : ∀ a ∈ blanks, isBlank a = true) (hd : BeginsWord d) {fuel : Nat} (hfuel : blanks.length ≤ fuel)
    {g : Gap} (hg : g.broken = false) :
    gapFrom floor fuel c g = some ({ g with blanks := g.blanks ++ blanks }, c.advance blanks.length) := by
  induction blanks generalizing c g fuel with
  | nil =>
    rw [gapFrom_word floor fuel (by rw [h]; exact hd)]
    simp
  | cons a blanks ih =>
    obtain ⟨fuel, rfl⟩ : ∃ n, fuel = n + 1 := ⟨fuel - 1, by simp only [List.length_cons] at hfuel; omega⟩
    have ha : isBlank a = true := hblanks a List.mem_cons_self
    have hhead : c.head? = some a := by simp [Cursor.head?, h]
    have hrest : (c.advance 1).rest = blanks ++ d := Cursor.rest_advance_one h
    simp only [gapFrom, hhead, ha, hg, if_true, Bool.false_and, Bool.false_eq_true, if_false]
    rw [ih hrest (fun b hb => hblanks b (List.mem_cons_of_mem _ hb)) (by simpa using hfuel) rfl,
      Cursor.advance_advance, List.append_assoc, List.singleton_append, List.length_cons, Nat.add_comm 1]

/-- Spaces behind a break are dropped. -/
theorem gapFrom_spaces (floor : Nat) {c : Cursor} {n : Nat} {d : List Char}
    (h : c.rest = List.replicate n ' ' ++ d) (hd : BeginsWord d) {fuel : Nat} (hfuel : n ≤ fuel) {g : Gap}
    (hg : g.broken = true) : gapFrom floor fuel c g = some (g, c.advance n) := by
  induction n generalizing c fuel with
  | zero =>
    rw [gapFrom_word floor fuel (by rw [h]; exact hd)]
    simp
  | succ n ih =>
    obtain ⟨fuel, rfl⟩ : ∃ n, fuel = n + 1 := ⟨fuel - 1, by omega⟩
    rw [List.replicate_succ, List.cons_append] at h
    have hhead : c.head? = some ' ' := by simp [Cursor.head?, h]
    have hrest := Cursor.rest_advance_one h
    have hspace : isBlank ' ' = true := rfl
    have htab : (' ' == '\t') = false := rfl
    simp only [gapFrom, hhead, hspace, hg, htab, if_true, Bool.and_false, Bool.false_eq_true, if_false]
    rw [ih hrest (by omega), Cursor.advance_advance, Nat.add_comm 1]

/-- Breaks behind the first are kept, and what indents the line behind them is dropped. -/
theorem gapFrom_breaks (floor : Nat) {c : Cursor} {breaks : List Char} {n : Nat} {d : List Char}
    (h : c.rest = breaks ++ (List.replicate n ' ' ++ d)) (hcolumn : c.column = 0)
    (hprint : ∀ a ∈ breaks, isPrintable a = true) (hbreaks : ∀ a ∈ breaks, isBreak a = true) (hd : BeginsWord d)
    {fuel : Nat} (hfuel : breaks.length + n ≤ fuel) {g : Gap} (hg : g.broken = true) :
    ∃ c', gapFrom floor fuel c g = some ({ g with more := g.more ++ breaks }, c') ∧ c'.rest = d ∧
      c'.column = n ∧ c.line ≤ c'.line := by
  induction breaks generalizing c g fuel with
  | nil =>
    refine ⟨c.advance n, ?_, ?_, by simp [hcolumn], Nat.le_refl _⟩
    · rw [gapFrom_spaces floor h hd (by simpa using hfuel) hg]
      simp
    · have hrest : (c.advance (List.replicate n ' ').length).rest = d := Cursor.rest_advance h
      rwa [List.length_replicate] at hrest
  | cons b breaks ih =>
    simp only [List.length_cons] at hfuel
    obtain ⟨fuel, rfl⟩ : ∃ n, fuel = n + 1 := ⟨fuel - 1, by omega⟩
    have hb := hbreaks b List.mem_cons_self
    have hp := hprint b List.mem_cons_self
    have hhead : c.head? = some b := by simp [Cursor.head?, h]
    have hnext := Cursor.nextLine_of_break h hp hb
    have hstep : gapFrom floor (fuel + 1) c g = gapFrom floor fuel c.nextLine { g with more := g.more ++ [b] } := by
      simp only [gapFrom, hhead, isBlank_of_isBreak hb, hb, if_true, Bool.false_eq_true, if_false,
        Cursor.keptBreak_of_break h hp hb, Gap.addBreak, hg]
    obtain ⟨c', hgap, hrest, hcol, hline⟩ := @ih c.nextLine (by rw [hnext]; rfl) (by rw [hnext])
      (fun a ha => hprint a (List.mem_cons_of_mem _ ha)) (fun a ha => hbreaks a (List.mem_cons_of_mem _ ha))
      fuel (by omega) { g with more := g.more ++ [b] } hg
    refine ⟨c', ?_, hrest, hcol, ?_⟩
    · rw [hstep, hgap]
      simp
    · rw [hnext] at hline
      exact Nat.le_trans (Nat.le_succ _) hline

/-- A gap that begins with a break. -/
theorem gap_breaks (floor : Nat) {c : Cursor} {b : Char} {breaks : List Char} {n : Nat} {d : List Char}
    (h : c.rest = b :: (breaks ++ (List.replicate n ' ' ++ d)))
    (hprint : ∀ a ∈ b :: breaks, isPrintable a = true) (hbreaks : ∀ a ∈ b :: breaks, isBreak a = true)
    (hd : BeginsWord d) :
    ∃ c', gap floor c {} = some ({ broken := true, first := [b], more := breaks }, c') ∧ c'.rest = d ∧
      c'.column = n ∧ c.line < c'.line := by
  have hb := hbreaks b List.mem_cons_self
  have hp := hprint b List.mem_cons_self
  have hhead : c.head? = some b := by simp [Cursor.head?, h]
  have hlen : c.rest.length = breaks.length + (n + d.length) + 1 := by simp [h]
  have hnext := Cursor.nextLine_of_break h hp hb
  have hstep : gap floor c {} =
      gapFrom floor (breaks.length + (n + d.length)) c.nextLine { broken := true, first := [b] } := by
    simp only [gap, hlen, gapFrom, hhead, isBlank_of_isBreak hb, hb, if_true, Bool.false_eq_true, if_false,
      Cursor.keptBreak_of_break h hp hb, Gap.addBreak]
  obtain ⟨c', hgap, hrest, hcol, hline⟩ := @gapFrom_breaks floor c.nextLine breaks n d (by rw [hnext])
    (by rw [hnext]) (fun a ha => hprint a (List.mem_cons_of_mem _ ha))
    (fun a ha => hbreaks a (List.mem_cons_of_mem _ ha)) hd (breaks.length + (n + d.length)) (by omega)
    { broken := true, first := [b] } rfl
  refine ⟨c', by rw [hstep, hgap]; rfl, hrest, hcol, ?_⟩
  rw [hnext] at hline
  exact hline

/-- A gap of blanks within a line. -/
theorem gap_blanks (floor : Nat) {c : Cursor} {blanks d : List Char} (h : c.rest = blanks ++ d)
    (hblanks : ∀ a ∈ blanks, isBlank a = true) (hd : BeginsWord d) :
    gap floor c {} = some ({ blanks }, c.advance blanks.length) := by
  rw [gap, gapFrom_blanks floor h hblanks hd (by simp [h]) rfl]
  rfl

/-! ## Words of a plain scalar -/

/-- Without breaks, without a space at the end, and without a mark inside. -/
structure IsPlainText (spaced : Bool) (cs : List Char) : Prop where
  printable : ∀ a ∈ cs, isPrintable a = true
  unbroken : ∀ a ∈ cs, isBreak a = false
  ends : endsWith isSpaceChar cs = false
  marks : hasInnerMark spaced cs = false

theorem IsPlainText.tail {spaced : Bool} {a : Char} {cs : List Char} (h : IsPlainText spaced (a :: cs)) :
    IsPlainText (isBlank a) cs where
  printable b hb := h.printable b (List.mem_cons_of_mem _ hb)
  unbroken b hb := h.unbroken b (List.mem_cons_of_mem _ hb)
  ends := by
    have hends := h.ends
    cases cs with
    | nil => rfl
    | cons b cs => simpa [endsWith, List.getLast?_cons_cons] using hends
  marks := by
    have hmarks := h.marks
    simp only [hasInnerMark, Bool.or_eq_false_iff] at hmarks
    simpa [h.unbroken a List.mem_cons_self] using hmarks.2

/-- What follows white space is no comment, so it does not matter whether white space
    comes before. -/
theorem IsPlainText.of_spaced {cs : List Char} (h : IsPlainText true cs) :
    (∀ a ∈ cs.head?, a ≠ '#') ∧ IsPlainText false cs := by
  have hmarks := h.marks
  cases cs with
  | nil => exact ⟨fun a ha => (by cases ha), ⟨h.printable, h.unbroken, h.ends, rfl⟩⟩
  | cons a cs =>
    simp only [hasInnerMark, Bool.or_eq_false_iff, Bool.and_true, beq_eq_false_iff_ne] at hmarks
    refine ⟨fun b hb => ?_, h.printable, h.unbroken, h.ends, ?_⟩
    · cases hb
      exact hmarks.1.2
    · simp only [hasInnerMark, hmarks.1.1, hmarks.2, Bool.and_false, Bool.or_false]

/-- Behind the blanks in front. -/
theorem IsPlainText.drop_blanks {spaced : Bool} {blanks cs : List Char} (h : IsPlainText spaced (blanks ++ cs))
    (hblanks : ∀ a ∈ blanks, isBlank a = true) (hne : blanks ≠ []) : IsPlainText true cs := by
  induction blanks generalizing spaced with
  | nil => exact absurd rfl hne
  | cons a blanks ih =>
    have htail := h.tail
    rw [hblanks a List.mem_cons_self] at htail
    by_cases hb : blanks = []
    · subst hb
      exact htail
    · exact ih htail (fun b hb => hblanks b (List.mem_cons_of_mem _ hb)) hb

/-- No character of the text ends the scalar, whatever follows the text. -/
theorem endsPlain_of_inner {spaced : Bool} {a : Char} {cs : List Char} (h : IsPlainText spaced (a :: cs))
    (stop : List Char) : endsPlain false (a :: (cs ++ stop)) = false := by
  have hmarks := h.marks
  simp only [hasInnerMark, Bool.or_eq_false_iff] at hmarks
  simp only [endsPlain, Bool.false_and, Bool.or_false]
  cases cs with
  | nil =>
    have ha : (a == ':') = false := by simpa [endsWord] using hmarks.1.1
    simp [ha]
  | cons b cs => exact hmarks.1.1

variable {floor : Nat}

/-- A character of a word is read. -/
theorem plainFrom_word {c : Cursor} {a : Char} {cs stop acc : List Char} {spaced : Bool} (fuel : Nat)
    (h : c.rest = a :: (cs ++ stop)) (hcs : IsPlainText spaced (a :: cs)) (ha : isBlank a = false) (g : Gap) :
    plainFrom false floor (fuel + 1) c acc g =
      plainFrom false floor fuel (c.advance 1) (a :: (g.text.reverse ++ acc)) {} := by
  have hbreak : isBreak a = false := hcs.unbroken a List.mem_cons_self
  have hstray : isStrayColon false c.rest = false := by
    unfold isStrayColon
    split <;> rfl
  have hends : endsPlain false c.rest = false := h ▸ endsPlain_of_inner hcs stop
  simp only [plainFrom]
  rw [h] at hstray hends ⊢
  simp [ha, hbreak, hstray, hends]

/-- Blanks in front of a word are read as its gap. -/
theorem plainFrom_blanks {c : Cursor} {blanks d : List Char} (h : c.rest = blanks ++ d)
    (hblanks : ∀ a ∈ blanks, isBlank a = true) (hd : BeginsWord d) (hhash : blanks ≠ [] → ∀ a ∈ d.head?, a ≠ '#')
    (hcolumn : blanks ≠ [] → 0 < c.column) (hfloor : floor ≤ 1) (fuel : Nat) (acc : List Char)
    (hfuel : blanks.length ≤ fuel) :
    ∃ fuel' g, Gap.text g = blanks ∧ fuel ≤ fuel' + blanks.length ∧
      plainFrom false floor fuel c acc {} = plainFrom false floor fuel' (c.advance blanks.length) acc g := by
  cases blanks with
  | nil => exact ⟨fuel, {}, rfl, by simp, by simp⟩
  | cons a more =>
    obtain ⟨fuel, rfl⟩ : ∃ n, fuel = n + 1 := ⟨fuel - 1, by simp only [List.length_cons] at hfuel; omega⟩
    refine ⟨fuel, { blanks := a :: more }, rfl, by simp only [List.length_cons]; omega, ?_⟩
    have hne : a :: more ≠ [] := List.cons_ne_nil _ _
    have ha := hblanks a List.mem_cons_self
    have hcolumn := hcolumn hne
    have hinside : ¬ (c.advance (a :: more).length).column < floor := by
      simp only [Cursor.advance_column]
      omega
    have hmark : (c.advance (a :: more).length).atDocumentMark = false :=
      Cursor.atDocumentMark_of_column (by simp only [Cursor.advance_column]; omega)
    have hcomment : ((c.advance (a :: more).length).head? == some '#') = false := by
      rw [Cursor.head?, Cursor.rest_advance h, beq_eq_false_iff_ne]
      exact fun heq => hhash hne '#' heq rfl
    have hgap := gap_blanks floor h hblanks hd
    simp only [plainFrom]
    rw [h]
    simp only [List.cons_append, ha, Bool.true_or, if_true, hgap, Bool.not_false, Bool.true_and, hinside,
      decide_false, hmark, hcomment, Bool.or_self, Bool.false_eq_true, if_false]

/-- The text is read to its end, at a cost of at most one unit of fuel a character. -/
theorem plainFrom_text (hfloor : floor ≤ 1) {stop : List Char} (cs : List Char) (fuel : Nat) {c : Cursor}
    (acc : List Char) (h : c.rest = cs ++ stop) (hcs : IsPlainText false cs)
    (hcolumn : 0 < c.column ∨ BeginsWord cs) (hfuel : cs.length ≤ fuel) :
    ∃ fuel', fuel ≤ fuel' + cs.length ∧
      plainFrom false floor fuel c acc {} =
        plainFrom false floor fuel' (c.advance cs.length) (cs.reverse ++ acc) {} := by
  induction hn : cs.length using Nat.strongRecOn generalizing c cs acc fuel with
  | _ n ih =>
    subst hn
    obtain ⟨blanks, rest, rfl, hblanks, hrest⟩ := exists_run isBlank cs
    cases rest with
    | nil =>
      -- only blanks, and no space at the end: nothing
      cases hb : blanks.getLast? with
      | none =>
        obtain rfl := List.getLast?_eq_none_iff.mp hb
        exact ⟨fuel, by simp, by simp⟩
      | some a =>
        have hmem := List.mem_of_getLast? hb
        have hspace := eq_space_of_isBlank (hcs.printable a (by simpa using hmem)) (hblanks a hmem)
        have hends := hcs.ends
        simp [endsWith, hb, hspace, isSpaceChar] at hends
    | cons b rest =>
      have hb : isBlank b = false := hrest b rfl
      obtain ⟨spaced, hword, hhash⟩ : ∃ spaced, IsPlainText spaced (b :: rest) ∧
          (blanks ≠ [] → ∀ a ∈ (b :: rest).head?, a ≠ '#') := by
        by_cases hnone : blanks = []
        · exact ⟨false, by simpa [hnone] using hcs, fun h => absurd hnone h⟩
        · have hspaced := hcs.drop_blanks hblanks hnone
          exact ⟨true, hspaced, fun _ => hspaced.of_spaced.1⟩
      have hcolumn : blanks ≠ [] → 0 < c.column := fun hne => hcolumn.resolve_right fun hw => by
        obtain ⟨a, more, rfl⟩ := List.exists_cons_of_ne_nil hne
        have hblank := (hw a rfl).1
        rw [hblanks a List.mem_cons_self] at hblank
        cases hblank
      rw [List.append_assoc] at h
      simp only [List.length_append, List.length_cons] at hfuel ih ⊢
      obtain ⟨fuel₁, g, hg, hle₁, hread₁⟩ := plainFrom_blanks h hblanks
        (beginsWord_cons hb (hword.unbroken b List.mem_cons_self) _) hhash hcolumn hfloor fuel acc
        (by omega)
      obtain ⟨fuel₂, rfl⟩ : ∃ n, fuel₁ = n + 1 := ⟨fuel₁ - 1, by omega⟩
      have hrest₁ : (c.advance blanks.length).rest = b :: (rest ++ stop) := Cursor.rest_advance h
      have htail := hword.tail
      rw [hb] at htail
      obtain ⟨fuel', hle, hread⟩ := ih rest.length (by omega) rest fuel₂ (b :: (g.text.reverse ++ acc))
        (Cursor.rest_advance_one hrest₁) htail (Or.inl (by simp)) (by omega) rfl
      refine ⟨fuel', by omega, ?_⟩
      rw [hread₁, plainFrom_word fuel₂ hrest₁ hword hb, hread, Cursor.advance_advance,
        Cursor.advance_advance, hg]
      simp [Nat.add_comm]

/-! ## Whole scalars -/

/-- What `allowsPlain` says of a text that is not empty. -/
theorem isPlainText_of_allowsPlain {cs : List Char} (h : allowsPlain cs = true) :
    IsPlainText true cs ∧ BeginsWord cs ∧ hasOuterMark cs = false := by
  simp only [allowsPlain, Bool.not_eq_true', Bool.or_eq_false_iff] at h
  obtain ⟨⟨⟨⟨⟨hbreak, hstart⟩, hends⟩, hprint⟩, houter⟩, hinner⟩ := h
  have hprint' : ∀ a ∈ cs, isPrintable a = true := fun a ha => by
    simpa using List.any_eq_false.mp hprint a ha
  have hbreak' : ∀ a ∈ cs, isBreak a = false := fun a ha => by
    simpa using List.any_eq_false.mp hbreak a ha
  refine ⟨⟨hprint', hbreak', hends, ?_⟩, fun a ha => ?_, houter⟩
  · cases cs with
    | nil => rfl
    | cons a cs =>
      simp only [hasOuterMark, isIndicator, Bool.or_eq_false_iff] at houter
      have hblank : isBlank a = false := isBlank_of_ne_space (hprint' a List.mem_cons_self) hstart
      have hcolon : (a == ':' && endsWord cs) = false := by
        have := houter.1.1.2
        revert this
        cases endsWord cs <;> simp_all
      have hhash : (a == '#') = false := by simp_all
      simp only [hasInnerMark, hcolon, hhash, hblank, hbreak' a List.mem_cons_self, Bool.false_and, Bool.or_self,
        Bool.false_or]
      exact hinner
  · rw [startsWith, Option.mem_def.mp ha] at hstart
    have hmem := List.mem_of_head? ha
    exact ⟨isBlank_of_ne_space (hprint' a hmem) hstart, hbreak' a hmem⟩

/-- In front of a colon that ends a key. -/
theorem plain_key {c : Cursor} {cs stop : List Char} (h : c.rest = cs ++ ':' :: stop) (hcs : allowsPlain cs = true)
    (hstop : endsWord stop = true) (hfloor : floor ≤ 1) :
    plain false floor c = some (String.ofList cs, false, c.advance cs.length) := by
  obtain ⟨htext, hbegins, -⟩ := isPlainText_of_allowsPlain hcs
  obtain ⟨fuel, hle, hread⟩ := plainFrom_text hfloor cs (2 * c.rest.length + 1) [] h htext.of_spaced.2
    (Or.inr hbegins) (by simp [h]; omega)
  obtain ⟨fuel, rfl⟩ : ∃ n, fuel = n + 1 := ⟨fuel - 1, by simp [h] at hle; omega⟩
  have hblank : isBlank ':' = false := rfl
  have hbreak : isBreak ':' = false := rfl
  rw [plain, hread]
  simp only [plainFrom, Cursor.rest_advance h, hblank, hbreak, isStrayColon, endsPlain, hstop]
  simp
  cases stop <;> rfl

/-- At the end of a line, with the break. -/
theorem plain_line {c : Cursor} {cs next : List Char} (h : c.rest = cs ++ '\n' :: next)
    (hcs : allowsPlain cs = true) (hnext : BeginsWord next) (hfloor : floor = 1) :
    ∃ c', plain false floor c = some (String.ofList cs, true, c') ∧ c'.rest = next ∧ c'.column = 0 ∧
      c.line < c'.line := by
  obtain ⟨htext, hbegins, -⟩ := isPlainText_of_allowsPlain hcs
  obtain ⟨fuel, hle, hread⟩ := plainFrom_text (Nat.le_of_eq hfloor) cs (2 * c.rest.length + 1) [] h
    htext.of_spaced.2 (Or.inr hbegins) (by simp [h]; omega)
  obtain ⟨fuel, rfl⟩ : ∃ n, fuel = n + 1 := ⟨fuel - 1, by simp [h] at hle; omega⟩
  have hrest := Cursor.rest_advance h
  obtain ⟨c', hgap, hrest', hcolumn, hline⟩ := @gap_breaks floor _ '\n' [] 0 next hrest
    (List.all_eq_true.mp (by decide)) (List.all_eq_true.mp (by decide)) hnext
  refine ⟨c', ?_, hrest', hcolumn, hline⟩
  have hbreak : isBreak '\n' = true := rfl
  have hout : c'.column < floor := by omega
  rw [plain, hread]
  simp only [plainFrom]
  rw [hrest]
  simp [hbreak, hgap, hout]

end TaintAlias.Yaml
