/-
  TaintAlias.Proofs.Yaml.Scalar.Literal — literal blocks are read back.

  The lines of a text stand behind a margin of two spaces, and the header states that
  margin where the first line does not show it. The reader goes from one run of breaks to
  the next, and at each line the text so far and the breaks behind it are what was
  written up to there (`blockLines_written`). It ends with the text, the first break
  behind it, and the breaks of the empty lines after that; the chomping mark of the header
  drops what the writer added and nothing else, so every text is read back
  (`block_literal`).
-/

import Mathlib.Data.List.Infix
import TaintAlias.Proofs.Yaml.Cursor
import TaintAlias.Yaml.Scalar.Block
import TaintAlias.Yaml.Scalar.Write

namespace TaintAlias.Yaml

/-! ## Lines with their margin -/

/-- The break a writer adds to a text that does not end with one. -/
def addedBreak (cs : List Char) : List Char := if endsWith isBreak cs then [] else ['\n']

theorem literalLines_addedBreak (fresh : Bool) (cs ds : List Char) :
    literalLines fresh (cs ++ addedBreak ds) = literalLines fresh cs ++ addedBreak ds := by
  induction cs generalizing fresh with
  | nil =>
    unfold addedBreak
    split <;> rfl
  | cons a cs ih =>
    simp only [List.cons_append, literalLines, ih]
    split <;> simp

theorem literalLines_line {line : List Char} (h : ∀ a ∈ line, isBreak a = false) (cs : List Char) :
    literalLines false (line ++ cs) = line ++ literalLines false cs := by
  induction line with
  | nil => rfl
  | cons a line ih =>
    simp [literalLines, h a List.mem_cons_self, ih fun b hb => h b (List.mem_cons_of_mem _ hb)]

theorem literalLines_breaks {breaks : List Char} (h : ∀ a ∈ breaks, isBreak a = true) (cs : List Char) :
    literalLines true (breaks ++ cs) = breaks ++ literalLines true cs := by
  induction breaks with
  | nil => rfl
  | cons b breaks ih =>
    simp [literalLines, h b List.mem_cons_self, ih fun a ha => h a (List.mem_cons_of_mem _ ha)]

theorem literalLines_fresh {a : Char} (h : isBreak a = false) (cs : List Char) :
    literalLines true (a :: cs) = margin ++ literalLines false (a :: cs) := by
  simp [literalLines, h]

theorem length_le_literalLines (fresh : Bool) (cs : List Char) : cs.length ≤ (literalLines fresh cs).length := by
  induction cs generalizing fresh with
  | nil => exact Nat.zero_le _
  | cons a cs ih =>
    have hnext := ih false
    have hfresh := ih true
    simp only [literalLines]
    split
    · simp only [List.length_cons]
      omega
    · simp only [List.length_append, List.length_cons]
      omega

/-! ## Empty lines -/

/-- How many spaces belong to an empty line. -/
def skipped (indent : Option Nat) (c : Cursor) : Nat :=
  match indent with
  | none => (c.rest.takeWhile (· == ' ')).length
  | some n => min (c.rest.takeWhile (· == ' ')).length (n - c.column)

theorem skipped_of_head {indent : Option Nat} {c : Cursor} (h : c.head? ≠ some ' ') : skipped indent c = 0 := by
  have hspaces : (c.rest.takeWhile (· == ' ')).length = 0 := by
    cases hc : c.rest with
    | nil => rfl
    | cons a d =>
      have ha : (a == ' ') = false := by
        rw [beq_eq_false_iff_ne]
        rintro rfl
        exact h (by simp [Cursor.head?, hc])
      simp [ha]
  unfold skipped
  split <;> simp [hspaces]

/-- One line, unless a tab stands behind its spaces. -/
theorem emptyLinesFrom_succ {indent : Option Nat} {c : Cursor} {n : Nat} (hskip : skipped indent c = n)
    (htab : (c.advance n).head? ≠ some '\t') (fuel : Nat) (acc : List Char) (widest : Nat) :
    emptyLinesFrom indent (fuel + 1) c acc widest =
      if (c.advance n).atBreak then
        emptyLinesFrom indent fuel (c.advance n).nextLine (acc ++ (c.advance n).keptBreak) (max widest (c.column + n))
      else some ⟨acc, max widest (c.column + n), c.advance n⟩ := by
  have htab : ((c.advance n).head? == some '\t') = false := beq_eq_false_iff_ne.mpr htab
  subst hskip
  cases indent <;>
    simp only [skipped] at htab ⊢ <;>
    simp only [emptyLinesFrom, htab, Bool.false_and, Bool.false_eq_true, if_false, Cursor.advance_column] <;>
    rfl

/-- Breaks at the start of a line are lines without text. -/
theorem emptyLinesFrom_breaks (indent : Option Nat) {c : Cursor} {breaks d : List Char} (h : c.rest = breaks ++ d)
    (hcolumn : c.column = 0) (hprint : ∀ a ∈ breaks, isPrintable a = true)
    (hbreaks : ∀ a ∈ breaks, isBreak a = true) (fuel : Nat) (acc : List Char) :
    ∃ c', emptyLinesFrom indent (fuel + breaks.length) c acc 0 =
        emptyLinesFrom indent fuel c' (acc ++ breaks) 0 ∧
      c'.rest = d ∧ c'.column = 0 ∧ c.line ≤ c'.line := by
  induction breaks generalizing c acc with
  | nil => exact ⟨c, by simp, h, hcolumn, Nat.le_refl _⟩
  | cons b breaks ih =>
    have hb := hbreaks b List.mem_cons_self
    have hp := hprint b List.mem_cons_self
    have hhead : c.head? = some b := by simp [Cursor.head?, h]
    have hword : b ≠ ' ' ∧ b ≠ '\t' := by rcases isBreak_cases hp hb with rfl | rfl | rfl <;> decide
    have hskip : skipped indent c = 0 := skipped_of_head (by simp [hhead, hword.1])
    have hat : c.atBreak = true := by simp [Cursor.atBreak, hhead, hb]
    have hnext := Cursor.nextLine_of_break h hp hb
    obtain ⟨c', hread, hrest, hcol, hline⟩ := @ih c.nextLine (by rw [hnext]; rfl) (by rw [hnext])
      (fun a ha => hprint a (List.mem_cons_of_mem _ ha)) (fun a ha => hbreaks a (List.mem_cons_of_mem _ ha))
      (acc ++ [b])
    refine ⟨c', ?_, hrest, hcol, ?_⟩
    · rw [List.length_cons, ← Nat.add_assoc, emptyLinesFrom_succ hskip (by simp [hhead, hword.2]),
        Cursor.advance_zero, if_pos hat, Cursor.keptBreak_of_break h hp hb, hcolumn, Nat.add_zero, Nat.max_self,
        hread]
      simp
    · rw [hnext] at hline
      exact Nat.le_trans (Nat.le_succ _) hline

/-- The margin of a line with text ends them. A margin that is not stated is as wide as the
    first line shows, which therefore may not begin with a space. -/
theorem emptyLinesFrom_margin {indent : Option Nat} {c : Cursor} {a : Char} {d : List Char}
    (h : c.rest = margin ++ a :: d) (hcolumn : c.column = 0) (hp : isPrintable a = true) (hb : isBreak a = false)
    (hindent : indent = some 2 ∨ indent = none ∧ a ≠ ' ') (fuel : Nat) (acc : List Char) :
    emptyLinesFrom indent (fuel + 1) c acc 0 = some ⟨acc, 2, c.advance 2⟩ := by
  have hhead : (c.advance 2).head? = some a := by
    have hrest : (c.advance margin.length).rest = a :: d := Cursor.rest_advance h
    exact congrArg List.head? hrest
  have hskip : skipped indent c = 2 := by
    rcases hindent with rfl | ⟨rfl, ha⟩
    · simp [skipped, h, hcolumn, margin]
    · simp [skipped, h, margin, ha]
  have htab : a ≠ '\t' := by
    rintro rfl
    revert hp
    decide
  have hat : (c.advance 2).atBreak = false := by simp [Cursor.atBreak, hhead, hb]
  rw [emptyLinesFrom_succ hskip (by simp [hhead, htab]), hat, hcolumn]
  rfl

/-- A word at the start of a line ends them. -/
theorem emptyLinesFrom_word (indent : Option Nat) {c : Cursor} (h : BeginsWord c.rest) (hcolumn : c.column = 0)
    (fuel : Nat) (acc : List Char) : emptyLinesFrom indent (fuel + 1) c acc 0 = some ⟨acc, 0, c⟩ := by
  have hnot : ∀ a, isBlank a = true → c.head? ≠ some a := by
    intro a ha hc
    rw [(h a hc).1] at ha
    cases ha
  have hat : c.atBreak = false := by
    cases hc : c.head? with
    | none => simp [Cursor.atBreak, hc]
    | some a => simp [Cursor.atBreak, hc, (h a hc).2]
  rw [emptyLinesFrom_succ (skipped_of_head (hnot ' ' rfl)) (by simpa using hnot '\t' rfl), Cursor.advance_zero, hat,
    hcolumn]
  rfl

/-- Where the cursor stands behind empty lines: behind the margin of the text `cs`, or, if no
    text follows, behind the block. -/
structure AtText (cs next : List Char) (c : Cursor) : Prop where
  rest : c.rest = literalLines false cs ++ next
  column : c.column = if cs = [] then 0 else 2

/-- The empty lines of a block, in front of a line with text or of what follows the block. -/
theorem emptyLines_written {indent : Option Nat} {c : Cursor} {breaks cs next : List Char}
    (h : c.rest = breaks ++ (literalLines true cs ++ next)) (hcolumn : c.column = 0)
    (hprint : ∀ a ∈ breaks ++ cs, isPrintable a = true) (hbreaks : ∀ a ∈ breaks, isBreak a = true)
    (hcs : ∀ a ∈ cs.head?, isBreak a = false) (hnext : BeginsWord next)
    (hindent : indent = some 2 ∨ indent = none ∧ ∀ a ∈ cs.head?, a ≠ ' ') :
    ∃ c', emptyLines indent c = some ⟨breaks, if cs = [] then 0 else 2, c'⟩ ∧ AtText cs next c' ∧
      c.line ≤ c'.line := by
  obtain ⟨fuel, hfuel⟩ : ∃ fuel, c.rest.length + 1 = fuel + 1 + breaks.length :=
    ⟨(literalLines true cs ++ next).length, by rw [h, List.length_append]; omega⟩
  obtain ⟨c', hread, hrest, hcolumn', hline⟩ := emptyLinesFrom_breaks indent h hcolumn
    (fun a ha => hprint a (List.mem_append_left _ ha)) hbreaks (fuel + 1) []
  rw [emptyLines, hfuel, hread, List.nil_append]
  cases cs with
  | nil =>
    refine ⟨c', ?_, ⟨hrest, hcolumn'⟩, hline⟩
    exact emptyLinesFrom_word indent (by rw [hrest]; exact hnext) hcolumn' fuel breaks
  | cons a cs =>
    have ha := hcs a rfl
    rw [literalLines_fresh ha, List.append_assoc] at hrest
    refine ⟨c'.advance 2, ?_, ⟨Cursor.rest_advance hrest, by simp [hcolumn']⟩, hline⟩
    simp only [literalLines, ha, Bool.false_eq_true, if_false, List.nil_append, List.cons_append] at hrest
    exact emptyLinesFrom_margin hrest hcolumn' (hprint a (by simp)) ha
      (hindent.imp id fun hnone => ⟨hnone.1, hnone.2 a rfl⟩) fuel breaks

/-! ## Lines of text -/

theorem endsWith_append {p : Char → Bool} (front : List Char) {cs : List Char} (h : cs ≠ []) :
    endsWith p (front ++ cs) = endsWith p cs := by
  obtain ⟨a, ha⟩ : ∃ a, cs.getLast? = some a := ⟨_, List.getLast?_eq_some_getLast h⟩
  simp [endsWith, List.getLast?_append, ha]

theorem endsWith_of_forall {p : Char → Bool} {cs : List Char} (h : ∀ a ∈ cs, p a = false) :
    endsWith p cs = false := by
  cases hlast : cs.getLast? with
  | none => simp [endsWith, hlast]
  | some a => simp [endsWith, hlast, h a (List.mem_of_getLast? hlast)]

theorem endsWith_of_forall_true {p : Char → Bool} {cs : List Char} (hne : cs ≠ []) (h : ∀ a ∈ cs, p a = true) :
    endsWith p cs = true := by
  rw [endsWith, List.getLast?_eq_some_getLast hne]
  exact h _ (List.getLast_mem hne)

/-- A text as its part before the breaks at its end, the first of these, and the others. -/
structure EndsIn (cs body : List Char) (b : Char) (breaks : List Char) : Prop where
  eq : cs = body ++ b :: breaks
  text : body ≠ []
  body : endsWith isBreak body = false
  breaks : ∀ a ∈ b :: breaks, isBreak a = true

theorem EndsIn.append {cs body breaks : List Char} {b : Char} (h : EndsIn cs body b breaks) (front : List Char) :
    EndsIn (front ++ cs) (front ++ body) b breaks where
  eq := by rw [h.eq, List.append_assoc]
  text := by simp [h.text]
  body := by rw [endsWith_append front h.text, h.body]
  breaks := h.breaks

/-- One line and the breaks behind it. -/
theorem blockLines_line {c : Cursor} {line breaks cs next : List Char} {b : Char}
    (h : AtText (line ++ b :: (breaks ++ cs)) next c) (hline : ∀ a ∈ line, isBreak a = false)
    (hprint : ∀ a ∈ b :: (breaks ++ cs), isPrintable a = true) (hbreaks : ∀ a ∈ b :: breaks, isBreak a = true)
    (hcs : ∀ a ∈ cs.head?, isBreak a = false) (hnext : BeginsWord next) (fuel : Nat) (t : BlockText) :
    ∃ c' blank, blockLines false 2 (fuel + 1) c t =
        blockLines false 2 fuel c' ⟨t.text ++ (t.lastBreak ++ t.breaks) ++ line, [b], breaks, blank⟩ ∧
      AtText cs next c' ∧ c.line < c'.line := by
  have hb := hbreaks b List.mem_cons_self
  have hp := hprint b List.mem_cons_self
  have hrest : c.rest = line ++ b :: (breaks ++ (literalLines true cs ++ next)) := by
    have hlines := literalLines_breaks (fun a ha => hbreaks a (List.mem_cons_of_mem _ ha)) cs
    rw [h.rest, literalLines_line hline]
    simp [literalLines, hb, hlines]
  have hcolumn : c.column = 2 := by simp [h.column]
  have htake : c.rest.takeWhile (fun a => !isBreak a) = line := by
    rw [hrest, List.takeWhile_append_of_pos fun a ha => by simp [hline a ha], List.takeWhile_cons, hb]
    simp
  have hending := Cursor.rest_advance hrest
  have hnextLine := Cursor.nextLine_of_break hending hp hb
  obtain ⟨c', hempty, hat, hle⟩ := @emptyLines_written (some 2) (c.advance line.length).nextLine breaks cs next
    (by rw [hnextLine]) (by rw [hnextLine]) (fun a ha => hprint a (List.mem_cons_of_mem _ ha))
    (fun a ha => hbreaks a (List.mem_cons_of_mem _ ha)) hcs hnext (Or.inl rfl)
  refine ⟨c', c.atBlank, ?_, hat, ?_⟩
  · have hsome : c.rest.isEmpty = false := by simp [hrest]
    simp only [blockLines, hcolumn, bne_self_eq_false, hsome, Bool.or_self, Bool.false_eq_true, if_false, htake,
      hempty, BlockText.joint, Bool.false_and, Cursor.keptBreak_of_break hending hp hb]
  · rw [hnextLine] at hle
    exact hle

/-- The first line of a text that ends with a break, and the breaks behind it. -/
theorem exists_line {cs : List Char} (hstart : ∀ a ∈ cs.head?, isBreak a = false) (hne : cs ≠ [])
    (hend : endsWith isBreak cs = true) :
    ∃ line b breaks rest, cs = line ++ b :: (breaks ++ rest) ∧ line ≠ [] ∧ (∀ a ∈ line, isBreak a = false) ∧
      (∀ a ∈ b :: breaks, isBreak a = true) ∧ ∀ a ∈ rest.head?, isBreak a = false := by
  obtain ⟨line, rest, rfl, hline, hrest⟩ := exists_run (fun a => !isBreak a) cs
  obtain ⟨breaks, rest, rfl, hbreaks, hrest'⟩ := exists_run isBreak rest
  have hline : ∀ a ∈ line, isBreak a = false := fun a ha => by simpa using hline a ha
  have hsome : line ≠ [] := by
    rintro rfl
    obtain ⟨a, ha⟩ := Option.isSome_iff_exists.mp (List.isSome_head?.mpr hne)
    have hnot := hrest a ha
    rw [hstart a ha] at hnot
    cases hnot
  cases breaks with
  | cons b breaks => exact ⟨line, b, breaks, rest, rfl, hsome, hline, hbreaks, hrest'⟩
  | nil =>
    -- the text would end with the line
    cases rest with
    | nil =>
      rw [List.append_nil, List.append_nil, endsWith_of_forall hline] at hend
      cases hend
    | cons a rest =>
      have ha := hrest a rfl
      rw [hrest' a rfl] at ha
      cases ha

/-- Lines of text up to the end of the block. -/
theorem blockLines_written {next : List Char} (hnext : BeginsWord next) (cs : List Char) (fuel : Nat) {c : Cursor}
    (t : BlockText) (h : AtText cs next c) (hprint : ∀ a ∈ cs, isPrintable a = true)
    (hstart : ∀ a ∈ cs.head?, isBreak a = false) (hne : cs ≠ []) (hend : endsWith isBreak cs = true)
    (hfuel : cs.length < fuel) :
    ∃ c' body b breaks blank, EndsIn cs body b breaks ∧
      blockLines false 2 fuel c t =
        some (⟨t.text ++ (t.lastBreak ++ t.breaks) ++ body, [b], breaks, blank⟩, c') ∧
      c'.rest = next ∧ c'.column = 0 ∧ c.line < c'.line := by
  induction hn : cs.length using Nat.strongRecOn generalizing c cs t fuel with
  | _ n ih =>
    subst hn
    obtain ⟨fuel, rfl⟩ : ∃ n, fuel = n + 1 := ⟨fuel - 1, by omega⟩
    obtain ⟨line, b, breaks, cs, rfl, hsome, hline, hbreaks, hcs⟩ := exists_line hstart hne hend
    simp only [List.length_append, List.length_cons] at hfuel ih
    obtain ⟨c₁, blank, hstep, hat, hlt⟩ := blockLines_line h hline
      (fun a ha => hprint a (List.mem_append_right _ ha)) hbreaks hcs hnext fuel t
    by_cases hlast : cs = []
    · subst hlast
      obtain ⟨fuel, rfl⟩ : ∃ n, fuel = n + 1 := ⟨fuel - 1, by omega⟩
      have hcolumn : c₁.column = 0 := by simp [hat.column]
      refine ⟨c₁, line, b, breaks, blank, ⟨by simp, hsome, endsWith_of_forall hline, hbreaks⟩, ?_, hat.rest,
        hcolumn, hlt⟩
      rw [hstep]
      simp [blockLines, hcolumn]
    · have hfront : line ++ b :: (breaks ++ cs) = (line ++ b :: breaks) ++ cs := by simp
      rw [hfront] at hprint hend ⊢
      rw [endsWith_append _ hlast] at hend
      obtain ⟨c', body, b', breaks', blank', hcut, hread, hrest', hcol', hline'⟩ := ih cs.length (by omega) cs fuel
        _ hat (fun a ha => hprint a (List.mem_append_right _ ha)) hcs hlast hend (by omega) rfl
      refine ⟨c', _, b', breaks', blank', hcut.append (line ++ b :: breaks), ?_, hrest', hcol',
        Nat.lt_trans hlt hline'⟩
      rw [hstep, hread]
      simp

/-! ## Headers -/

/-- Whether the header states the margin. -/
def statesMargin (cs : List Char) : Bool := startsWith (fun a => a == ' ' || isBreak a) cs

/-- If it does not, the first line shows the margin. -/
theorem statesMargin_or_ne_space {cs added breaks rest : List Char} {a : Char} (hne : cs ≠ [])
    (hcut : cs ++ added = breaks ++ a :: rest) (hbreaks : ∀ d ∈ breaks, isBreak d = true) :
    statesMargin cs = true ∨ statesMargin cs = false ∧ a ≠ ' ' := by
  cases hmargin : statesMargin cs with
  | true => exact Or.inl rfl
  | false =>
    refine Or.inr ⟨rfl, ?_⟩
    obtain ⟨d, cs, rfl⟩ := List.exists_cons_of_ne_nil hne
    have hd : d ≠ ' ' ∧ isBreak d = false := by simpa [statesMargin, startsWith] using hmargin
    cases breaks with
    | nil => exact (List.cons.inj hcut).1 ▸ hd.1
    | cons b breaks =>
      have hb := hbreaks b List.mem_cons_self
      rw [← (List.cons.inj hcut).1, hd.2] at hb
      cases hb

/-- What the header says of the breaks at the end. -/
def chompingOf (cs : List Char) : Chomping :=
  if endsWith isBreak cs then if cs.dropLast.isEmpty || endsWith isBreak cs.dropLast then .keep else .clip
  else .strip

def chompingMark : Chomping → List Char
  | .strip => ['-']
  | .clip => []
  | .keep => ['+']

theorem literalHeader_eq (cs : List Char) :
    literalHeader cs = '|' :: ((if statesMargin cs then ['2'] else []) ++ chompingMark (chompingOf cs)) := by
  rcases List.eq_nil_or_concat' cs with rfl | ⟨ds, a, rfl⟩
  · rfl
  · rcases List.eq_nil_or_concat' ds with rfl | ⟨es, d, rfl⟩
    · cases ha : isBreak a <;> simp [literalHeader, chompingOf, chompingMark, endsWith, ha] <;> rfl
    · cases ha : isBreak a <;> cases hd : isBreak d <;>
        simp [literalHeader, chompingOf, chompingMark, endsWith, ha, hd] <;> rfl

theorem readChomping_written {c : Cursor} (chomping : Chomping) {d : List Char}
    (h : c.rest = chompingMark chomping ++ '\n' :: d) :
    readChomping c = (if chomping = .clip then none else some chomping, c.advance (chompingMark chomping).length) := by
  have hhead : c.head? = (chompingMark chomping ++ '\n' :: d).head? := congrArg List.head? h
  cases chomping <;> simp [readChomping, hhead, chompingMark, chomping?]

/-- The header is read up to the end of its line. -/
theorem blockHeader_written {c : Cursor} (states : Bool) (chomping : Chomping) {d : List Char}
    (h : c.rest = (if states then ['2'] else []) ++ (chompingMark chomping ++ '\n' :: d)) :
    ∃ c', blockHeader c = some (⟨chomping, if states then some 2 else none⟩, c') ∧ c'.rest = '\n' :: d ∧
      c'.line = c.line := by
  cases states with
  | false =>
    have h : c.rest = chompingMark chomping ++ '\n' :: d := h
    have hrest := Cursor.rest_advance h
    refine ⟨_, ?_, hrest, rfl⟩
    have hindentation : readIndentation (c.advance (chompingMark chomping).length) =
        some (none, c.advance (chompingMark chomping).length) := by
      simp [readIndentation, Cursor.head?, hrest]
    simp only [blockHeader, readChomping_written chomping h, hindentation]
    cases chomping <;> rfl
  | true =>
    have h : c.rest = '2' :: (chompingMark chomping ++ '\n' :: d) := h
    have hhead : c.head? = some '2' := congrArg List.head? h
    have hrest := Cursor.rest_advance_one h
    refine ⟨_, ?_, Cursor.rest_advance hrest, rfl⟩
    have hnone : readChomping c = (none, c) := by simp [readChomping, hhead, chomping?]
    have hindentation : readIndentation c = some (some 2, c.advance 1) := by simp [readIndentation, hhead]
    simp only [blockHeader, hnone, hindentation, readChomping_written chomping hrest]
    cases chomping <;> rfl

theorem restOfLine?_feed {c : Cursor} {d : List Char} (h : c.rest = '\n' :: d) :
    ∃ c', c.restOfLine? = some c' ∧ c'.rest = d ∧ c'.column = 0 ∧ c.line < c'.line := by
  have hblank : isBlank '\n' = false := rfl
  have hbreak : isBreak '\n' = true := rfl
  have hstay : (c.dropWhile isBlank).dropComment = c := by
    simp [Cursor.dropWhile, Cursor.dropComment, Cursor.head?, h, hblank]
  have hnext := Cursor.nextLine_of_break h (by decide) hbreak
  refine ⟨c.nextLine, ?_, by rw [hnext], by rw [hnext], by rw [hnext]; exact Nat.lt_succ_self _⟩
  rw [Cursor.restOfLine?, hstay]
  simp [Cursor.atLineEnd, endsLine, h, hbreak]

/-! ## Whole scalars -/

/-- What chomping keeps of the breaks behind the text is what was not added. -/
theorem EndsIn.chomped {cs body breaks : List Char} {b : Char} (h : EndsIn (cs ++ addedBreak cs) body b breaks) :
    (body ++ match chompingOf cs with
      | .strip => []
      | .clip => [b]
      | .keep => b :: breaks) = cs := by
  have heq := h.eq
  have hbreaks := h.breaks
  cases hend : endsWith isBreak cs with
  | false =>
    rw [addedBreak, hend] at heq
    rcases List.eq_nil_or_concat' breaks with rfl | ⟨more, a, rfl⟩
    · obtain ⟨rfl, -⟩ := List.append_inj' heq rfl
      simp [chompingOf, hend]
    · -- the text itself would end with a break
      have hcut : cs ++ ['\n'] = (body ++ b :: more) ++ [a] := by simpa using heq
      obtain ⟨rfl, -⟩ := List.append_inj' hcut rfl
      have hmore := endsWith_of_forall_true (List.cons_ne_nil b more) fun d hd =>
        hbreaks d (List.mem_append_left [a] hd)
      rw [endsWith_append _ (List.cons_ne_nil _ _), hmore] at hend
      cases hend
  | true =>
    rw [addedBreak, hend, if_pos rfl, List.append_nil] at heq
    subst heq
    rcases List.eq_nil_or_concat' breaks with rfl | ⟨more, a, rfl⟩
    · have hchomping : chompingOf (body ++ [b]) = .clip := by simp [chompingOf, hend, h.body, h.text]
      rw [hchomping]
    · have hmore := endsWith_of_forall_true (List.cons_ne_nil b more) fun d hd =>
        hbreaks d (List.mem_append_left [a] hd)
      have hdrop : (body ++ b :: (more ++ [a])).dropLast = body ++ b :: more := by
        rw [← List.cons_append, ← List.append_assoc, List.dropLast_concat]
      have hchomping : chompingOf (body ++ b :: (more ++ [a])) = .keep := by
        rw [chompingOf, hend, hdrop, endsWith_append _ (List.cons_ne_nil _ _), hmore]
        simp
      rw [hchomping]

/-- A text of breaks only keeps them all. -/
theorem chompingOf_breaks {breaks : List Char} (h : ∀ a ∈ breaks, isBreak a = true) (hne : breaks ≠ []) :
    chompingOf breaks = .keep := by
  have hkeep : (breaks.dropLast.isEmpty || endsWith isBreak breaks.dropLast) = true := by
    by_cases hdrop : breaks.dropLast = []
    · simp [hdrop]
    · rw [endsWith_of_forall_true hdrop fun a ha => h a (List.mem_of_mem_dropLast ha), Bool.or_true]
  simp [chompingOf, endsWith_of_forall_true hne h, hkeep]

/-- Where the lines of a block begin: its header is read, and its text ends with a break. -/
theorem block_eq {c : Cursor} {cs d : List Char} (h : c.rest = literalHeader cs ++ '\n' :: d) :
    ∃ c', c'.rest = d ∧ c'.column = 0 ∧ c.line < c'.line ∧
      block false 1 c =
        match emptyLines (if statesMargin cs then some 2 else none) c' with
        | none => none
        | some e =>
          match blockLines false (if statesMargin cs then 2 else max (max e.widest 1) 1) (c'.rest.length + 1) e.stop
              { breaks := e.breaks } with
          | none => none
          | some (t, c) =>
            some (String.ofList (t.text ++
              match chompingOf cs with
              | .strip => []
              | .clip => t.lastBreak
              | .keep => t.lastBreak ++ t.breaks), c) := by
  rw [literalHeader_eq, List.cons_append, List.append_assoc] at h
  obtain ⟨c₁, hheader, hrest₁, hline₁⟩ := blockHeader_written (statesMargin cs) (chompingOf cs)
    (Cursor.rest_advance_one h)
  obtain ⟨c', hline, hrest, hcolumn, hlt⟩ := restOfLine?_feed hrest₁
  refine ⟨c', hrest, hcolumn, ?_, ?_⟩
  · rw [hline₁] at hlt
    exact hlt
  · simp only [block, hheader, hline]
    cases statesMargin cs <;> rfl

theorem endsWith_addedBreak (cs : List Char) : endsWith isBreak (cs ++ addedBreak cs) = true := by
  cases hend : endsWith isBreak cs with
  | false =>
    rw [addedBreak, hend, if_neg Bool.false_ne_true, endsWith_append _ (List.cons_ne_nil _ _)]
    rfl
  | true => rw [addedBreak, hend, if_pos rfl, List.append_nil, hend]

theorem isPrintable_addedBreak {cs : List Char} (h : needsEscapes cs = false) :
    ∀ a ∈ cs ++ addedBreak cs, isPrintable a = true := by
  intro a ha
  rcases List.mem_append.mp ha with ha | ha
  · simpa using List.any_eq_false.mp h a ha
  · unfold addedBreak at ha
    split at ha
    · cases ha
    · obtain rfl := List.mem_singleton.mp ha
      decide

/-- To a text of breaks only none is added, and its header states the margin. -/
theorem eq_of_addedBreak {cs breaks : List Char} (hne : cs ≠ []) (h : cs ++ addedBreak cs = breaks)
    (hbreaks : ∀ a ∈ breaks, isBreak a = true) : cs = breaks ∧ statesMargin cs = true := by
  have hall : ∀ a ∈ cs, isBreak a = true := fun a ha => hbreaks a (h ▸ List.mem_append_left _ ha)
  constructor
  · rw [← h, addedBreak, endsWith_of_forall_true hne hall, if_pos rfl, List.append_nil]
  · obtain ⟨b, more, rfl⟩ := List.exists_cons_of_ne_nil hne
    simp [statesMargin, startsWith, hall b List.mem_cons_self]

/-- A text that a literal block may hold is read back. -/
theorem block_literal {c : Cursor} {cs next : List Char} (hwritten : c.rest = writeAs .literal cs ++ next)
    (hcs : allowsBlock cs = true) (hnext : BeginsWord next) :
    ∃ c', block false 1 c = some (String.ofList cs, c') ∧ c'.rest = next ∧ c'.column = 0 ∧ c.line < c'.line := by
  simp only [allowsBlock, Bool.not_eq_true', Bool.or_eq_false_iff] at hcs
  obtain ⟨⟨⟨hne, -⟩, -⟩, hescapes⟩ := hcs
  have hne : cs ≠ [] := by simpa using hne
  have hprint := isPrintable_addedBreak hescapes
  have h : c.rest = literalHeader cs ++ '\n' :: (literalLines true (cs ++ addedBreak cs) ++ next) := by
    rw [hwritten, literalLines_addedBreak]
    simp [writeAs, addedBreak]
  obtain ⟨c₁, hrest₁, hcolumn₁, hline₁, hread⟩ := block_eq h
  have hends := endsWith_addedBreak cs
  obtain ⟨breaks, rest, hcut, hbreaks, hrest⟩ := exists_run isBreak (cs ++ addedBreak cs)
  rw [hcut] at hrest₁ hprint hends
  rw [literalLines_breaks hbreaks, List.append_assoc] at hrest₁
  cases rest with
  | nil =>
    -- nothing but breaks, all of them kept
    obtain ⟨rfl, hstates⟩ := eq_of_addedBreak hne (hcut.trans (List.append_nil breaks)) hbreaks
    obtain ⟨c₂, hempty, hat, hline₂⟩ := emptyLines_written hrest₁ hcolumn₁ hprint hbreaks hrest hnext (Or.inl rfl)
    have hcolumn : c₂.column = 0 := hat.column
    refine ⟨c₂, ?_, hat.rest, hcolumn, Nat.lt_of_lt_of_le hline₁ hline₂⟩
    rw [hread, chompingOf_breaks hbreaks hne, hstates, if_pos rfl, hempty]
    simp [blockLines, hcolumn]
  | cons a rest =>
    have hstates : (if statesMargin cs then some 2 else none) = some 2 ∨
        (if statesMargin cs then some 2 else none) = none ∧ ∀ d ∈ (a :: rest).head?, d ≠ ' ' := by
      rcases statesMargin_or_ne_space hne hcut hbreaks with hmargin | ⟨hmargin, ha⟩
      · exact Or.inl (if_pos hmargin)
      · exact Or.inr ⟨if_neg (Bool.eq_false_iff.mp hmargin), fun d hd => Option.some.inj hd ▸ ha⟩
    obtain ⟨c₂, hempty, hat, hline₂⟩ := emptyLines_written hrest₁ hcolumn₁ hprint hbreaks hrest hnext hstates
    have hlength : (a :: rest).length < c₁.rest.length + 1 := by
      have hlen := length_le_literalLines true (a :: rest)
      rw [hrest₁]
      simp only [List.length_append]
      omega
    rw [endsWith_append _ (List.cons_ne_nil _ _)] at hends
    obtain ⟨c', body, b, more, blank, hend, hlines, hrest', hcol', hline'⟩ := blockLines_written hnext (a :: rest)
      (c₁.rest.length + 1) { breaks } hat (fun d hd => hprint d (List.mem_append_right _ hd)) hrest
      (List.cons_ne_nil _ _) hends hlength
    have hwhole : EndsIn (cs ++ addedBreak cs) (breaks ++ body) b more := hcut ▸ hend.append breaks
    have hindent : (if statesMargin cs then 2 else max (max (if a :: rest = [] then 0 else 2) 1) 1) = 2 := by
      split <;> simp
    refine ⟨c', ?_, hrest', hcol', by omega⟩
    rw [hread, hempty]
    simp only [hindent, hlines, List.nil_append]
    exact congrArg (fun text => some (String.ofList text, c')) hwhole.chomped

end TaintAlias.Yaml
