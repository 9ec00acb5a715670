/-
  TaintAlias.Proofs.Yaml.Lines — written lines are cut into the tokens they stand for.

  In front of a line of the outermost mapping a scanner has no candidate and allows keys,
  and what it read before shows only in the tokens it still holds (`AtLine`). From there a
  text gives the same tokens whatever these are (`Gives`). So the tokens of a text are put
  together from its end (`gives_end`) backwards: an entry with a plain value
  (`gives_entry`), with the empty sequence (`givesValue_none`), with the items on the next
  lines (`gives_key`), and an item in whatever style it is written (`gives_item`). Each
  costs at most as many steps as it has characters, so the fuel never runs out.
-/

import TaintAlias.Proofs.Yaml.Scalar.Write
import TaintAlias.Yaml.Token.Scan

namespace TaintAlias.Yaml

/-! ## Content -/

/-- Not white space, a comment or a byte order mark. -/
def beginsContent (a : Char) : Bool := !(isBlank a || isBreak a || a == '#' || a == '\ufeff')

def BeginsContent (cs : List Char) : Prop := ∀ a ∈ cs.head?, beginsContent a = true

theorem beginsContent_cons {a : Char} (h : beginsContent a = true) (cs : List Char) : BeginsContent (a :: cs) := by
  intro b hb
  cases hb
  exact h

theorem BeginsContent.beginsWord {cs : List Char} (h : BeginsContent cs) : BeginsWord cs := by
  intro a ha
  have hcontent := h a ha
  simp only [beginsContent, Bool.not_eq_true', Bool.or_eq_false_iff] at hcontent
  exact hcontent.1.1

theorem dropComment_of_content {c : Cursor} (h : BeginsContent c.rest) : c.dropComment = c := by
  have hhash : (c.head? == some '#') = false := by
    rw [beq_eq_false_iff_ne]
    intro hc
    have hcontent := h '#' hc
    revert hcontent
    decide
  rw [Cursor.dropComment, hhash]
  rfl

theorem atBreak_of_content {c : Cursor} (h : BeginsContent c.rest) : c.atBreak = false := by
  cases hc : c.head? with
  | none => simp [Cursor.atBreak, hc]
  | some a => simp [Cursor.atBreak, hc, (h.beginsWord a hc).2]

namespace Scanner

/-- Spaces in front of content are skipped. -/
theorem toContentFrom_spaces (flow allowed : Bool) (fuel : Nat) {c : Cursor} {n : Nat} {d : List Char}
    (h : c.rest = List.replicate n ' ' ++ d) (hd : BeginsContent d) :
    toContentFrom flow (fuel + 1) c allowed = (c.advance n, allowed) := by
  have hmark : (c.head? == some '\ufeff') = false := by
    rw [beq_eq_false_iff_ne]
    intro hc
    cases n with
    | zero =>
      have hcontent := hd '\ufeff' (by simpa [Cursor.head?, h] using hc)
      revert hcontent
      decide
    | succ n => simp [Cursor.head?, h, List.replicate_succ] at hc
  have hspaces : c.dropWhile (fun a => a == ' ' || ((flow || !allowed) && a == '\t')) = c.advance n := by
    have hstop : d.takeWhile (fun a => a == ' ' || ((flow || !allowed) && a == '\t')) = [] := by
      cases d with
      | nil => rfl
      | cons a d =>
        have hblank := (hd.beginsWord a rfl).1
        simp only [isBlank, Bool.or_eq_false_iff] at hblank
        simp [hblank.1, hblank.2]
    rw [Cursor.dropWhile, h, List.takeWhile_append_of_pos (by simp), hstop]
    simp
  have hrest : (c.advance n).rest = d := by
    have hrest := Cursor.rest_advance h
    rwa [List.length_replicate] at hrest
  simp only [toContentFrom, hmark, Bool.and_false, Bool.false_eq_true, if_false, hspaces]
  rw [dropComment_of_content (by rw [hrest]; exact hd), atBreak_of_content (by rw [hrest]; exact hd)]
  rfl

/-- Behind a line feed keys are allowed. -/
theorem toContentFrom_feed (allowed : Bool) (fuel : Nat) {c : Cursor} {d : List Char} (h : c.rest = '\n' :: d) :
    toContentFrom false (fuel + 1) c allowed = toContentFrom false fuel c.nextLine true := by
  have hhead : c.head? = some '\n' := by simp [Cursor.head?, h]
  have hmark : (c.head? == some '\ufeff') = false := by simp [hhead]
  have hspaces : c.dropWhile (fun a => a == ' ' || ((false || !allowed) && a == '\t')) = c := by
    simp [Cursor.dropWhile, h]
  have hcomment : c.dropComment = c := by simp [Cursor.dropComment, hhead]
  have hbreak : c.atBreak = true := by rw [Cursor.atBreak, hhead]; rfl
  simp only [toContentFrom, hmark, Bool.and_false, Bool.false_eq_true, if_false, hspaces, hcomment, hbreak, if_true,
    Bool.not_false, Bool.or_true]

/-! ## Steps -/

theorem closeFrom_of_le {least floor : Nat} (h : floor ≤ least) (outer : List Nat) :
    closeFrom least floor outer = (floor, outer, []) := by
  cases outer with
  | nil => rfl
  | cons o outer => simp [closeFrom, h]

theorem close_of_le {s : Scanner} {least : Nat} (h : s.floor ≤ least) : s.close least = s := by
  unfold close
  split
  · rfl
  · rw [closeFrom_of_le h]
    simp

theorem dropLapsed_eq {s : Scanner} (hlevels : ∀ k ∈ s.levels, k = none)
    (h : ∀ k ∈ s.candidate, k.hasLapsed s.cursor = true → k.required = false) :
    s.dropLapsed = some { s with candidate := lapse s.cursor s.candidate } := by
  have hany : (s.candidate :: s.levels).any (·.any fun k => k.hasLapsed s.cursor && k.required) = false := by
    rw [List.any_cons, Bool.or_eq_false_iff]
    constructor
    · cases hk : s.candidate with
      | none => rfl
      | some k =>
        have hlapsed := h k hk
        cases hl : k.hasLapsed s.cursor with
        | false => simp [hl]
        | true => simp [hlapsed hl]
    · rw [List.any_eq_false]
      intro k hk
      simp [hlevels k hk]
  have hmap : s.levels.map (lapse s.cursor) = s.levels := by
    conv_rhs => rw [← List.map_id s.levels]
    refine List.map_congr_left fun k hk => ?_
    rw [hlevels k hk]
    rfl
  rw [dropLapsed, hany, hmap]
  rfl

theorem step_of_next {s s' s'' : Scanner} (h : s.toContent.dropLapsed = some s')
    (hfloor : s'.floor ≤ s'.cursor.column + 1) (hcut : s'.isCut = false) (hnext : s'.next = some s'') (hcut' : s''.isCut = false) :
    s.step = s''.dropLapsed := by
  simp [step, h, nearsCut, hcut, close_of_le hfloor, hnext, hcut']

/-- One step, before the last: the tokens that are ready are handed out. -/
theorem tokensFrom_succ {s s' : Scanner} (h : s.step = some s') {n : Nat} (hready : s'.ready = n)
    (hlast : s'.pending.getLast? ≠ some .streamEnd) (fuel : Nat) :
    tokensFrom (fuel + 1) s =
      s'.pending.take n ++
        tokensFrom fuel { s' with pending := s'.pending.drop n, passed := s'.passed + n } := by
  have hlast : (s'.pending.getLast? == some .streamEnd) = false := beq_eq_false_iff_ne.mpr hlast
  subst hready
  simp only [tokensFrom, h, hlast, Bool.false_eq_true, if_false]

/-! ## In a block -/

/-- Outside flow collections and without a candidate, in front of the mapping at the first
    column or in it. -/
def inBlock (opened keyAllowed : Bool) (c : Cursor) (passed : Nat) (pending : List Token) : Scanner where
  cursor := c
  floor := if opened then 1 else 0
  outer := if opened then [0] else []
  keyAllowed
  passed
  pending

variable {opened keyAllowed : Bool} {c : Cursor} {passed fuel : Nat} {pending : List Token}

/-- The scanner comes to stand on content like one in a block. -/
def Stands (s : Scanner) (opened keyAllowed : Bool) (c : Cursor) (passed : Nat) (pending : List Token) : Prop :=
  s.toContent.dropLapsed = some (inBlock opened keyAllowed c passed pending)

theorem dropLapsed_inBlock :
    (inBlock opened keyAllowed c passed pending).dropLapsed = some (inBlock opened keyAllowed c passed pending) :=
  rfl

theorem stands_spaces {n : Nat} {d : List Char} (h : c.rest = List.replicate n ' ' ++ d) (hd : BeginsContent d) :
    (inBlock opened keyAllowed c passed pending).Stands opened keyAllowed (c.advance n) passed pending := by
  have hcontent := toContentFrom_spaces false keyAllowed c.rest.length h hd
  rw [Stands, ← dropLapsed_inBlock]
  exact congrArg dropLapsed (by simp only [toContent, inBlock, inFlow, List.isEmpty_nil, Bool.not_true, hcontent])

theorem Stands.step {s s' : Scanner} (h : s.Stands opened keyAllowed c passed pending)
    (hnext : (inBlock opened keyAllowed c passed pending).next = some s') (hcut : s'.isCut = false) :
    s.step = s'.dropLapsed := by
  refine step_of_next h ?_ rfl hnext hcut
  simp only [inBlock]
  split <;> omega

/-- All tokens are handed out where there is no candidate. -/
theorem tokensFrom_of_step {s : Scanner} (h : s.step = some (inBlock opened keyAllowed c passed pending))
    (hlast : pending.getLast? ≠ some .streamEnd) :
    tokensFrom (fuel + 1) s =
      pending ++ tokensFrom fuel (inBlock opened keyAllowed c (passed + pending.length) []) := by
  have hready : (inBlock opened keyAllowed c passed pending).ready = pending.length := rfl
  rw [tokensFrom_succ h (n := pending.length) hready hlast]
  simp [inBlock]

theorem Stands.tokensFrom {s : Scanner} {opened' keyAllowed' : Bool} {c' : Cursor} {pending' : List Token}
    (hs : s.Stands opened keyAllowed c passed pending)
    (hnext : (inBlock opened keyAllowed c passed pending).next = some (inBlock opened' keyAllowed' c' passed pending'))
    (hlast : pending'.getLast? ≠ some .streamEnd) :
    tokensFrom (fuel + 1) s =
      pending' ++ Yaml.tokensFrom fuel (inBlock opened' keyAllowed' c' (passed + pending'.length) []) :=
  tokensFrom_of_step ((hs.step hnext rfl).trans dropLapsed_inBlock) hlast

/-! ## Plain scalars -/

/-- What a text that may be written plain begins with begins a plain scalar, whatever follows
    the text. -/
theorem beginsPlain_of_allowsPlain {a : Char} {cs : List Char} (h : allowsPlain (a :: cs) = true) (stop : List Char) :
    ((a == '?' || a == ':' || a == '-') && endsWord (cs ++ stop)) = false ∧
      beginsPlain false (a :: (cs ++ stop)) = true := by
  obtain ⟨-, hbegins, houter⟩ := isPlainText_of_allowsPlain h
  obtain ⟨hblank, hbreak⟩ := hbegins a rfl
  simp only [hasOuterMark, Bool.or_eq_false_iff] at houter
  obtain ⟨⟨⟨hindicator, hmark⟩, -⟩, -⟩ := houter
  have hends : (a == '?' || a == ':' || a == '-') = true → endsWord (cs ++ stop) = false := by
    intro ha
    rw [ha, Bool.true_and] at hmark
    cases cs with
    | nil => cases hmark
    | cons b cs => exact hmark
  refine ⟨?_, ?_⟩
  · cases ha : a == '?' || a == ':' || a == '-' with
    | false => rfl
    | true => rw [hends ha]; rfl
  · unfold beginsPlain
    split
    case h_1 heq => cases heq
    case h_2 heq =>
      obtain ⟨rfl, rfl⟩ := List.cons.inj heq
      have hword := hends rfl
      cases hstop : cs ++ stop with
      | nil => rfl
      | cons b ds =>
        rw [hstop, endsWord, Bool.or_eq_false_iff] at hword
        simp [hword.1]
    case h_5 heq =>
      obtain ⟨rfl, rfl⟩ := List.cons.inj heq
      simp [hblank, hbreak, hindicator]
    all_goals
      rename_i heq
      obtain ⟨rfl, rfl⟩ := List.cons.inj heq
      simp [hends rfl]

/-- A plain scalar begins at a letter, or further in a line at whatever may begin one. -/
theorem next_plain {a : Char} {cs stop : List Char} (h : c.rest = a :: (cs ++ stop))
    (hcs : allowsPlain (a :: cs) = true) (hcolumn : 0 < c.column ∨ a ≠ '-' ∧ a ≠ '.') :
    (inBlock opened keyAllowed c passed pending).next = (inBlock opened keyAllowed c passed pending).plain := by
  obtain ⟨hmark, hplain⟩ := beginsPlain_of_allowsPlain hcs stop
  obtain ⟨-, -, houter⟩ := isPlainText_of_allowsPlain hcs
  simp only [hasOuterMark, isIndicator, isFlowMark, Bool.or_eq_false_iff] at houter
  simp only [Bool.and_or_distrib_right, Bool.or_eq_false_iff] at hmark
  have hline : ∀ m, m = '-' ∨ m = '.' → c.atLineOf m = false := by
    intro m hm
    rcases hcolumn with hpos | hne
    · have hzero : (c.column == 0) = false := beq_eq_false_iff_ne.mpr (by omega)
      simp [Cursor.atLineOf, hzero]
    · have ha : a ≠ m := by rcases hm with rfl | rfl <;> simp [hne]
      simp [Cursor.atLineOf, h, ha]
  have hflow : (inBlock opened keyAllowed c passed pending).inFlow = false := rfl
  have hcursor : (inBlock opened keyAllowed c passed pending).cursor = c := rfl
  simp only [next, hcursor, h, hflow, houter, hline, hmark, hplain, Bool.and_false, Bool.false_and, Bool.false_or,
    Bool.false_eq_true, if_false, if_true, true_or, or_true]

/-! ## Candidates -/

/-- The candidate in front of the token of a given number. -/
def candidateAt (opened : Bool) (c : Cursor) (number : Nat) : Candidate :=
  ⟨c.index, c.line, c.column, number, (if opened then 1 else 0) == c.column + 1⟩

/-- In a block and with a candidate. -/
def holding (k : Candidate) (opened keyAllowed : Bool) (c : Cursor) (passed : Nat) (pending : List Token) : Scanner :=
  { inBlock opened keyAllowed c passed pending with candidate := some k }

theorem saveCandidate_allowed :
    (inBlock opened true c passed pending).saveCandidate =
      some (holding (candidateAt opened c (passed + pending.length)) opened true c passed pending) :=
  rfl

theorem saveCandidate_forbidden :
    (inBlock opened false c passed pending).saveCandidate = some (inBlock opened false c passed pending) :=
  rfl

variable {k : Candidate}

theorem dropLapsed_kept (h : k.hasLapsed c = false) :
    (holding k opened keyAllowed c passed pending).dropLapsed =
      some (holding k opened keyAllowed c passed pending) := by
  rw [dropLapsed_eq (fun _ hk => by cases hk) fun k' hk hlapsed => ?_]
  · simp [lapse, holding, inBlock, h]
  · obtain rfl := Option.some.inj hk
    exact absurd hlapsed (by simp [holding, inBlock, h])

theorem dropLapsed_gone (h : k.hasLapsed c = true) (hrequired : k.required = false) :
    (holding k opened keyAllowed c passed pending).dropLapsed =
      some (inBlock opened keyAllowed c passed pending) := by
  rw [dropLapsed_eq (fun _ hk => by cases hk) fun k' hk _ => ?_]
  · simp [lapse, holding, inBlock, h]
  · obtain rfl := Option.some.inj hk
    exact hrequired

/-- The tokens from the candidate on are held back. -/
theorem tokensFrom_of_holding {s : Scanner} {t : Token} (ht : t ≠ .streamEnd)
    (h : s.step = some (holding k opened keyAllowed c passed (pending ++ [t])))
    (hk : k.number = passed + pending.length) :
    tokensFrom (fuel + 1) s =
      pending ++ tokensFrom fuel (holding k opened keyAllowed c (passed + pending.length) [t]) := by
  have hready : (holding k opened keyAllowed c passed (pending ++ [t])).ready = pending.length := by
    simp [ready, holding, inBlock, hk]
  rw [tokensFrom_succ h hready (by simp [holding, inBlock, ht])]
  simp [holding, inBlock]

/-! ## Keys -/

/-- What the lines of the mapping begin with. -/
structure IsKey (cs : List Char) : Prop where
  plain : allowsPlain cs = true
  word : startsWith Char.isLower cs = true
  short : Cursor.octetCount cs ≤ 1024

theorem IsKey.exists_cons {cs : List Char} (h : IsKey cs) : ∃ a ds, cs = a :: ds ∧ a ≠ '-' ∧ a ≠ '.' := by
  have hword := h.word
  cases cs with
  | nil => cases hword
  | cons a ds =>
    have hlower : a.isLower = true := hword
    refine ⟨a, ds, rfl, ?_, ?_⟩ <;>
      · rintro rfl
        revert hlower
        decide

instance (cs : List Char) : Decidable (IsKey cs) :=
  decidable_of_iff (allowsPlain cs = true ∧ startsWith Char.isLower cs = true ∧ Cursor.octetCount cs ≤ 1024)
    ⟨fun ⟨hplain, hword, hshort⟩ => ⟨hplain, hword, hshort⟩, fun h => ⟨h.plain, h.word, h.short⟩⟩

theorem IsKey.ne_nil {cs : List Char} (h : IsKey cs) : cs ≠ [] := by
  rintro rfl
  cases h.word

theorem not_hasLapsed {key stop : List Char} (hkey : IsKey key) (h : c.rest = key ++ stop) (number : Nat) :
    (candidateAt opened c number).hasLapsed (c.advance key.length) = false := by
  have hindex := Cursor.index_advance h
  have hshort := hkey.short
  simp [Candidate.hasLapsed, candidateAt, hindex, hshort]

/-- The scalar of a key is a candidate. -/
theorem step_key {s : Scanner} (hs : s.Stands opened true c passed pending) {key stop : List Char}
    (hkey : IsKey key) (h : c.rest = key ++ ':' :: stop) (hstop : endsWord stop = true) :
    s.step = some (holding (candidateAt opened c (passed + pending.length)) opened false (c.advance key.length) passed
      (pending ++ [.scalar (String.ofList key) .plain])) := by
  obtain ⟨a, cs, rfl, ha⟩ := hkey.exists_cons
  have hread : Yaml.plain false (if opened then 1 else 0) c = _ := plain_key h hkey.plain hstop (by split <;> omega)
  have hnext : (inBlock opened true c passed pending).next =
      some (holding (candidateAt opened c (passed + pending.length)) opened false (c.advance (a :: cs).length) passed
        (pending ++ [.scalar (String.ofList (a :: cs)) .plain])) := by
    rw [next_plain h hkey.plain (Or.inr ha), plain, saveCandidate_allowed]
    simp only [inBlock, inFlow, List.isEmpty_nil, Bool.not_true, hread]
    rfl
  rw [hs.step hnext rfl, dropLapsed_kept (not_hasLapsed hkey h _)]

/-- What the mark behind the first key of the mapping opens. -/
def opening (opened : Bool) : List Token := if opened then [] else [.blockMapping]

theorem value_holding {t : Token} (hk : k.number = passed) (hcolumn : k.column = 0) :
    (holding k opened keyAllowed c passed [t]).value =
      some (inBlock true false (c.advance 1) passed (opening opened ++ [.key, t, .value])) := by
  cases opened <;>
    simp [value, holding, inBlock, insertAt, openAt, inFlow, mark, push, opening, hk, hcolumn]

/-- The colon makes it a key. -/
theorem step_colon {t : Token} (hk : k.number = passed) (hcolumn : k.column = 0) (hlapsed : k.hasLapsed c = false)
    (hpos : 0 < c.column) {stop : List Char} (h : c.rest = ':' :: stop) (hstop : endsWord stop = true) :
    (holding k opened false c passed [t]).step =
      some (inBlock true false (c.advance 1) passed (opening opened ++ [.key, t, .value])) := by
  have hcontent : BeginsContent c.rest := h ▸ beginsContent_cons (by decide) _
  have hskip := toContentFrom_spaces (n := 0) false false c.rest.length rfl hcontent
  have hstands : (holding k opened false c passed [t]).toContent = holding k opened false c passed [t] := by
    simp only [toContent, holding, inBlock, inFlow, List.isEmpty_nil, Bool.not_true, hskip, Cursor.advance_zero]
  have hnext : (holding k opened false c passed [t]).next = (holding k opened false c passed [t]).value := by
    have hzero : (c.column == 0) = false := beq_eq_false_iff_ne.mpr (by omega)
    have hcursor : (holding k opened false c passed [t]).cursor = c := rfl
    simp [next, hcursor, h, hzero, Cursor.atLineOf, hstop]
  rw [@step_of_next _ (holding k opened false c passed [t]) _ (by rw [hstands, dropLapsed_kept hlapsed]) ?_ rfl
    (hnext.trans (value_holding hk hcolumn)) rfl, dropLapsed_inBlock]
  simp only [holding, inBlock]
  split <;> omega

/-! ## The empty sequence -/

/-- Behind the bracket that begins a sequence. -/
def inSequence (c : Cursor) (passed : Nat) (pending : List Token) : Scanner :=
  { inBlock true true c passed pending with levels := [none] }

theorem step_sequence {s : Scanner} (hs : s.Stands true false c passed pending) {d : List Char}
    (h : c.rest = '[' :: d) :
    s.step = some (inSequence (c.advance 1) passed (pending ++ [.flowSequence])) := by
  have hnext : (inBlock true false c passed pending).next =
      some (inSequence (c.advance 1) passed (pending ++ [.flowSequence])) := by
    simp [next, inSequence, inBlock, h, Cursor.atLineOf, flowStart, saveCandidate, mark, push]
  exact hs.step hnext rfl

theorem step_sequenceEnd {d : List Char} (h : c.rest = ']' :: d) :
    (inSequence c passed pending).step =
      some (inBlock true false (c.advance 1) passed (pending ++ [.flowSequenceEnd])) := by
  have hcontent : BeginsContent c.rest := h ▸ beginsContent_cons (by decide) _
  have hskip : toContentFrom true (c.rest.length + 1) c true = (c.advance 0, true) :=
    toContentFrom_spaces true true _ rfl hcontent
  have hstands : (inSequence c passed pending).toContent = inSequence c passed pending := by
    simp [toContent, inSequence, inBlock, inFlow, hskip]
  have hnext : (inSequence c passed pending).next =
      some (inBlock true false (c.advance 1) passed (pending ++ [.flowSequenceEnd])) := by
    simp [next, inSequence, inBlock, h, Cursor.atLineOf, flowEnd, dropCandidate, mark, push]
  rw [@step_of_next _ (inSequence c passed pending) _ (by rw [hstands]; rfl) ?_ rfl hnext rfl, dropLapsed_inBlock]
  simp [inSequence, inBlock]

theorem tokensFrom_of_inSequence {s : Scanner} (h : s.step = some (inSequence c passed pending))
    (hlast : pending.getLast? ≠ some .streamEnd) :
    tokensFrom (fuel + 1) s = pending ++ tokensFrom fuel (inSequence c (passed + pending.length) []) := by
  have hready : (inSequence c passed pending).ready = pending.length := rfl
  rw [tokensFrom_succ h hready hlast]
  simp [inSequence, inBlock]

/-! ## Lines -/

/-- In front of a line with keys, or of the end. -/
def AtLine (s : Scanner) (opened : Bool) (next : List Char) (pending : List Token) : Prop :=
  ∃ c passed, s.Stands opened true c passed pending ∧ c.rest = next ∧ c.column = 0

theorem atLine_inBlock {next : List Char} (h : c.rest = next) (hnext : BeginsContent next) (hcolumn : c.column = 0) :
    (inBlock opened true c passed pending).AtLine opened next pending := by
  have hstands : (inBlock opened true c passed pending).Stands opened true (c.advance 0) passed pending :=
    stands_spaces h hnext
  rw [Cursor.advance_zero] at hstands
  exact ⟨c, passed, hstands, h, hcolumn⟩

theorem toContent_feed {s : Scanner} {next : List Char} (hflow : s.inFlow = false) (h : s.cursor.rest = '\n' :: next)
    (hnext : BeginsContent next) :
    s.toContent = { s with cursor := s.cursor.nextLine, keyAllowed := true } := by
  have hline := Cursor.nextLine_of_break h (by decide) (by decide)
  have hlen : s.cursor.rest.length + 1 = next.length + 1 + 1 := by rw [h]; rfl
  have hskip : toContentFrom false (next.length + 1) s.cursor.nextLine true = (s.cursor.nextLine.advance 0, true) :=
    toContentFrom_spaces false true next.length (by rw [hline]; rfl) hnext
  simp only [toContent, hflow, hlen, toContentFrom_feed s.keyAllowed (next.length + 1) h, hskip, Cursor.advance_zero]

/-- At the end of a line. -/
theorem atLine_feed {next : List Char} (h : c.rest = '\n' :: next) (hnext : BeginsContent next) :
    (inBlock opened keyAllowed c passed pending).AtLine opened next pending := by
  have hline := Cursor.nextLine_of_break h (by decide) (by decide)
  refine ⟨c.nextLine, passed, ?_, by rw [hline], by rw [hline]⟩
  rw [Stands, toContent_feed rfl h hnext]
  exact dropLapsed_inBlock

/-- No candidate outlives its line. -/
theorem atLine_feed_holding {next : List Char} (h : c.rest = '\n' :: next) (hnext : BeginsContent next)
    (hk : k.line ≤ c.line) (hrequired : k.required = false) :
    (holding k opened keyAllowed c passed pending).AtLine opened next pending := by
  have hline := Cursor.nextLine_of_break h (by decide) (by decide)
  refine ⟨c.nextLine, passed, ?_, by rw [hline], by rw [hline]⟩
  have hlapsed : k.hasLapsed c.nextLine = true := by
    have hlt : k.line < c.nextLine.line := by
      rw [hline]
      exact Nat.lt_succ_of_le hk
    simp [Candidate.hasLapsed, hlt]
  rw [Stands, toContent_feed rfl h hnext]
  exact dropLapsed_gone hlapsed hrequired

end Scanner

open Scanner

/-! ## Tokens -/

/-- What a text gives from the start of a line on, behind the tokens not handed out yet. -/
def Gives (opened : Bool) (next : List Char) (ts : List Token) : Prop :=
  ∀ s pending fuel, AtLine s opened next pending → next.length + 2 ≤ fuel → tokensFrom fuel s = pending ++ ts

/-- What a text gives behind the colon of a key. -/
def GivesValue (stop : List Char) (ts : List Token) : Prop :=
  ∀ c passed fuel, c.rest = stop → stop.length + 2 ≤ fuel →
    tokensFrom fuel (inBlock true false c passed []) = ts

variable {next : List Char} {ts : List Token}

/-- The end of the text ends the mapping. -/
theorem gives_end : Gives true [] [.blockEnd, .streamEnd] := by
  rintro s pending fuel ⟨c, passed, hs, hrest, hcolumn⟩ hfuel
  obtain ⟨fuel, rfl⟩ : ∃ n, fuel = n + 1 := ⟨fuel - 1, by omega⟩
  have hnext : (inBlock true true c passed pending).next =
      some { inBlock true false c passed (pending ++ [.blockEnd, .streamEnd]) with floor := 0, outer := [] } := by
    have hcursor : (inBlock true true c passed pending).cursor = c := rfl
    simp only [next, hcursor, hrest, streamEnd, hcolumn, if_true]
    simp [close, closeFrom, inBlock, inFlow, dropCandidate, push]
  have hstep := hs.step hnext rfl
  simp [tokensFrom, hstep, dropLapsed, inBlock, lapse]

/-- A key and what stands behind its colon. -/
theorem gives_key {opened : Bool} {key stop : List Char} (hkey : IsKey key) (hstop : endsWord stop = true)
    (h : GivesValue stop ts) :
    Gives opened (key ++ ':' :: stop)
      (opening opened ++ [.key, .scalar (String.ofList key) .plain, .value] ++ ts) := by
  rintro s pending fuel ⟨c, passed, hs, hrest, hcolumn⟩ hfuel
  obtain ⟨a, cs, hcons, -⟩ := hkey.exists_cons
  have hpos : 0 < key.length := by simp [hcons]
  simp only [List.length_append, List.length_cons] at hfuel
  obtain ⟨fuel, rfl⟩ : ∃ n, fuel = n + 1 + 1 := ⟨fuel - 2, by omega⟩
  have hcolon := @step_colon opened _ (passed + pending.length) (candidateAt opened c _)
    (.scalar (String.ofList key) .plain) rfl hcolumn (not_hasLapsed hkey hrest _)
    (by simp only [Cursor.advance_column]; omega) _ (Cursor.rest_advance hrest) hstop
  rw [tokensFrom_of_holding (by simp) (step_key hs hkey hrest hstop) rfl]
  refine congrArg (pending ++ ·) ?_
  rw [tokensFrom_of_step hcolon (by simp), h _ _ fuel (Cursor.rest_advance_one (Cursor.rest_advance hrest)) (by omega)]

theorem beginsContent_of_allowsPlain {cs : List Char} (h : allowsPlain cs = true) (hne : cs ≠ []) (ds : List Char) :
    BeginsContent (cs ++ ds) := by
  obtain ⟨htext, hbegins, houter⟩ := isPlainText_of_allowsPlain h
  obtain ⟨a, cs, rfl⟩ := List.exists_cons_of_ne_nil hne
  intro b hb
  obtain rfl := Option.some.inj hb
  obtain ⟨hblank, hbreak⟩ := hbegins a rfl
  have hmark : (a == '\ufeff') = false := by
    rw [beq_eq_false_iff_ne]
    rintro rfl
    have hprint := htext.printable _ List.mem_cons_self
    revert hprint
    decide
  simp only [hasOuterMark, isIndicator, Bool.or_eq_false_iff] at houter
  simp [beginsContent, hblank, hbreak, hmark, houter]

/-- A plain value to the end of its line. -/
theorem givesValue_plain {cs : List Char} (hcs : allowsPlain cs = true) (hne : cs ≠ []) (hnext : BeginsContent next)
    (h : Gives true next ts) :
    GivesValue (' ' :: (cs ++ '\n' :: next)) (.scalar (String.ofList cs) .plain :: ts) := by
  intro c passed fuel hrest hfuel
  simp only [List.length_append, List.length_cons] at hfuel
  obtain ⟨fuel, rfl⟩ : ∃ n, fuel = n + 1 := ⟨fuel - 1, by omega⟩
  have hs : (inBlock true false c passed []).Stands true false (c.advance 1) passed [] :=
    stands_spaces hrest (beginsContent_of_allowsPlain hcs hne _)
  obtain ⟨c', hread, hrest', hcolumn, -⟩ := plain_line (Cursor.rest_advance_one hrest) hcs hnext.beginsWord rfl
  obtain ⟨a, cs, rfl⟩ := List.exists_cons_of_ne_nil hne
  have hplain : (inBlock true false (c.advance 1) passed []).next =
      some (inBlock true true c' passed [.scalar (String.ofList (a :: cs)) .plain]) := by
    rw [next_plain (Cursor.rest_advance_one hrest) hcs (Or.inl (by simp)), Scanner.plain, saveCandidate_forbidden]
    simp only [inBlock, inFlow, List.isEmpty_nil, Bool.not_true, if_true, hread]
    rfl
  rw [hs.tokensFrom hplain (by simp), h _ _ fuel (atLine_inBlock hrest' hnext hcolumn) (by omega)]
  rfl

/-- Items on the lines below. -/
theorem givesValue_below (hnext : BeginsContent next) (h : Gives true next ts) : GivesValue ('\n' :: next) ts := by
  intro c passed fuel hrest hfuel
  simp only [List.length_cons] at hfuel
  exact h _ _ fuel (atLine_feed hrest hnext) (by omega)

/-- No items. -/
theorem givesValue_none (hnext : BeginsContent next) (h : Gives true next ts) :
    GivesValue (' ' :: '[' :: ']' :: '\n' :: next) (.flowSequence :: .flowSequenceEnd :: ts) := by
  intro c passed fuel hrest hfuel
  simp only [List.length_cons] at hfuel
  obtain ⟨fuel, rfl⟩ : ∃ n, fuel = n + 1 + 1 := ⟨fuel - 2, by omega⟩
  have hs : (inBlock true false c passed []).Stands true false (c.advance 1) passed [] :=
    stands_spaces hrest (beginsContent_cons (by decide) _)
  have hrest₁ := Cursor.rest_advance_one hrest
  have hrest₂ := Cursor.rest_advance_one hrest₁
  rw [tokensFrom_of_inSequence (step_sequence hs hrest₁) (by simp),
    tokensFrom_of_step (step_sequenceEnd hrest₂) (by simp),
    h _ _ fuel (atLine_feed (Cursor.rest_advance_one hrest₂) hnext) (by omega)]
  rfl

/-! ## Items -/

/-- Behind the mark of an item only a key further in could be required. -/
theorem required_candidateAt {c : Cursor} (h : 0 < c.column) (number : Nat) :
    (candidateAt true c number).required = false := by
  simp only [candidateAt, if_true, beq_eq_false_iff_ne]
  omega

section Item

variable {s : Scanner} {c : Cursor} {passed : Nat} (hs : s.Stands true true c passed []) (hcolumn : 0 < c.column)
  (hnext : BeginsContent next) (h : Gives true next ts) {fuel : Nat} (hfuel : next.length + 2 ≤ fuel)

include hs hnext h hfuel

theorem item_literal {cs : List Char} (hcs : allowsBlock cs = true) (hrest : c.rest = writeAs .literal cs ++ next) :
    tokensFrom (fuel + 1) s = .scalar (String.ofList cs) .literal :: ts := by
  obtain ⟨c', hread, hrest', hcolumn', -⟩ := block_literal hrest hcs hnext.beginsWord
  have hblock : (inBlock true true c passed []).next =
      some (inBlock true true c' passed [.scalar (String.ofList cs) .literal]) := by
    obtain ⟨d, hhead⟩ : ∃ d, c.rest = '|' :: d := ⟨_, hrest⟩
    have hread : Yaml.block false (inBlock true true c passed []).floor (inBlock true true c passed []).cursor =
        some (String.ofList cs, c') := hread
    have hmark : (inBlock true true c passed []).next = (inBlock true true c passed []).block false := by
      simp [Scanner.next, inBlock, hhead, Cursor.atLineOf, inFlow]
    rw [hmark, Scanner.block, hread]
    rfl
  rw [hs.tokensFrom hblock (by simp), h _ _ fuel (atLine_inBlock hrest' hnext hcolumn') hfuel]
  rfl

include hcolumn

theorem item_plain {cs : List Char} (hcs : allowsPlain cs = true) (hne : cs ≠ [])
    (hrest : c.rest = cs ++ '\n' :: next) : tokensFrom (fuel + 1) s = .scalar (String.ofList cs) .plain :: ts := by
  obtain ⟨c', hread, hrest', hcolumn', hline⟩ := plain_line hrest hcs hnext.beginsWord rfl
  obtain ⟨a, cs, rfl⟩ := List.exists_cons_of_ne_nil hne
  have hplain : (inBlock true true c passed []).next =
      some (holding (candidateAt true c passed) true true c' passed [.scalar (String.ofList (a :: cs)) .plain]) := by
    rw [next_plain hrest hcs (Or.inl hcolumn), Scanner.plain, saveCandidate_allowed]
    simp only [inBlock, inFlow, List.isEmpty_nil, Bool.not_true, if_true, hread]
    rfl
  have hlapsed : (candidateAt true c passed).hasLapsed c' = true := by
    simp [Candidate.hasLapsed, candidateAt, hline]
  have hstep := (hs.step hplain rfl).trans (dropLapsed_gone hlapsed (required_candidateAt hcolumn _))
  rw [tokensFrom_of_step hstep (by simp), h _ _ fuel (atLine_inBlock hrest' hnext hcolumn') hfuel]
  rfl

/-- A quoted scalar may still be a key at its end; the line feed decides that it is none. -/
theorem item_quoted {double : Bool} {text : String} {c' : Cursor} {d : List Char}
    (hquote : c.rest = (if double then '"' else '\'') :: d) (hread : Yaml.quoted double c = some (text, c'))
    (hrest' : c'.rest = '\n' :: next) (hline : c.line ≤ c'.line) :
    tokensFrom (fuel + 1) s = .scalar text (if double then .double else .single) :: ts := by
  have hquoted : (inBlock true true c passed []).next = some (holding (candidateAt true c passed) true false c' passed
      [.scalar text (if double then .double else .single)]) := by
    have hread : Yaml.quoted double (inBlock true true c passed []).cursor = some (text, c') := hread
    have hmark : (inBlock true true c passed []).next = (inBlock true true c passed []).quoted double := by
      cases double <;> simp [Scanner.next, inBlock, hquote, Cursor.atLineOf, inFlow]
    rw [hmark, Scanner.quoted, hread]
    simp only [content, saveCandidate_allowed]
    rfl
  have hstep := hs.step hquoted rfl
  have hrequired := required_candidateAt hcolumn passed
  cases hlapsed : (candidateAt true c passed).hasLapsed c' with
  | true =>
    rw [dropLapsed_gone hlapsed hrequired] at hstep
    rw [tokensFrom_of_step hstep (by simp), h _ _ fuel (atLine_feed hrest' hnext) hfuel]
    rfl
  | false =>
    rw [dropLapsed_kept hlapsed] at hstep
    rw [@tokensFrom_of_holding _ _ _ _ _ [] _ _ _ (by simp) hstep rfl,
      h _ _ fuel (atLine_feed_holding hrest' hnext hline hrequired) hfuel]
    rfl

/-- In whatever style it is written. -/
theorem item_scalar {text : String} (hrest : c.rest = writeScalar text ++ next) :
    tokensFrom (fuel + 1) s = .scalar text (styleOf text) :: ts := by
  have hofList : String.ofList text.toList = text := String.ofList_toList
  rcases styleOf_cases text with ⟨hstyle, hcs⟩ | ⟨hstyle, hcs, hne⟩ | ⟨hstyle, hcs, hfeed⟩ | hstyle
  · rw [writeScalar, hstyle] at hrest
    rw [item_literal hs hnext h hfuel hcs hrest, hstyle, hofList]
  · rw [writeScalar, hstyle, writeAs, List.append_assoc] at hrest
    rw [item_plain hs hcolumn hnext h hfuel hcs hne hrest, hstyle, hofList]
  · rw [writeScalar, hstyle] at hrest
    have hrest : c.rest = '\'' :: (singleLines false text.toList ++ '\'' :: '\n' :: next) := by
      rw [hrest]
      simp [writeAs]
    obtain ⟨c', hread, hrest', hline⟩ := quoted_single hrest hcs hfeed (by simp)
    rw [hofList] at hread
    rw [@item_quoted _ _ _ _ _ hs hcolumn hnext h _ hfuel false _ _ _ hrest hread hrest' hline, hstyle]
    rfl
  · rw [writeScalar, hstyle] at hrest
    have hrest : c.rest = '"' :: (text.toList.flatMap escaped ++ '"' :: '\n' :: next) := by
      rw [hrest]
      simp [writeAs]
    obtain ⟨c', hread, hrest', hline⟩ := quoted_double hrest
    rw [hofList] at hread
    rw [@item_quoted _ _ _ _ _ hs hcolumn hnext h _ hfuel true _ _ _ hrest hread hrest' hline, hstyle]
    rfl

end Item

/-- A scalar is content, in whatever style it is written. -/
theorem beginsContent_writeScalar (text : String) (next : List Char) : BeginsContent (writeScalar text ++ next) := by
  rcases styleOf_cases text with ⟨hstyle, -⟩ | ⟨hstyle, hcs, hne⟩ | ⟨hstyle, -⟩ | hstyle <;> rw [writeScalar, hstyle]
  case inr.inl =>
    rw [writeAs, List.append_assoc]
    exact beginsContent_of_allowsPlain hcs hne _
  all_goals exact beginsContent_cons (by decide) _

/-- An item and its mark. -/
theorem gives_item {text : String} (hnext : BeginsContent next) (h : Gives true next ts) :
    Gives true ('-' :: ' ' :: (writeScalar text ++ next)) (.blockEntry :: .scalar text (styleOf text) :: ts) := by
  rintro s pending fuel ⟨c, passed, hs, hrest, hcolumn⟩ hfuel
  simp only [List.length_cons, List.length_append] at hfuel
  obtain ⟨fuel, rfl⟩ : ∃ n, fuel = n + 1 + 1 := ⟨fuel - 2, by omega⟩
  have hentry : (inBlock true true c passed pending).next =
      some (inBlock true true (c.advance 1) passed (pending ++ [.blockEntry])) := by
    simp [Scanner.next, inBlock, hrest, Cursor.atLineOf, hcolumn, blockEntry, openHere, openAt, inFlow, dropCandidate,
      mark, push, endsWord, isBlank]
  have hrest₁ := Cursor.rest_advance_one hrest
  rw [hs.tokensFrom hentry (by simp), item_scalar (stands_spaces hrest₁ (beginsContent_writeScalar text next)) (by simp)
    hnext h (by omega) (Cursor.rest_advance_one hrest₁)]
  simp

/-- The items of a sequence. -/
theorem gives_items (texts : List String) (hnext : BeginsContent next) (h : Gives true next ts) :
    BeginsContent ((texts.flatMap fun text => '-' :: ' ' :: writeScalar text) ++ next) ∧
      Gives true ((texts.flatMap fun text => '-' :: ' ' :: writeScalar text) ++ next)
        ((texts.flatMap fun text => [.blockEntry, .scalar text (styleOf text)]) ++ ts) := by
  induction texts with
  | nil => exact ⟨hnext, h⟩
  | cons text texts ih =>
    simp only [List.flatMap_cons, List.cons_append, List.append_assoc, List.nil_append]
    exact ⟨beginsContent_cons (by decide) _, gives_item ih.1 ih.2⟩

/-- A key with a plain value. -/
theorem gives_entry {opened : Bool} {key value : List Char} (hkey : IsKey key) (hvalue : allowsPlain value = true)
    (hne : value ≠ []) (hnext : BeginsContent next) (h : Gives true next ts) :
    Gives opened (key ++ ':' :: ' ' :: (value ++ '\n' :: next))
      (opening opened ++
        [.key, .scalar (String.ofList key) .plain, .value, .scalar (String.ofList value) .plain] ++ ts) := by
  have hgives : Gives opened _ _ := gives_key hkey rfl (givesValue_plain hvalue hne hnext h)
  simpa using hgives

/-- The tokens of a text that begins with a line of the mapping. -/
theorem tokens_of_gives {text : List Char} (hallowed : ∀ a ∈ text, isAllowed a = true) (htext : BeginsContent text)
    (h : Gives false text ts) : tokens text = ts := by
  have hall : text.all isAllowed = true := List.all_eq_true.mpr hallowed
  have hline : AtLine { cursor := { rest := text } } false text [] :=
    @atLine_inBlock false { rest := text } 0 [] _ rfl htext rfl
  rw [tokens, if_pos hall]
  exact h _ [] _ hline (Nat.le_refl _)

end TaintAlias.Yaml
