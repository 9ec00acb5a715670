/-
  TaintAlias.Proofs.Yaml.Value — what a node stands for.

  Which nodes are a truth value, a number, a text, nothing, a list of texts or a variant is
  said here apart from how they are read: by the words for it (`truthWords`, `nullWords`), by
  the digits of a base (`Numeral`), and by the tag that names a variant (`IsVariant`). Each
  reader succeeds exactly on the nodes it is for, and with the value they stand for
  (`bool_eq_ok`, `word_eq_ok`, `option_eq_ok`, `list_text_eq_ok`, `choice_eq_ok`). On any
  other node it fails: an error is never taken for a value (`mismatch_ne_ok`).

  A list is the same wherever it stands only if none of its items is an alias
  (`Node.hasAlias`).
-/

import TaintAlias.Proofs.Number.Digits
import TaintAlias.Yaml.Decode

namespace TaintAlias.Yaml

/-! ## Words -/

def nullWords : List String := ["null", "Null", "NULL", "~"]

def truthWords : Bool → List String
  | true => ["true", "True", "TRUE"]
  | false => ["false", "False", "FALSE"]

theorem isNull_iff {s : String} : isNull s = true ↔ s ∈ nullWords := by
  simp [isNull, nullWords, or_assoc]

theorem truth?_eq_some {s : String} {b : Bool} : truth? s = some b ↔ s ∈ truthWords b := by
  have hapart : s ∈ truthWords true → s ∉ truthWords false := by
    simp only [truthWords, List.mem_cons, List.not_mem_nil, or_false]
    rintro (rfl | rfl | rfl) <;> decide
  have htrue : (s == "true" || s == "True" || s == "TRUE") = true ↔ s ∈ truthWords true := by
    simp [truthWords, or_assoc]
  have hfalse : (s == "false" || s == "False" || s == "FALSE") = true ↔ s ∈ truthWords false := by
    simp [truthWords, or_assoc]
  rw [truth?]
  simp only [htrue, hfalse]
  cases b with
  | true => by_cases h : s ∈ truthWords true <;> simp [h]
  | false => by_cases h : s ∈ truthWords true <;> simp [h, hapart]

/-! ## Numerals -/

/-- A decimal number without zeros in front, or a number in another base behind its mark. -/
inductive Numeral : List Char → Nat → Prop
  | decimal {cs : List Char} {n : Nat} (h : IsDigits 10 cs n) (hzero : ∀ rest, cs = '0' :: rest → rest = []) :
      Numeral cs n
  | hexadecimal {cs : List Char} {n : Nat} (h : IsDigits 16 cs n) : Numeral ('0' :: 'x' :: cs) n
  | octal {cs : List Char} {n : Nat} (h : IsDigits 8 cs n) : Numeral ('0' :: 'o' :: cs) n
  | binary {cs : List Char} {n : Nat} (h : IsDigits 2 cs n) : Numeral ('0' :: 'b' :: cs) n

/-- A numeral, with a plus sign or without. -/
def IsNatural (cs : List Char) (n : Nat) : Prop := Numeral cs n ∨ ∃ rest, cs = '+' :: rest ∧ Numeral rest n

variable {cs : List Char} {n : Nat}

theorem isDigit_of_isDigit {c : Char} {d : Nat} (h : IsDigit 10 c d) : c.isDigit = true := by
  have hwritten : ∀ d < 10, (Nat.digitChar d).isDigit = true ∧ (Nat.digitChar d).toUpper.isDigit = true := by
    decide
  obtain ⟨hd, rfl | rfl⟩ := h
  · exact (hwritten d hd).1
  · exact (hwritten d hd).2

theorem isDigit_of_isDigits (h : IsDigits 10 cs n) : ∀ c ∈ cs, c.isDigit = true := by
  obtain ⟨-, ds, hds, hn⟩ := h
  clear hn
  induction hds with
  | nil => exact fun c hc => nomatch hc
  | cons hd _ ih => exact List.forall_mem_cons.mpr ⟨isDigit_of_isDigit hd, ih⟩

/-- A numeral has no sign. -/
theorem Numeral.unsigned (h : Numeral cs n) : ∃ c rest, cs = c :: rest ∧ c ≠ '+' ∧ c ≠ '-' := by
  cases h with
  | decimal h _ =>
    obtain ⟨c, rest, rfl⟩ := List.exists_cons_of_ne_nil h.1
    have hc := isDigit_of_isDigits h c List.mem_cons_self
    refine ⟨c, rest, rfl, ?_, ?_⟩ <;> rintro rfl <;> cases hc
  | hexadecimal _ => exact ⟨_, _, rfl, by decide, by decide⟩
  | octal _ => exact ⟨_, _, rfl, by decide, by decide⟩
  | binary _ => exact ⟨_, _, rfl, by decide, by decide⟩

/-- Digits behind a leading zero are no numeral; the sign in front of them does not count. -/
theorem numeral_iff : hasLeadingZero ('+' :: cs) = false ∧ magnitude? cs = some n ↔ Numeral cs n := by
  constructor
  · rintro ⟨hlead, h⟩
    unfold magnitude? at h
    split at h
    · exact .hexadecimal ((number?_eq_some (by decide)).mp h)
    · exact .octal ((number?_eq_some (by decide)).mp h)
    · exact .binary ((number?_eq_some (by decide)).mp h)
    · have hdigits := (number?_eq_some (by decide)).mp h
      refine .decimal hdigits ?_
      rintro rest rfl
      by_contra hne
      obtain ⟨d, rest, rfl⟩ := List.exists_cons_of_ne_nil hne
      have hall : (d :: rest).all Char.isDigit = true :=
        List.all_eq_true.mpr fun e he => isDigit_of_isDigits hdigits e (List.mem_cons_of_mem _ he)
      exact Bool.noConfusion (hall.symm.trans hlead)
  · intro h
    cases h with
    | hexadecimal h => exact ⟨rfl, (number?_eq_some (by decide)).mpr h⟩
    | octal h => exact ⟨rfl, (number?_eq_some (by decide)).mpr h⟩
    | binary h => exact ⟨rfl, (number?_eq_some (by decide)).mpr h⟩
    | decimal h hzero =>
      have hlone (d : Char) (rest : List Char) : cs ≠ '0' :: d :: rest := fun he =>
        List.cons_ne_nil _ _ (hzero _ he)
      constructor
      · simp only [hasLeadingZero, unsigned]
      · unfold magnitude?
        split
        · exact absurd rfl (hlone _ _)
        · exact absurd rfl (hlone _ _)
        · exact absurd rfl (hlone _ _)
        · exact (number?_eq_some (by decide)).mpr h

theorem not_numeral_minus (cs : List Char) (n : Nat) : ¬ Numeral ('-' :: cs) n := by
  intro h
  obtain ⟨c, rest, he, -, hminus⟩ := h.unsigned
  cases he
  exact hminus rfl

theorem isNatural_plus : IsNatural ('+' :: cs) n ↔ Numeral cs n := by
  constructor
  · rintro (h | ⟨rest, he, h⟩)
    · obtain ⟨c, rest, he, hplus, -⟩ := h.unsigned
      cases he
      exact absurd rfl hplus
    · cases he
      exact h
  · exact fun h => .inr ⟨cs, rfl, h⟩

theorem isNatural_of_ne_plus (h : ∀ rest, cs ≠ '+' :: rest) : IsNatural cs n ↔ Numeral cs n :=
  ⟨fun hn => hn.resolve_right fun ⟨rest, he, _⟩ => h rest he, .inl⟩

theorem hasLeadingZero_plus (hplus : ∀ rest, cs ≠ '+' :: rest) (hminus : ∀ rest, cs ≠ '-' :: rest) :
    hasLeadingZero ('+' :: cs) = hasLeadingZero cs := by
  have hunsigned : unsigned cs = cs := by
    unfold unsigned
    split
    · exact absurd rfl (hplus _)
    · exact absurd rfl (hminus _)
    · rfl
  rw [hasLeadingZero.eq_def cs, hunsigned]
  rfl

theorem natural?_eq_some : natural? cs = some n ↔ IsNatural cs n := by
  have hguard (b : Bool) (x : Option Nat) : (if b then none else x) = some n ↔ b = false ∧ x = some n := by
    cases b <;> simp
  by_cases hplus : ∃ rest, cs = '+' :: rest
  · obtain ⟨rest, rfl⟩ := hplus
    have hread : natural? ('+' :: rest) = if hasLeadingZero ('+' :: rest) then none else magnitude? rest := rfl
    rw [hread, hguard, numeral_iff, isNatural_plus]
  · have hplus := not_exists.mp hplus
    have hread : natural? cs = if hasLeadingZero cs then none else magnitude? cs := by
      rw [natural?]
      exact hplus
    rw [hread, hguard, isNatural_of_ne_plus hplus]
    by_cases hminus : ∃ rest, cs = '-' :: rest
    · obtain ⟨rest, rfl⟩ := hminus
      have hnone : magnitude? ('-' :: rest) = none := rfl
      exact iff_of_false (by simp [hnone]) (not_numeral_minus rest n)
    · rw [← hasLeadingZero_plus hplus (not_exists.mp hminus), numeral_iff]

/-! ## Tags -/

namespace Tag

variable {t : Tag} {name : String}

theorem text?_eq_some : t.text? = some name ↔ t = ofText name := by
  obtain ⟨octets⟩ := t
  have hencode : name.toByteArray = ⟨(name.toList.flatMap String.utf8EncodeChar).toArray⟩ := by
    rw [← String.utf8Encode_toList, List.utf8Encode]
    exact ByteArray.ext List.data_toByteArray
  rw [text?, String.fromUTF8?, ofText, Tag.mk.injEq]
  constructor
  · intro h
    split at h
    · cases h
      simpa [String.fromUTF8] using hencode
    · cases h
  · rintro rfl
    rw [dif_pos (hencode ▸ name.isValidUTF8)]
    exact congrArg some (String.toByteArray_inj.mp hencode.symm)

theorem ofText_mark (name : String) : ofText ("!" ++ name) = ⟨mark :: (ofText name).octets⟩ := by
  simp only [ofText, String.toList_append, List.flatMap_append]
  rfl

theorem mark_eq_ofText {rest : List UInt8} :
    (⟨mark :: rest⟩ : Tag) = ofText ("!" ++ name) ↔ (⟨rest⟩ : Tag) = ofText name := by
  rw [ofText_mark, Tag.mk.injEq, List.cons.injEq, ofText, Tag.mk.injEq]
  exact and_iff_right rfl

theorem nil_eq_ofText : (⟨[]⟩ : Tag) = ofText name ↔ name = "" := by
  have hempty : text? ⟨[]⟩ = some "" := text?_eq_some.mpr rfl
  rw [← text?_eq_some, hempty, Option.some.injEq, eq_comm]

theorem isOwn_iff : t.isOwn = true ↔ ∃ rest, t = ⟨mark :: rest⟩ := by
  obtain ⟨octets⟩ := t
  cases octets with
  | nil => simp [isOwn]
  | cons o rest => simp [isOwn]

/-- A variant is named behind an exclamation mark, which alone is a name as well. -/
theorem variant?_eq_some :
    t.variant? = some name ↔ t = ofText ("!" ++ name) ∧ name ≠ "" ∨ t = ofText ("!" ++ "") ∧ name = "!" := by
  cases hown : t.isOwn with
  | false =>
    have hvariant : t.variant? = none := by simp [variant?, hown]
    have hne (s : String) : t ≠ ofText ("!" ++ s) := by
      rintro rfl
      rw [isOwn_iff.mpr ⟨_, ofText_mark s⟩] at hown
      cases hown
    rw [hvariant]
    refine iff_of_false (by simp) ?_
    rintro (⟨h, -⟩ | ⟨h, -⟩)
    · exact hne _ h
    · exact hne _ h
  | true =>
    obtain ⟨rest, rfl⟩ := isOwn_iff.mp hown
    rw [mark_eq_ofText, mark_eq_ofText]
    by_cases hrest : rest = []
    · subst hrest
      have hvariant : variant? ⟨[mark]⟩ = some "!" := by
        simpa [variant?, isOwn] using text?_eq_some.mpr (rfl : (⟨[mark]⟩ : Tag) = ofText "!")
      rw [hvariant, nil_eq_ofText, nil_eq_ofText]
      simp [eq_comm]
    · have hvariant : variant? ⟨mark :: rest⟩ = text? ⟨rest⟩ := by simp [variant?, isOwn, hrest]
      have hempty : (⟨rest⟩ : Tag) ≠ ofText "" := fun h => hrest (Tag.mk.inj h)
      rw [hvariant, text?_eq_some]
      constructor
      · intro h
        exact .inl ⟨h, fun hname => hempty (hname ▸ h)⟩
      · rintro (⟨h, -⟩ | ⟨h, -⟩)
        · exact h
        · exact absurd h hempty

/-- No variant is named by a tag that is not an exclamation mark and a text. -/
theorem variant?_eq_none : t.variant? = none ↔ ∀ name, t ≠ ofText ("!" ++ name) := by
  constructor
  · rintro h name rfl
    by_cases hname : name = ""
    · have hsome := variant?_eq_some.mpr (.inr ⟨congrArg (fun s => ofText ("!" ++ s)) hname, rfl⟩)
      rw [h] at hsome
      cases hsome
    · have hsome := variant?_eq_some.mpr (.inl ⟨rfl, hname⟩)
      rw [h] at hsome
      cases hsome
  · intro h
    refine Option.eq_none_iff_forall_ne_some.mpr fun name hname => ?_
    rcases variant?_eq_some.mp hname with ⟨ht, -⟩ | ⟨ht, -⟩
    · exact h name ht
    · exact h "" ht

end Tag

/-! ## Nodes -/

namespace Node

variable {α : Type}

/-- A scalar whose text may stand for something else: a plain one, or a literal one with the
    tag that says so. -/
inductive IsBare (tag : Tag) : Node → String → Prop
  | plain (p : Properties) (text : String) : IsBare tag (.scalar p text .plain) text
  | literal {p : Properties} (text : String) (htag : p.tag = some tag) : IsBare tag (.scalar p text .literal) text

def IsBool (n : Node) (b : Bool) : Prop := ∃ text ∈ truthWords b, n.IsBare .bool text

/-- A number of 64 bits. -/
def IsWord (n : Node) (w : UInt64) : Prop := ∃ text, n.IsBare .int text ∧ IsNatural text.toList w.toNat

inductive IsText : Node → String → Prop
  | scalar (p : Properties) (text : String) (style : Style) : IsText (.scalar p text style) text

/-- A sequence of texts; where nothing is written, there are none. -/
inductive IsTexts : Node → List String → Prop
  | sequence (p : Properties) {items : List Node} {texts : List String} (h : List.Forall₂ IsText items texts) :
      IsTexts (.sequence p items) texts
  | nothing (p : Properties) : IsTexts (.scalar p "" .plain) []

/-- Nothing, or a word for null, and no tag that says anything else. -/
inductive IsNothing : Node → Prop
  | empty {p : Properties} (htag : p.tag = none) : IsNothing (.scalar p "" .plain)
  | word {p : Properties} {text : String} (htag : p.tag = none ∨ p.tag = some .null) (hnull : text ∈ nullWords) :
      IsNothing (.scalar p text .plain)

/-- A plain scalar whose tag says that it is null. -/
inductive SaysNull : Node → Prop
  | tagged {p : Properties} (text : String) (htag : p.tag = some .null) : SaysNull (.scalar p text .plain)

/-- Nothing, or what `R` says of the node. -/
def IsOption (R : Node → α → Prop) (n : Node) : Option α → Prop
  | none => n.IsNothing
  | some a => R n a ∧ ¬ n.IsNothing ∧ ¬ n.SaysNull

/-- One of the named variants: its name as text, without a tag that names a variant, or such
    a tag in front of nothing. -/
inductive IsVariant (names : List (String × α)) : Node → α → Prop
  | text {p : Properties} {name : String} (style : Style) {a : α} (htag : ∀ s, p.tag ≠ some (.ofText ("!" ++ s)))
      (ha : (name, a) ∈ names) : IsVariant names (.scalar p name style) a
  | tag {p : Properties} {name text : String} {a : α} (htag : p.tag = some (.ofText ("!" ++ name)))
      (ha : (name, a) ∈ names) (htext : text ∈ "" :: nullWords) : IsVariant names (.scalar p text .plain) a

theorem IsNothing.text_mem {p : Properties} {text : String} {style : Style} (h : (scalar p text style).IsNothing) :
    text ∈ "" :: nullWords := by
  cases h with
  | empty _ => exact List.mem_cons_self
  | word _ hnull => exact List.mem_cons_of_mem _ hnull

mutual

/-- Whether an alias stands in the node. -/
def hasAlias : Node → Bool
  | .alias _ => true
  | .sequence _ items => itemsHaveAlias items
  | .mapping _ entries => entriesHaveAlias entries
  | .scalar .. | .fault => false

def itemsHaveAlias : List Node → Bool
  | [] => false
  | n :: rest => n.hasAlias || itemsHaveAlias rest

def entriesHaveAlias : List (Node × Node) → Bool
  | [] => false
  | (k, v) :: rest => k.hasAlias || v.hasAlias || entriesHaveAlias rest

end

end Node

/-! ## Readers -/

namespace Spot

variable {α : Type} {s : Spot}

/-- What does not fit is not read. -/
theorem mismatch_ne_ok (s : Spot) (expected : String) (a : α) : s.mismatch expected ≠ .ok a := by
  intro h
  unfold mismatch at h
  split at h
  · split at h <;> cases h
  all_goals cases h

theorem bareText?_eq_some {tag : Tag} {text : String} : s.bareText? tag = some text ↔ s.node.IsBare tag text := by
  obtain ⟨way, n, aliased⟩ := s
  constructor
  · intro h
    cases n with
    | scalar p t style =>
      cases style with
      | plain =>
        obtain rfl : t = text := Option.some.inj h
        exact .plain p t
      | literal =>
        obtain ⟨htag, ht⟩ : p.tag = some tag ∧ t = text := by simpa [bareText?] using h
        subst ht
        exact .literal t htag
      | _ => cases h
    | _ => cases h
  · rintro (_ | ⟨_, htag⟩)
    · rfl
    · exact if_pos htag

theorem bool_eq_ok {b : Bool} : s.bool = .ok b ↔ s.node.IsBool b := by
  have hread : (s.bareText? .bool).bind truth? = some b ↔ s.node.IsBool b := by
    simp only [Option.bind_eq_some_iff, bareText?_eq_some, truth?_eq_some, Node.IsBool, and_comm]
  rw [← hread, bool]
  cases (s.bareText? .bool).bind truth? with
  | none => simp [mismatch_ne_ok]
  | some c => simp

theorem word_eq_ok {kind : String} {w : UInt64} : s.word kind = .ok w ↔ s.node.IsWord w := by
  have hread : ((s.bareText? .int).bind fun text => natural? text.toList) = some w.toNat ↔ s.node.IsWord w := by
    simp only [Option.bind_eq_some_iff, bareText?_eq_some, natural?_eq_some, Node.IsWord]
  rw [← hread, word]
  cases (s.bareText? .int).bind fun text => natural? text.toList with
  | none => simp [mismatch_ne_ok]
  | some n =>
    dsimp only
    by_cases hn : n < UInt64.size
    · rw [if_pos hn, Except.ok.injEq, Option.some.injEq, ← UInt64.toNat_inj, Nat.toUInt64,
        UInt64.toNat_ofNat_of_lt' hn]
    · rw [if_neg hn, Option.some.injEq]
      refine iff_of_false (mismatch_ne_ok _ _ _) ?_
      rintro rfl
      exact hn w.toNat_lt

theorem text_eq_ok {expected text : String} : s.text expected = .ok text ↔ s.node.IsText text := by
  obtain ⟨way, n, aliased⟩ := s
  constructor
  · intro h
    unfold Spot.text at h
    split at h
    · rename_i p t style hn
      obtain rfl : n = .scalar p t style := hn
      obtain rfl : t = text := Except.ok.inj h
      exact .scalar p t style
    · exact (mismatch_ne_ok _ _ _ h).elim
  · rintro ⟨⟩
    rfl

/-! ### Options -/

variable {read : Spot → Except Error α}

theorem option_of_nothing (h : s.node.IsNothing) : option read s = .ok none := by
  obtain ⟨way, n, aliased⟩ := s
  obtain htag | ⟨htag | htag, hnull⟩ := h
  · simp [option, htag]
  · simp [option, htag, isNull_iff.mpr hnull]
  · simp [option, htag, isNull_iff.mpr hnull]

/-- A tag that says null in front of something else is an error. -/
theorem option_of_null (hnothing : ¬ s.node.IsNothing) (hnull : s.node.SaysNull) (x : Option α) :
    option read s ≠ .ok x := by
  obtain ⟨way, n, aliased⟩ := s
  obtain ⟨text, htag⟩ := hnull
  have htext : isNull text ≠ true := fun h => hnothing (.word (.inr htag) (isNull_iff.mp h))
  simp [option, htag, htext]

theorem option_of_something (hnothing : ¬ s.node.IsNothing) (hnull : ¬ s.node.SaysNull) :
    option read s = (read s).map some := by
  obtain ⟨way, n, aliased⟩ := s
  unfold option
  split
  · rename_i p text hn
    obtain rfl : n = .scalar p text .plain := hn
    have hempty : ¬ (p.tag = none ∧ (text = "" ∨ text ∈ nullWords)) := by
      rintro ⟨htag, rfl | htext⟩
      · exact hnothing (.empty htag)
      · exact hnothing (.word (.inl htag) htext)
    rw [if_neg fun htag => hnull (.tagged text htag), if_neg (by simpa [isNull_iff] using hempty)]
  · rfl

theorem option_eq_ok {R : Node → α → Prop} (hread : ∀ a, read s = .ok a ↔ R s.node a) {x : Option α} :
    option read s = .ok x ↔ s.node.IsOption R x := by
  by_cases hnothing : s.node.IsNothing
  · rw [option_of_nothing hnothing]
    cases x <;> simp [Node.IsOption, hnothing]
  · by_cases hnull : s.node.SaysNull
    · refine iff_of_false (option_of_null hnothing hnull x) ?_
      cases x <;> simp [Node.IsOption, hnothing, hnull]
    · rw [option_of_something hnothing hnull]
      cases x with
      | none => cases read s <;> simp [Node.IsOption, hnothing, Except.map]
      | some a =>
        rw [Node.IsOption, ← hread]
        cases read s <;> simp [Except.map, hnothing, hnull]

/-! ### Lists -/

theorem of_alias_free {n : Node} (h : n.hasAlias = false) (root : Node) (way : List Crumb) :
    of root way n = ⟨way, n, false⟩ := by
  cases n with
  | «alias» number => cases h
  | _ => rfl

theorem itemsFrom_text_eq_ok {items : List Node} (h : Node.itemsHaveAlias items = false) {root : Node}
    {expected : String} {way : List Crumb} {i : Nat} {texts : List String} :
    itemsFrom root (·.text expected) way i items = .ok texts ↔ List.Forall₂ Node.IsText items texts := by
  induction items generalizing i texts with
  | nil => simp [itemsFrom, List.forall₂_nil_left_iff, eq_comm]
  | cons n rest ih =>
    obtain ⟨hn, hrest⟩ := Bool.or_eq_false_iff.mp h
    have hread (text : String) : Spot.text ⟨way ++ [.item i], n, false⟩ expected = .ok text ↔ n.IsText text :=
      text_eq_ok
    rw [List.forall₂_cons_left_iff, itemsFrom, of_alias_free hn]
    constructor
    · intro h
      split at h
      · cases h
      · rename_i text htext
        cases hitems : itemsFrom root (·.text expected) way (i + 1) rest with
        | error e => rw [hitems] at h; cases h
        | ok tail =>
          rw [hitems] at h
          cases h
          exact ⟨text, tail, (hread text).mp htext, (ih hrest).mp hitems, rfl⟩
    · rintro ⟨text, tail, htext, htail, rfl⟩
      rw [(hread text).mpr htext, (ih hrest).mpr htail]
      rfl

theorem eq_of_isEmpty (h : s.isEmpty = true) : ∃ p, s.node = .scalar p "" .plain := by
  unfold isEmpty at h
  split at h
  · rename_i p text hn
    exact ⟨p, String.isEmpty_iff.mp h ▸ hn⟩
  · cases h

theorem list_text_eq_ok (h : s.node.hasAlias = false) {root : Node} {expected : String} {texts : List String} :
    list root (·.text expected) s = .ok texts ↔ s.node.IsTexts texts := by
  obtain ⟨way, n, aliased⟩ := s
  constructor
  · intro hlist
    unfold list at hlist
    split at hlist
    · rename_i p items hn
      obtain rfl : n = .sequence p items := hn
      exact .sequence p ((itemsFrom_text_eq_ok h).mp hlist)
    · split at hlist
      · rename_i hempty
        obtain ⟨p, hn⟩ := eq_of_isEmpty hempty
        obtain rfl : n = .scalar p "" .plain := hn
        obtain rfl : [] = texts := Except.ok.inj hlist
        exact .nothing p
      · exact (mismatch_ne_ok _ _ _ hlist).elim
  · rintro (⟨p, hitems⟩ | _)
    · exact (itemsFrom_text_eq_ok h).mpr hitems
    · rfl

/-! ### Variants -/

variable {p : Properties} {text : String} {style : Style}

theorem variantTag?_eq_none (hn : s.node = .scalar p text style) :
    s.variantTag? = none ↔ ∀ name, p.tag ≠ some (.ofText ("!" ++ name)) := by
  rw [variantTag?, hn]
  cases htag : p.tag with
  | none => simp [htag]
  | some t => simp [htag, Tag.variant?_eq_none]

theorem variantTag?_eq_some (hn : s.node = .scalar p text style) {name : String} (hempty : name ≠ "")
    (hmark : name ≠ "!") : s.variantTag? = some name ↔ p.tag = some (.ofText ("!" ++ name)) := by
  rw [variantTag?, hn]
  cases htag : p.tag with
  | none => simp [htag]
  | some t => simp [htag, Tag.variant?_eq_some, hempty, hmark]

theorem unit_eq_ok {u : Unit} :
    s.unit = .ok u ↔ ∃ p text, s.node = .scalar p text .plain ∧ text ∈ "" :: nullWords := by
  unfold Spot.unit
  split
  · rename_i p text style hn
    have hwritten : (style = .plain && (text.isEmpty || isNull text)) = true ↔
        style = .plain ∧ text ∈ "" :: nullWords := by
      simp [isNull_iff]
    split
    · rename_i h
      obtain ⟨rfl, htext⟩ := hwritten.mp h
      exact iff_of_true rfl ⟨p, text, hn, htext⟩
    · rename_i h
      refine iff_of_false (fun he => nomatch he) ?_
      rintro ⟨_, _, he, htext⟩
      cases hn.symm.trans he
      exact h (hwritten.mpr ⟨rfl, htext⟩)
  · rename_i hn
    refine iff_of_false (mismatch_ne_ok _ _ _) ?_
    rintro ⟨p, text, he, -⟩
    exact hn p text .plain he

variable [Choice α] {a : α}

theorem choice_of_named {name : String} (h : s.variantTag? = some name) :
    s.choice = .ok a ↔ Choice.ofName? name = some a ∧ s.unit = .ok () := by
  unfold choice
  rw [h]
  cases hname : (Choice.ofName? name : Option α) with
  | none => simp [hname]
  | some b => cases s.unit <;> simp [hname, Except.map]

theorem choice_of_unnamed (h : s.variantTag? = none) :
    s.choice = .ok a ↔ ∃ p text style, s.node = .scalar p text style ∧ Choice.ofName? text = some a := by
  obtain ⟨way, n, aliased⟩ := s
  unfold choice
  rw [h]
  cases n with
  | scalar p text style =>
    cases htext : (Choice.ofName? text : Option α) <;> simp [htext]
  | _ => simp

/-- The names of a choice, and what they stand for; a tag can name each of them. -/
structure Named (names : List (String × α)) : Prop where
  found : ∀ name a, Choice.ofName? name = some a ↔ (name, a) ∈ names
  proper : ∀ e ∈ names, e.1 ≠ "" ∧ e.1 ≠ "!"

theorem ofName?_eq_some (hread : ∀ b : α, Choice.ofName? (Choice.name b) = some b) {name : String} :
    Choice.ofName? name = some a ↔ name = Choice.name a := by
  constructor
  · intro h
    have hname : (Choice.name a == name) = true := List.find?_some (p := fun b => Choice.name b == name) h
    exact (beq_iff_eq.mp hname).symm
  · rintro rfl
    exact hread a

theorem choice_eq_ok {names : List (String × α)} (hnames : Named names) :
    s.choice = .ok a ↔ s.node.IsVariant names a := by
  cases hvariant : s.variantTag? with
  | none =>
    rw [choice_of_unnamed hvariant]
    constructor
    · rintro ⟨p, text, style, hn, ha⟩
      rw [hn]
      exact .text style ((variantTag?_eq_none hn).mp hvariant) ((hnames.found text a).mp ha)
    · intro h
      generalize hn : s.node = n at h
      cases h with
      | text style _ ha => exact ⟨_, _, style, rfl, (hnames.found _ a).mpr ha⟩
      | tag htag _ _ => exact absurd htag ((variantTag?_eq_none hn).mp hvariant _)
  | some name =>
    rw [choice_of_named hvariant, hnames.found, unit_eq_ok]
    constructor
    · rintro ⟨ha, p, text, hn, htext⟩
      obtain ⟨hempty, hmark⟩ := hnames.proper _ ha
      rw [hn]
      exact .tag ((variantTag?_eq_some hn hempty hmark).mp hvariant) ha htext
    · intro h
      generalize hn : s.node = n at h
      cases h with
      | text style htag _ =>
        rw [(variantTag?_eq_none hn).mpr htag] at hvariant
        cases hvariant
      | tag htag ha htext =>
        obtain ⟨hempty, hmark⟩ := hnames.proper _ ha
        rw [(variantTag?_eq_some hn hempty hmark).mpr htag] at hvariant
        obtain rfl := Option.some.inj hvariant
        exact ⟨ha, _, _, rfl, htext⟩

end Spot

end TaintAlias.Yaml
