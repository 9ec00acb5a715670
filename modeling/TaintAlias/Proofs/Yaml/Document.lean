/-
  TaintAlias.Proofs.Yaml.Document — the nodes of a mapping of scalars and sequences.

  What the tokens behind an entry are read as does not depend on the entry (`Lists`), so a
  mapping is read from its end (`lists_end`) backwards: an entry with a scalar
  (`lists_scalar`), with items that are not indented (`lists_items`), without any
  (`lists_none`). An entry costs less fuel than it has tokens, so there is always enough,
  and the mapping is the whole document (`ofTokens_of_lists`).
-/

import TaintAlias.Yaml.Document

namespace TaintAlias.Yaml

/-- The entries that the tokens of the outermost mapping are read as, behind its start. -/
def Lists (ts : List Token) (entries : List (Node × Node)) : Prop :=
  ∀ handles fuel, ts.length + 4 ≤ fuel →
    readEntries handles fuel { tokens := ts } = (entries, some { tokens := [.streamEnd] })

theorem lists_end : Lists [.blockEnd, .streamEnd] [] := by
  intro handles fuel hfuel
  obtain ⟨fuel, rfl⟩ : ∃ n, fuel = n + 1 := ⟨fuel - 1, by omega⟩
  simp [readEntries, Reading.head, Reading.tail]

variable {handles : List (String × Tag)} {fuel : Nat} {ts : List Token} {entries : List (Node × Node)}

theorem readNode_scalar (place : Place) (text : String) (style : Style) :
    readNode handles (fuel + 1) place { tokens := .scalar text style :: ts } =
      (.scalar {} text style, some { tokens := ts }) := by
  simp [readNode, readProperties, Reading.head, Reading.tail]

/-- The tokens a node can begin with here. -/
def beginsNode : Token → Bool
  | .scalar .. | .flowSequence | .blockEntry => true
  | _ => false

/-- A key, the node behind it, and the other entries. -/
theorem lists_entry {key : String} {style : Style} {t : Token} {more : List Token} {v : Node}
    (ht : beginsNode t = true) (h : Lists ts entries) (hlength : ts.length ≤ more.length)
    (hvalue : ∀ handles fuel, more.length + 4 ≤ fuel →
      readNode handles fuel .entry { tokens := t :: more } = (v, some { tokens := ts })) :
    Lists (.key :: .scalar key style :: .value :: t :: more) ((.scalar {} key style, v) :: entries) := by
  intro handles fuel hfuel
  simp only [List.length_cons] at hfuel
  obtain ⟨fuel, rfl⟩ : ∃ n, fuel = n + 4 := ⟨fuel - 4, by omega⟩
  have hends : [Token.key, .value, .blockEnd].contains t = false := by
    cases t <;> first | rfl | cases ht
  have hkey : readNodeOr handles (fuel + 3) .entry [.key, .value, .blockEnd]
      { tokens := .scalar key style :: .value :: t :: more } =
        (.scalar {} key style, some { tokens := .value :: t :: more }) := by
    simp [readNodeOr, readNode_scalar, Reading.head]
  have hmark : readValue handles (fuel + 3) .entry [.key, .value, .blockEnd] { tokens := .value :: t :: more } =
      (v, some { tokens := ts }) := by
    simp only [readValue, readNodeOr, Reading.head, Reading.tail, List.headD_cons, List.tail_cons, hends,
      Bool.false_eq_true, if_false, hvalue handles (fuel + 1) (by omega)]
  rw [readEntries]
  simp only [Reading.head, Reading.tail, List.headD_cons, List.tail_cons, hkey, hmark, h handles (fuel + 3) (by omega)]

theorem lists_scalar {key value : String} {keyStyle style : Style} (h : Lists ts entries) :
    Lists (.key :: .scalar key keyStyle :: .value :: .scalar value style :: ts)
      ((.scalar {} key keyStyle, .scalar {} value style) :: entries) := by
  refine lists_entry rfl h (Nat.le_refl _) fun handles fuel hfuel => ?_
  obtain ⟨fuel, rfl⟩ : ∃ n, fuel = n + 1 := ⟨fuel - 1, by omega⟩
  exact readNode_scalar _ _ _

theorem lists_none {key : String} {keyStyle : Style} (h : Lists ts entries) :
    Lists (.key :: .scalar key keyStyle :: .value :: .flowSequence :: .flowSequenceEnd :: ts)
      ((.scalar {} key keyStyle, .sequence {} []) :: entries) := by
  refine lists_entry rfl h (Nat.le_succ _) fun handles fuel hfuel => ?_
  obtain ⟨fuel, rfl⟩ : ∃ n, fuel = n + 2 := ⟨fuel - 2, by omega⟩
  simp [readNode, readProperties, readFlowItems, Reading.head, Reading.tail]

/-- Items up to the next key. -/
theorem readBareItems_items (style : String → Style) (texts : List String) (fuel : Nat)
    (hfuel : texts.length + 3 ≤ fuel) :
    readBareItems handles fuel
        { tokens := (texts.flatMap fun text => [.blockEntry, .scalar text (style text)]) ++ .key :: ts } =
      (texts.map fun text => .scalar {} text (style text), some { tokens := .key :: ts }) := by
  induction texts generalizing fuel with
  | nil =>
    obtain ⟨fuel, rfl⟩ : ∃ n, fuel = n + 1 := ⟨fuel - 1, by omega⟩
    simp [readBareItems, Reading.head]
  | cons text texts ih =>
    simp only [List.length_cons] at hfuel
    obtain ⟨fuel, rfl⟩ : ∃ n, fuel = n + 3 := ⟨fuel - 3, by omega⟩
    have hnode : ∀ more : List Token, readNodeOr handles (fuel + 2) .block [.blockEntry, .key, .value, .blockEnd]
        { tokens := .scalar text (style text) :: more } = (.scalar {} text (style text), some { tokens := more }) := by
      intro more
      simp [readNodeOr, readNode_scalar, Reading.head]
    rw [List.flatMap_cons, readBareItems]
    simp only [Reading.head, Reading.tail, List.cons_append, List.nil_append, List.headD_cons, List.tail_cons, hnode,
      ih (fuel + 2) (by omega), List.map_cons]

theorem lists_items {key : String} {keyStyle : Style} (style : String → Style) (text : String) (texts : List String)
    (h : Lists (.key :: ts) entries) :
    Lists (.key :: .scalar key keyStyle :: .value ::
        (((text :: texts).flatMap fun text => [.blockEntry, .scalar text (style text)]) ++ .key :: ts))
      ((.scalar {} key keyStyle, .sequence {} ((text :: texts).map fun text => .scalar {} text (style text))) ::
        entries) := by
  have hlength : texts.length ≤ (texts.flatMap fun text => [Token.blockEntry, .scalar text (style text)]).length := by
    induction texts with
    | nil => exact Nat.le_refl _
    | cons text texts ih =>
      simp only [List.flatMap_cons, List.length_append, List.length_cons]
      omega
  have htokens : ((text :: texts).flatMap fun text => [Token.blockEntry, .scalar text (style text)]) ++ .key :: ts =
      .blockEntry :: .scalar text (style text) ::
        ((texts.flatMap fun text => [Token.blockEntry, .scalar text (style text)]) ++ .key :: ts) := rfl
  rw [htokens]
  refine lists_entry rfl h ?_ fun handles fuel hfuel => ?_
  · simp only [List.length_append, List.length_cons]
    omega
  · simp only [List.length_append, List.length_cons] at hfuel
    obtain ⟨fuel, rfl⟩ : ∃ n, fuel = n + 1 := ⟨fuel - 1, by omega⟩
    have hread := @readBareItems_items handles ts style (text :: texts) fuel (by simp only [List.length_cons]; omega)
    rw [htokens] at hread
    simp [readNode, readProperties, Reading.head, hread]

/-- The whole document. -/
theorem ofTokens_of_lists (h : Lists ts entries) :
    Document.ofTokens (.blockMapping :: ts) = ⟨.mapping {} entries, true⟩ := by
  have hread : readNode commonHandles (4 * (ts.length + 1) + 4) .block { tokens := .blockMapping :: ts } =
      (.mapping {} entries, some { tokens := [.streamEnd] }) := by
    simp [readNode, readProperties, Reading.head, Reading.tail, h commonHandles (4 * (ts.length + 1) + 3) (by omega)]
  simp only [Document.ofTokens, readRoot, List.length_cons, hread]
  rfl

end TaintAlias.Yaml
