/-
  TaintAlias.Proofs.Path.Text — paths that can be told apart by their texts.

  A path is written as its root and one piece for each segment. A piece starts with a mark
  of its own (`.f`, `[]`, `.*`) and a number ends where no digit follows, so the pieces can
  be taken off one after the other: `Root.append_inj` and `Segment.append_inj` take the
  first one off, whatever stands behind it, and `pieces_append_inj` all of them. The
  fields of an engine path are written like named segments; the `*` behind them, if the
  path is cut off, starts no piece.

  So both kinds of paths are given back by their texts (`OraclePath.text_injective`,
  `EnginePath.text_injective`), and two alias sets with the same texts, sorted, are the
  same set (`text_identifies_path`).
-/

import Mathlib.Data.List.Nodup
import TaintAlias.AliasSet
import TaintAlias.Path.Engine
import TaintAlias.Proofs.Text

namespace TaintAlias

/-- A number in front of `cs` ends there. -/
def EndsNumber (cs : List Char) : Prop := ∀ c ∈ cs.head?, c.isDigit = false

variable {cs ds : List Char}

/-! ## One piece -/

/-- Handles of one kind have the same letter in front of their numbers. -/
theorem handle_append_inj (letter : String) {i j : UInt32} (hc : EndsNumber cs) (hd : EndsNumber ds)
    (h : (letter ++ idText i).toList ++ cs = (letter ++ idText j).toList ++ ds) : i = j ∧ cs = ds := by
  rw [String.toList_append, String.toList_append, List.append_assoc, List.append_assoc] at h
  exact idText_append_inj hc hd (List.append_cancel_left h)

/-- What stands in front of the handle tells the kinds of roots apart. -/
theorem Root.append_inj {r s : Root} (hc : EndsNumber cs) (hd : EndsNumber ds)
    (h : r.text.toList ++ cs = s.text.toList ++ ds) : r = s ∧ cs = ds := by
  cases r with
  | var v =>
    cases s with
    | var w =>
      obtain ⟨hid, hrest⟩ := handle_append_inj "v" hc hd h
      exact ⟨congrArg (fun id => var ⟨id⟩) hid, hrest⟩
    | static f => simp [text, Variable.text] at h
    | allocation t => simp [text, Variable.text] at h
  | static f =>
    cases s with
    | static g =>
      rw [text, text, String.toList_append, String.toList_append, List.append_assoc, List.append_assoc] at h
      obtain ⟨hid, hrest⟩ := handle_append_inj "f" hc hd (List.append_cancel_left h)
      exact ⟨congrArg (fun id => static ⟨id⟩) hid, hrest⟩
    | var w => simp [text, Variable.text] at h
    | allocation t => simp [text] at h
  | allocation t =>
    cases s with
    | allocation u =>
      rw [text, text, String.toList_append, String.toList_append, List.append_assoc, List.append_assoc] at h
      obtain ⟨hid, hrest⟩ := handle_append_inj "s" hc hd (List.append_cancel_left h)
      exact ⟨congrArg (fun id => allocation ⟨id⟩) hid, hrest⟩
    | var w => simp [text, Variable.text] at h
    | static f => simp [text] at h

/-- The first two characters tell the kinds of segments apart. -/
theorem Segment.append_inj {s t : Segment} (hc : EndsNumber cs) (hd : EndsNumber ds)
    (h : s.text.toList ++ cs = t.text.toList ++ ds) : s = t ∧ cs = ds := by
  cases s with
  | field f =>
    cases t with
    | field g =>
      rw [text, text, String.toList_append, String.toList_append, List.append_assoc, List.append_assoc] at h
      obtain ⟨hid, hrest⟩ := handle_append_inj "f" hc hd (List.append_cancel_left h)
      exact ⟨congrArg (fun id => field ⟨id⟩) hid, hrest⟩
    | element => simp [text] at h
    | wildcard => simp [text, Field.text] at h
  | element =>
    cases t with
    | element => exact ⟨rfl, List.append_cancel_left h⟩
    | field g => simp [text] at h
    | wildcard => simp [text] at h
  | wildcard =>
    cases t with
    | wildcard => exact ⟨rfl, List.append_cancel_left h⟩
    | field g => simp [text, Field.text] at h
    | element => simp [text] at h

/-- Every piece starts with a point or a bracket. -/
theorem Segment.exists_text_eq_cons (s : Segment) : ∃ c cs, s.text.toList = c :: cs ∧ (c = '.' ∨ c = '[') := by
  cases s with
  | field f => exact ⟨'.', f.text.toList, by simp [text], Or.inl rfl⟩
  | element => exact ⟨'[', [']'], rfl, Or.inr rfl⟩
  | wildcard => exact ⟨'.', ['*'], rfl, Or.inl rfl⟩

/-! ## All pieces -/

/-- The text of segments, one after the other. -/
def pieces (ss : List Segment) : List Char := ss.flatMap (·.text.toList)

/-- What stands behind the fields of an engine path. -/
def cutMark (cut : Bool) : List Char := if cut then ['*'] else []

theorem cutMark_injective : Function.Injective cutMark := by
  unfold Function.Injective
  decide

/-- Where the pieces end, or go on, no number goes on. -/
theorem endsNumber_pieces (ss : List Segment) (cut : Bool) : EndsNumber (pieces ss ++ cutMark cut) := by
  intro c hc
  cases ss with
  | nil =>
    cases cut with
    | false => cases hc
    | true =>
      cases hc
      rfl
  | cons s ss =>
    obtain ⟨first, rest, htext, hfirst⟩ := s.exists_text_eq_cons
    simp only [pieces, List.flatMap_cons, htext, List.cons_append, List.head?_cons, Option.mem_def,
      Option.some.injEq] at hc
    subst hc
    rcases hfirst with rfl | rfl <;> rfl

/-- What is left without pieces starts none. -/
theorem cutMark_ne_pieces (cut : Bool) (s : Segment) (cs : List Char) : cutMark cut ≠ s.text.toList ++ cs := by
  obtain ⟨first, rest, htext, hfirst⟩ := s.exists_text_eq_cons
  intro h
  rw [htext] at h
  cases cut with
  | false => cases h
  | true =>
    obtain ⟨rfl, -⟩ := List.cons.inj h
    rcases hfirst with hfirst | hfirst <;> cases hfirst

/-- Pieces are taken off one after the other, down to the mark. -/
theorem pieces_append_inj {ss ts : List Segment} {cut cut' : Bool}
    (h : pieces ss ++ cutMark cut = pieces ts ++ cutMark cut') : ss = ts ∧ cut = cut' := by
  induction ss generalizing ts with
  | nil =>
    cases ts with
    | nil => exact ⟨rfl, cutMark_injective h⟩
    | cons t ts =>
      rw [pieces, pieces, List.flatMap_cons, List.append_assoc] at h
      exact absurd h (cutMark_ne_pieces cut t _)
  | cons s ss ih =>
    cases ts with
    | nil =>
      rw [pieces, pieces, List.flatMap_cons, List.append_assoc] at h
      exact absurd h.symm (cutMark_ne_pieces cut' s _)
    | cons t ts =>
      simp only [pieces, List.flatMap_cons, List.append_assoc] at h
      obtain ⟨rfl, hrest⟩ := Segment.append_inj (endsNumber_pieces ss cut) (endsNumber_pieces ts cut') h
      obtain ⟨rfl, hcut⟩ := ih hrest
      exact ⟨rfl, hcut⟩

/-! ## Paths -/

namespace OraclePath

theorem toList_text (p : OraclePath) : p.text.toList = p.root.text.toList ++ (pieces p.segments ++ cutMark false) := by
  simp [text, pieces, cutMark, String.toList_join, List.flatMap_map]

theorem text_injective : Function.Injective text := by
  intro p q h
  have h := congrArg String.toList h
  rw [toList_text, toList_text] at h
  obtain ⟨hroot, hrest⟩ := Root.append_inj (endsNumber_pieces _ _) (endsNumber_pieces _ _) h
  obtain ⟨hsegments, -⟩ := pieces_append_inj hrest
  cases p
  cases q
  cases hroot
  cases hsegments
  rfl

end OraclePath

namespace EnginePath

/-- The text of a path without its fields. -/
def baseText (p : EnginePath) : List Char :=
  match p.base with
  | some v => v.text.toList
  | none => "<static>".toList

/-- Fields are written like named segments. -/
theorem toList_text (p : EnginePath) :
    p.text.toList = p.baseText ++ (pieces (p.fields.map .field) ++ cutMark p.cutOff) := by
  obtain ⟨base, fields, cut⟩ := p
  cases base <;> cases cut <;>
    simp [text, baseText, pieces, cutMark, String.toList_join, List.flatMap_map, Segment.text]

theorem baseText_append_inj {p q : EnginePath} (hc : EndsNumber cs) (hd : EndsNumber ds)
    (h : p.baseText ++ cs = q.baseText ++ ds) : p.base = q.base ∧ cs = ds := by
  unfold baseText at h
  cases hp : p.base with
  | some v =>
    cases hq : q.base with
    | some w =>
      simp only [hp, hq] at h
      obtain ⟨hid, hrest⟩ := handle_append_inj "v" hc hd h
      exact ⟨congrArg (fun id => some (Variable.mk id)) hid, hrest⟩
    | none => simp [hp, hq, Variable.text] at h
  | none =>
    cases hq : q.base with
    | some w => simp [hp, hq, Variable.text] at h
    | none =>
      simp only [hp, hq] at h
      exact ⟨rfl, List.append_cancel_left h⟩

theorem text_injective : Function.Injective text := by
  intro p q h
  have h := congrArg String.toList h
  rw [toList_text, toList_text] at h
  obtain ⟨hbase, hrest⟩ := baseText_append_inj (endsNumber_pieces _ _) (endsNumber_pieces _ _) h
  obtain ⟨hfields, hcut⟩ := pieces_append_inj hrest
  have hfields := List.map_injective_iff.mpr (fun _ _ => Segment.field.inj) hfields
  cases p
  cases q
  cases hbase
  cases hfields
  cases hcut
  rfl

end EnginePath

/-! ## Alias sets -/

namespace AliasSet

/-- The texts of the paths, by code points. -/
def sortedTexts (s : AliasSet) : List String := (s.paths.map OraclePath.text).mergeSort

theorem sortedTexts_perm (s : AliasSet) : s.sortedTexts.Perm (s.paths.map OraclePath.text) :=
  List.mergeSort_perm _ _

theorem sortedTexts_sorted (s : AliasSet) : s.sortedTexts.Pairwise (· ≤ ·) := by
  have htrans : ∀ a b c : String, decide (a ≤ b) = true → decide (b ≤ c) = true → decide (a ≤ c) = true := by
    intro a b c hab hbc
    exact decide_eq_true (String.le_trans (of_decide_eq_true hab) (of_decide_eq_true hbc))
  have htotal : ∀ a b : String, (decide (a ≤ b) || decide (b ≤ a)) = true := by
    intro a b
    simpa using String.le_total a b
  exact (List.pairwise_mergeSort htrans htotal _).imp of_decide_eq_true

theorem nodup_sortedTexts (s : AliasSet) : s.sortedTexts.Nodup :=
  s.sortedTexts_perm.nodup_iff.mpr (s.nodup.map OraclePath.text_injective)

theorem mem_sortedTexts {s : AliasSet} {p : OraclePath} : p.text ∈ s.sortedTexts ↔ p ∈ s := by
  rw [s.sortedTexts_perm.mem_iff, List.mem_map_of_injective OraclePath.text_injective]
  rfl

end AliasSet

/-- Paths of either kind are equal exactly if their texts are. So the sorted texts of an
    alias set name each of its paths once, and two sets hold the same paths exactly if
    their sorted texts are the same. -/
theorem text_identifies_path :
    (∀ p q : OraclePath, p.text = q.text ↔ p = q) ∧ (∀ e f : EnginePath, e.text = f.text ↔ e = f) ∧
      ∀ s : AliasSet, s.sortedTexts.Nodup ∧ s.sortedTexts.length = s.size ∧
        (∀ p : OraclePath, p.text ∈ s.sortedTexts ↔ p ∈ s) ∧
        ∀ t : AliasSet, s.sortedTexts = t.sortedTexts ↔ ∀ p, p ∈ s ↔ p ∈ t := by
  refine ⟨fun p q => OraclePath.text_injective.eq_iff, fun e f => EnginePath.text_injective.eq_iff, fun s => ?_⟩
  refine ⟨s.nodup_sortedTexts, ?_, fun p => AliasSet.mem_sortedTexts, fun t => ?_⟩
  · rw [s.sortedTexts_perm.length_eq, List.length_map]
    rfl
  constructor
  · intro h p
    rw [← AliasSet.mem_sortedTexts, h, AliasSet.mem_sortedTexts]
  · intro h
    have hperm : s.paths.Perm t.paths := (List.perm_ext_iff_of_nodup s.nodup t.nodup).mpr h
    apply List.Perm.eq_of_pairwise (fun a b _ _ => String.le_antisymm) s.sortedTexts_sorted t.sortedTexts_sorted
    exact s.sortedTexts_perm.trans ((hperm.map _).trans t.sortedTexts_perm.symm)

end TaintAlias
