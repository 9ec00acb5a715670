/-
  TaintAlias.Proofs.Fact.Text — what the text of a fact tells.

  A fact is written as its path and, if it has a source, as the label and the statement of
  that behind it. A label may hold the marks in between itself (` <- `, `@s`). Still the
  text can be taken apart: a path holds no blank, so it ends at the first one
  (`blank_notMem_text`), and what stands behind the label is read from the end, where the
  number begins behind the last letter (`sourceText_injective`).

  So facts with the same text have the same path and source, but for the zero fact. A fact
  is written `<zero>` if it has no source and its path has neither base nor fields
  (`text_eq_zero_iff`), and whether that path is cut off does not count. So
  `a_cut_off_zero_reads_as_zero`: a path that is nothing but cut off, derived from the
  zero fact, is written like it and counts as zero, but is not the same fact. No other two
  facts share their text (`text_identifies_fact`).
-/

import TaintAlias.Proofs.Path.Text
import TaintAlias.Proofs.Site.Effect

namespace TaintAlias

/-! ## Blanks -/

theorem blank_notMem_idText (i : UInt32) : ' ' ∉ (idText i).toList := by
  intro h
  have hdigit := isDigit_of_mem_idText h
  revert hdigit
  decide

theorem Segment.blank_notMem_text (s : Segment) : ' ' ∉ s.text.toList := by
  cases s with
  | field f => simp [text, Field.text, blank_notMem_idText]
  | element => decide
  | wildcard => decide

theorem EnginePath.blank_notMem_text (p : EnginePath) : ' ' ∉ p.text.toList := by
  have hbase : ' ' ∉ p.baseText := by
    unfold baseText
    cases p.base with
    | some v => simp [Variable.text, blank_notMem_idText]
    | none => decide
  have hpieces : ' ' ∉ pieces (p.fields.map .field) := by
    intro h
    obtain ⟨s, -, hs⟩ := List.mem_flatMap.mp h
    exact s.blank_notMem_text hs
  have hmark : ' ' ∉ cutMark p.cutOff := by
    cases p.cutOff <;> decide
  rw [toList_text, List.mem_append, List.mem_append]
  rintro (h | h | h)
  · exact hbase h
  · exact hpieces h
  · exact hmark h

namespace Fact

variable {f g : Fact}

/-! ## The zero fact -/

/-- Without source, and with a path that is nothing but cut off. -/
def IsCutOffZero (f : Fact) : Prop := f.source = none ∧ f.path = ⟨none, [], true⟩

theorem same_zero_iff : f.Same .zero ↔ f.source = none ∧ f.path = .empty := by
  rw [Same, key, Prod.mk.injEq, and_comm]
  rfl

/-- Whether the path of a fact is cut off does not count. -/
theorem isZero_iff : f.isZero = true ↔ f.Same .zero ∨ f.IsCutOffZero := by
  rw [same_zero_iff, IsCutOffZero, ← and_or_left, isZero, Bool.and_eq_true, Option.isNone_iff_eq_none,
    EnginePath.isEmpty, Bool.and_eq_true, Option.isNone_iff_eq_none, List.isEmpty_iff]
  obtain ⟨base, fields, cut⟩ := f.path
  cases cut <;> simp [EnginePath.empty]

/-! ## Path and source in a text -/

/-- What stands behind the path. -/
def sourceText (f : Fact) : List Char :=
  match f.source with
  | some s => " <- ".toList ++ (s.label.toList ++ ("@s".toList ++ (idText s.stmt.id).toList))
  | none => []

theorem toList_text (h : f.isZero = false) : f.text.toList = f.path.text.toList ++ f.sourceText := by
  cases hs : f.source with
  | none => simp [text, sourceText, h, hs]
  | some s => simp [text, sourceText, h, hs, Stmt.text]

theorem head?_sourceText : ∀ c ∈ f.sourceText.head?, (c != ' ') = false := by
  intro c hc
  unfold sourceText at hc
  split at hc
  · cases hc
    rfl
  · cases hc

/-- Read from the end, the number and the letter come before the label. -/
theorem sourceText_injective (h : f.sourceText = g.sourceText) : f.source = g.source := by
  unfold sourceText at h
  cases hf : f.source with
  | none =>
    cases hg : g.source with
    | none => rfl
    | some t => simp [hf, hg] at h
  | some s =>
    cases hg : g.source with
    | none => simp [hf, hg] at h
    | some t =>
      simp only [hf, hg] at h
      have hback := congrArg List.reverse (List.append_cancel_left h)
      simp only [List.reverse_append, List.append_assoc] at hback
      have hdigits : ∀ (u : Source), ∀ c ∈ (idText u.stmt.id).toList.reverse, c.isDigit = true := by
        intro u c hc
        exact isDigit_of_mem_idText (List.mem_reverse.mp hc)
      obtain ⟨hnumber, hrest⟩ := append_inj_of_head? (hdigits s) (hdigits t) (by simp) (by simp) hback
      have hid := toList_idText_inj (List.reverse_injective hnumber)
      have hlabel := List.reverse_injective (List.append_cancel_left hrest)
      obtain ⟨⟨i⟩, l⟩ := s
      obtain ⟨⟨j⟩, k⟩ := t
      cases hid
      cases String.toList_injective hlabel
      rfl

/-- Texts that are not written as zero hold all that identifies a fact. -/
theorem same_of_text (hf : f.isZero = false) (hg : g.isZero = false) (h : f.text = g.text) : f.Same g := by
  have hchars := congrArg String.toList h
  rw [toList_text hf, toList_text hg] at hchars
  have hblank : ∀ (p : EnginePath), ∀ c ∈ p.text.toList, (c != ' ') = true := by
    intro p c hc
    rw [bne_iff_ne]
    rintro rfl
    exact p.blank_notMem_text hc
  obtain ⟨hpath, hsource⟩ :=
    append_inj_of_head? (hblank f.path) (hblank g.path) head?_sourceText head?_sourceText hchars
  exact Prod.ext (EnginePath.text_injective (String.toList_injective hpath)) (sourceText_injective hsource)

/-- No path begins like the text of zero. -/
theorem text_eq_zero_iff : f.text = "<zero>" ↔ f.isZero = true := by
  constructor
  · intro h
    by_contra hzero
    have hchars := congrArg String.toList h
    rw [toList_text (Bool.eq_false_iff.mpr hzero), EnginePath.toList_text, EnginePath.baseText] at hchars
    cases hbase : f.path.base <;> simp [hbase, Variable.text] at hchars
  · intro h
    simp [text, h]

/-! ## Facts with one text -/

theorem Same.text (h : f.Same g) : f.text = g.text := by
  rw [Fact.text, Fact.text, isZero, isZero, h.path, h.source]

theorem text_eq_iff : f.text = g.text ↔ f.Same g ∨ (f.isZero = true ∧ g.isZero = true) := by
  constructor
  · intro h
    by_cases hf : f.isZero = true
    · right
      refine ⟨hf, text_eq_zero_iff.mp ?_⟩
      rw [← h]
      exact text_eq_zero_iff.mpr hf
    · left
      have hg : ¬ g.isZero = true := by
        intro hg
        apply hf
        rw [← text_eq_zero_iff, h]
        exact text_eq_zero_iff.mpr hg
      exact same_of_text (Bool.eq_false_iff.mpr hf) (Bool.eq_false_iff.mpr hg) h
  · rintro (hsame | ⟨hf, hg⟩)
    · exact hsame.text
    · rw [text_eq_zero_iff.mpr hf, text_eq_zero_iff.mpr hg]

/-- The zero fact and the one that is only written like it, in either order. -/
def ZeroPair (f g : Fact) : Prop := f.Same .zero ∧ g.IsCutOffZero ∨ f.IsCutOffZero ∧ g.Same .zero

theorem zeroPair_of_isZero (hf : f.isZero = true) (hg : g.isZero = true) : f.Same g ∨ f.ZeroPair g := by
  rcases isZero_iff.mp hf with hf | hf
  · rcases isZero_iff.mp hg with hg | hg
    · exact Or.inl (hf.trans hg.symm)
    · exact Or.inr (Or.inl ⟨hf, hg⟩)
  · rcases isZero_iff.mp hg with hg | hg
    · exact Or.inr (Or.inr ⟨hf, hg⟩)
    · left
      show (f.path, f.source) = (g.path, g.source)
      rw [hf.1, hf.2, hg.1, hg.2]

theorem ZeroPair.text (h : f.ZeroPair g) : f.text = g.text := by
  apply text_eq_iff.mpr
  right
  rcases h with ⟨hf, hg⟩ | ⟨hf, hg⟩
  · exact ⟨isZero_iff.mpr (Or.inl hf), isZero_iff.mpr (Or.inr hg)⟩
  · exact ⟨isZero_iff.mpr (Or.inr hf), isZero_iff.mpr (Or.inl hg)⟩

/-- Two facts have one text exactly if they are the same up to provenance, or one is the
    zero fact and the other has no source and a path that is nothing but cut off. These
    are the facts that are written `<zero>` and count as zero. So two facts of a set, into
    which facts were inserted in any order, have different texts unless they are such a
    pair. -/
theorem text_identifies_fact :
    (∀ f g : Fact, f.text = g.text ↔ f.Same g ∨ f.ZeroPair g) ∧
      (∀ f : Fact, f.text = "<zero>" ↔ f.isZero = true) ∧
      (∀ f : Fact, f.isZero = true ↔ f.Same .zero ∨ f.IsCutOffZero) ∧
      ∀ fs : List Fact,
        (FactSet.empty.insertAll fs).facts.Pairwise fun f g => f.text ≠ g.text ∨ f.ZeroPair g := by
  have htext : ∀ f g : Fact, f.text = g.text ↔ f.Same g ∨ f.ZeroPair g := by
    intro f g
    constructor
    · intro h
      rcases text_eq_iff.mp h with hsame | ⟨hf, hg⟩
      · exact Or.inl hsame
      · exact zeroPair_of_isZero hf hg
    · rintro (hsame | hpair)
      · exact hsame.text
      · exact hpair.text
  refine ⟨htext, fun f => text_eq_zero_iff, fun f => isZero_iff, fun fs => ?_⟩
  obtain ⟨added, hfacts, hpair, -⟩ := FactSet.empty.insertAll_facts fs
  have hfacts : (FactSet.empty.insertAll fs).facts = added := hfacts
  rw [hfacts]
  apply hpair.imp
  intro f g hne
  by_cases h : f.text = g.text
  · exact Or.inr (((htext f g).mp h).resolve_left hne)
  · exact Or.inl h

/-- Derived from the zero fact, with a path that is nothing but cut off. -/
def cutOffZero : Fact := .derived .zero ⟨none, [], true⟩ ⟨5⟩

/-- It is written like the zero fact and counts as zero, but both can be in one set. -/
theorem a_cut_off_zero_reads_as_zero :
    cutOffZero.text = Fact.zero.text ∧ cutOffZero.isZero = true ∧ ¬ cutOffZero.Same .zero ∧
      (FactSet.empty.insertAll [cutOffZero, .zero]).facts.map Fact.text = ["<zero>", "<zero>"] := by
  decide

end Fact

end TaintAlias
