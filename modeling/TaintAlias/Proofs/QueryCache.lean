/-
  TaintAlias.Proofs.QueryCache — a cache is a window on what was used last.

  A history lists the entries that were used, in order: each lookup that hit and each
  insertion. `recent` keeps of every query the last entry, last used first. It is what a
  cache without bound holds, and a cache with `n` slots holds the first `n` of it: using
  an entry takes the same step on the window as on the whole (`cut_touch`), also where
  the entry stood in the middle of the window or had fallen out of it.

  So the operations only lengthen the history of a `window` (`insert_window`,
  `get_window`). A query is missing from it exactly if it was never used, or `n` other
  queries were used since (`find?_window_eq_none`), and what it holds for a query is
  the last entry (`find?_window_eq_some`).
-/

import Mathlib.Data.Finset.Card
import Mathlib.Data.List.DropRight
import TaintAlias.QueryCache

namespace TaintAlias

namespace QueryCache

/-- `e` moved or added to the front. -/
def touch (entries : List (Query × AliasSet)) (e : Query × AliasSet) : List (Query × AliasSet) :=
  e :: entries.filter (·.1 ≠ e.1)

/-- The last entry of every query in a history, last used first. -/
def recent (history : List (Query × AliasSet)) : List (Query × AliasSet) := history.foldl touch []

/-- The different queries of a history. -/
def queriesOf (history : List (Query × AliasSet)) : Finset Query := (history.map (·.1)).toFinset

/-- The part of a history behind the last use of `q`; all of it if there is none. -/
def since (q : Query) (history : List (Query × AliasSet)) : List (Query × AliasSet) :=
  history.rtakeWhile (q != ·.1)

/-- What `q` was last used with. -/
def last? (q : Query) (history : List (Query × AliasSet)) : Option AliasSet := history.reverse.lookup q

variable {q : Query} {aliases : AliasSet} {capacity : Option Nat}
  {history entries front back : List (Query × AliasSet)}

/-! ## Entries -/

theorem mem_of_find? {c : QueryCache} (h : c.find? q = some aliases) : (q, aliases) ∈ c.entries := by
  obtain ⟨before, behind, heq, -⟩ := List.lookup_eq_some_iff.mp h
  rw [heq]
  exact List.mem_append_right _ List.mem_cons_self

theorem get_of_find? {c : QueryCache} (h : c.find? q = some aliases) :
    c.get q = (some aliases, { c with entries := touch c.entries (q, aliases) }) := by
  simp only [get, h]
  rfl

theorem get_of_find?_none {c : QueryCache} (h : c.find? q = none) : c.get q = (none, c) := by
  simp only [get, h]

/-- A hit hands out an entry and keeps all others. -/
theorem mem_of_get {c c' : QueryCache} {q : Query} {aliases : AliasSet} (h : c.get q = (some aliases, c')) :
    (q, aliases) ∈ c.entries ∧ ∀ entry ∈ c'.entries, entry ∈ c.entries := by
  cases hfound : c.find? q with
  | none =>
    rw [get_of_find?_none hfound] at h
    cases h
  | some found =>
    rw [get_of_find? hfound] at h
    cases h
    have hmem := mem_of_find? hfound
    refine ⟨hmem, fun entry he => ?_⟩
    rcases List.mem_cons.mp he with rfl | he
    · exact hmem
    · exact (List.mem_filter.mp he).1

/-- Only the inserted entry is new. -/
theorem mem_of_insert {c : QueryCache} {q : Query} {aliases : AliasSet} {entry : Query × AliasSet}
    (h : entry ∈ (c.insert q aliases).entries) : entry = (q, aliases) ∨ entry ∈ c.entries := by
  have hcut : entry ∈ (q, aliases) :: c.entries.filter (·.1 ≠ q) := by
    simp only [insert, cut] at h
    split at h
    · exact List.mem_of_mem_take h
    · exact h
  rcases List.mem_cons.mp hcut with heq | hmem
  · exact Or.inl heq
  · exact Or.inr (List.mem_filter.mp hmem).1

/-! ## Histories -/

theorem mem_queriesOf : q ∈ queriesOf history ↔ q ∈ history.map (·.1) := List.mem_toFinset

@[simp] theorem queriesOf_nil : queriesOf [] = ∅ := rfl

@[simp] theorem queriesOf_concat (history : List (Query × AliasSet)) (e : Query × AliasSet) :
    queriesOf (history ++ [e]) = Insert.insert e.1 (queriesOf history) := by
  ext q
  simp [queriesOf]

theorem queriesOf_mono (h : front ⊆ history) : queriesOf front ⊆ queriesOf history := by
  intro q hq
  exact mem_queriesOf.mpr (List.map_subset _ h (mem_queriesOf.mp hq))

theorem notMem_queriesOf : q ∉ queriesOf history ↔ ∀ e ∈ history, (q != e.1) = true := by
  simp only [mem_queriesOf, List.mem_map, not_exists, not_and, bne_iff_ne]
  exact forall₂_congr fun e _ => ne_comm

theorem last?_eq_some : last? q history = some aliases ↔
    ∃ front back, history = front ++ (q, aliases) :: back ∧ q ∉ queriesOf back := by
  simp only [last?, List.lookup_eq_some_iff, notMem_queriesOf]
  constructor
  · rintro ⟨back, front, heq, hback⟩
    refine ⟨front.reverse, back.reverse, List.reverse_injective (by simp [heq]), fun e he => ?_⟩
    exact hback e (List.mem_reverse.mp he)
  · rintro ⟨front, back, rfl, hback⟩
    exact ⟨back.reverse, front.reverse, by simp, fun e he => hback e (List.mem_reverse.mp he)⟩

theorem last?_eq_none : last? q history = none ↔ q ∉ queriesOf history := by
  simp only [last?, List.lookup_eq_none_iff, notMem_queriesOf, List.mem_reverse]

theorem mem_queriesOf_of_last? (h : last? q history = some aliases) : q ∈ queriesOf history := by
  by_contra hnot
  rw [last?_eq_none.mpr hnot] at h
  cases h

theorem since_split (h : q ∉ queriesOf back) (front : List (Query × AliasSet)) (aliases : AliasSet) :
    since q (front ++ (q, aliases) :: back) = back := by
  have hback : ∀ e ∈ back.reverse, (q != e.1) = true := fun e he =>
    notMem_queriesOf.mp h e (List.mem_reverse.mp he)
  rw [since, List.rtakeWhile, List.reverse_append, List.reverse_cons, List.append_assoc,
    List.takeWhile_append_of_pos hback]
  simp

/-- Fewer different queries since the last use of one of them than in all. -/
theorem card_since_lt (h : q ∈ queriesOf history) :
    (queriesOf (since q history)).card < (queriesOf history).card := by
  cases hlast : last? q history with
  | none => exact absurd h (last?_eq_none.mp hlast)
  | some aliases =>
    obtain ⟨front, back, rfl, hback⟩ := last?_eq_some.mp hlast
    rw [since_split hback]
    have hsub : Insert.insert q (queriesOf back) ⊆ queriesOf (front ++ (q, aliases) :: back) := by
      refine Finset.insert_subset h (queriesOf_mono fun e he => ?_)
      exact List.mem_append_right _ (List.mem_cons_of_mem _ he)
    calc
      (queriesOf back).card < (Insert.insert q (queriesOf back)).card := by
        rw [Finset.card_insert_of_notMem hback]
        exact Nat.lt_succ_self _
      _ ≤ _ := Finset.card_le_card hsub

/-! ## The last entry of every query -/

@[simp] theorem recent_nil : recent [] = [] := rfl

@[simp] theorem recent_concat (history : List (Query × AliasSet)) (e : Query × AliasSet) :
    recent (history ++ [e]) = touch (recent history) e := by
  simp [recent]

theorem mem_keys_touch {e : Query × AliasSet} :
    q ∈ (touch entries e).map (·.1) ↔ q = e.1 ∨ q ∈ entries.map (·.1) := by
  by_cases hq : q = e.1 <;> simp [touch, hq]

theorem nodup_keys_touch (h : (entries.map (·.1)).Nodup) (e : Query × AliasSet) :
    ((touch entries e).map (·.1)).Nodup := by
  rw [touch, List.map_cons, List.nodup_cons]
  exact ⟨by simp, h.sublist (List.filter_sublist.map _)⟩

theorem mem_keys_recent : q ∈ (recent history).map (·.1) ↔ q ∈ queriesOf history := by
  induction history using List.reverseRecOn with
  | nil => simp
  | append_singleton history e ih => 
    rw [recent_concat, mem_keys_touch, ih, queriesOf_concat, Finset.mem_insert]

theorem nodup_keys_recent (history : List (Query × AliasSet)) : ((recent history).map (·.1)).Nodup := by
  induction history using List.reverseRecOn with
  | nil => exact List.nodup_nil
  | append_singleton history e ih => rw [recent_concat]; exact nodup_keys_touch ih e

theorem length_recent (history : List (Query × AliasSet)) :
    (recent history).length = (queriesOf history).card := by
  have hkeys : queriesOf history = ((recent history).map (·.1)).toFinset := by
    ext q
    rw [List.mem_toFinset, mem_keys_recent]
  rw [hkeys, List.toFinset_card_of_nodup (nodup_keys_recent history), List.length_map]

/-- What was used later stands in front of what was used before. -/
theorem recent_append (front back : List (Query × AliasSet)) :
    recent (front ++ back) = recent back ++ (recent front).filter (·.1 ∉ queriesOf back) := by
  induction back using List.reverseRecOn with
  | nil => simp
  | append_singleton back e ih =>
    rw [← List.append_assoc, recent_concat, recent_concat, ih, touch, touch, List.filter_append,
      List.filter_filter, List.cons_append, queriesOf_concat]
    simp

/-- Behind the last use of a query stand the entries of the queries used since. -/
theorem recent_split (h : q ∉ queriesOf back) (front : List (Query × AliasSet)) (aliases : AliasSet) :
    ∃ rest, recent (front ++ (q, aliases) :: back) = recent back ++ (q, aliases) :: rest := by
  rw [List.append_cons, recent_append, recent_concat, touch, List.filter_cons_of_pos (by simpa using h)]
  exact ⟨_, rfl⟩

/-! ## The window -/

@[simp] theorem cut_nil (capacity : Option Nat) : cut capacity [] = [] := by
  cases capacity <;> simp [cut]

theorem length_cut_le {n : Nat} (entries : List (Query × AliasSet)) : (cut (some n) entries).length ≤ n :=
  List.length_take_le _ _

theorem cut_eq_self {n : Nat} : cut (some n) entries = entries ↔ entries.length ≤ n :=
  List.take_eq_self_iff entries

theorem cut_sublist (capacity : Option Nat) (entries : List (Query × AliasSet)) :
    (cut capacity entries).Sublist entries := by
  cases capacity with
  | none => exact List.Sublist.refl entries
  | some n => exact List.take_sublist n entries

theorem length_touch_le {e : Query × AliasSet} (h : e.1 ∈ entries.map (·.1)) :
    (touch entries e).length ≤ entries.length := by
  obtain ⟨e', he', heq⟩ := List.mem_map.mp h
  have hshort : (entries.filter (·.1 ≠ e.1)).length < entries.length :=
    List.length_filter_lt_length_iff_exists.mpr ⟨e', he', by simp [heq]⟩
  show (entries.filter (·.1 ≠ e.1)).length + 1 ≤ entries.length
  omega

/-- Without the entry of one query, the first `n` of `n + 1` entries are those of all. -/
theorem take_filter_take (h : (entries.map (·.1)).Nodup) (q : Query) (n : Nat) :
    ((entries.take (n + 1)).filter (·.1 ≠ q)).take n = (entries.filter (·.1 ≠ q)).take n := by
  induction entries generalizing n with
  | nil => rfl
  | cons e entries ih =>
    obtain ⟨hnot, hnodup⟩ := List.nodup_cons.mp h
    by_cases he : e.1 = q
    · -- the entry is the first one, and the others stay
      have hrest : ∀ e' ∈ entries, decide (e'.1 ≠ q) = true := by
        intro e' he'
        simp only [ne_eq, decide_not, Bool.not_eq_eq_eq_not, Bool.not_true, decide_eq_false_iff_not]
        intro heq
        exact hnot (List.mem_map.mpr ⟨e', he', heq.trans he.symm⟩)
      rw [List.take_succ_cons, List.filter_cons_of_neg (by simpa using he),
        List.filter_cons_of_neg (by simpa using he), List.filter_eq_self.mpr hrest,
        List.filter_eq_self.mpr fun e' he' => hrest e' (List.mem_of_mem_take he'), List.take_take, Nat.min_self]
    · cases n with
      | zero => simp
      | succ n =>
        rw [List.take_succ_cons, List.filter_cons_of_pos (by simpa using he),
          List.filter_cons_of_pos (by simpa using he), List.take_succ_cons, List.take_succ_cons, ih hnodup n]

/-- Using an entry takes the same step on the window as on the whole. -/
theorem cut_touch (hcapacity : capacity ≠ some 0) (h : (entries.map (·.1)).Nodup) (e : Query × AliasSet) :
    cut capacity (touch (cut capacity entries) e) = cut capacity (touch entries e) := by
  match capacity with
  | none => rfl
  | some 0 => exact absurd rfl hcapacity
  | some (n + 1) =>
    simp only [cut, touch, List.take_succ_cons]
    rw [take_filter_take h e.1 n]

/-- An entry used inside the window pushes nothing out of it. -/
theorem cut_touch_of_mem {e : Query × AliasSet} (h : e.1 ∈ (cut capacity entries).map (·.1)) :
    cut capacity (touch (cut capacity entries) e) = touch (cut capacity entries) e := by
  match capacity with
  | none => rfl
  | some n => exact cut_eq_self.mpr ((length_touch_le h).trans (length_cut_le entries))

/-- The cache that holds the last entries of a history, as many as it has slots. -/
def window (capacity : Option Nat) (history : List (Query × AliasSet)) : QueryCache :=
  ⟨capacity, cut capacity (recent history)⟩

/-- After its last use a query is held until the window is full of others. -/
theorem find?_window_split (capacity : Option Nat) (h : q ∉ queriesOf back) (front : List (Query × AliasSet))
    (aliases : AliasSet) :
    ((window capacity (front ++ (q, aliases) :: back)).find? q = none ∧
        ∃ n, capacity = some n ∧ n ≤ (queriesOf back).card) ∨
      ((window capacity (front ++ (q, aliases) :: back)).find? q = some aliases ∧
        ∀ n, capacity = some n → (queriesOf back).card < n) := by
  obtain ⟨rest, hrest⟩ := recent_split h front aliases
  rw [window, find?, hrest, ← length_recent]
  have hnot : ∀ e ∈ recent back, (q != e.1) = true := by
    intro e he
    rw [bne_iff_ne]
    rintro rfl
    exact h (mem_keys_recent.mp (List.mem_map_of_mem he))
  match capacity with
  | none => exact Or.inr ⟨List.lookup_eq_some_iff.mpr ⟨_, _, rfl, hnot⟩, nofun⟩
  | some n =>
    by_cases hn : n ≤ (recent back).length
    · refine Or.inl ⟨?_, n, rfl, hn⟩
      rw [cut, List.take_append_of_le_length hn]
      exact List.lookup_eq_none_iff.mpr fun e he => hnot e (List.mem_of_mem_take he)
    · refine Or.inr ⟨?_, fun m hm => ?_⟩
      · obtain ⟨k, rfl⟩ := Nat.exists_eq_add_of_lt (Nat.lt_of_not_le hn)
        rw [cut, Nat.add_assoc, List.take_length_add_append, List.take_succ_cons]
        exact List.lookup_eq_some_iff.mpr ⟨_, _, rfl, hnot⟩
      · obtain rfl := Option.some.inj hm
        omega

/-- A query is missing exactly if it was never used, or as many others were used since
    as the window has slots. -/
theorem find?_window_eq_none : (window capacity history).find? q = none ↔
    q ∉ queriesOf history ∨ ∃ n, capacity = some n ∧ n ≤ (queriesOf (since q history)).card := by
  cases hlast : last? q history with
  | none =>
    have hq : q ∉ queriesOf history := last?_eq_none.mp hlast
    refine iff_of_true (List.lookup_eq_none_iff.mpr fun e he => ?_) (Or.inl hq)
    rw [bne_iff_ne]
    rintro rfl
    exact hq (mem_keys_recent.mp (List.mem_map_of_mem ((cut_sublist _ _).subset he)))
  | some aliases =>
    obtain ⟨front, back, rfl, hback⟩ := last?_eq_some.mp hlast
    have hq : q ∈ queriesOf (front ++ (q, aliases) :: back) := mem_queriesOf.mpr (by simp)
    rw [since_split hback]
    rcases find?_window_split capacity hback front aliases with ⟨hnone, hfull⟩ | ⟨hsome, hfits⟩
    · exact iff_of_true hnone (Or.inr hfull)
    · refine iff_of_false (by simp [hsome]) ?_
      rintro (hnot | ⟨n, hn, hle⟩)
      · exact hnot hq
      · have := hfits n hn
        omega

/-- What is held for a query is its last entry. -/
theorem find?_window_eq_some (h : (window capacity history).find? q = some aliases) :
    last? q history = some aliases := by
  cases hlast : last? q history with
  | none =>
    have hnone : (window capacity history).find? q = none :=
      find?_window_eq_none.mpr (Or.inl (last?_eq_none.mp hlast))
    rw [h] at hnone
    cases hnone
  | some aliases' =>
    obtain ⟨front, back, rfl, hback⟩ := last?_eq_some.mp hlast
    rcases find?_window_split capacity hback front aliases' with ⟨hnone, -⟩ | ⟨hsome, -⟩
    · rw [h] at hnone
      cases hnone
    · exact hsome.symm.trans h

/-! ## The operations -/

/-- A capacity of zero counts as none. -/
theorem capacity_ofCapacity_eq_some {configured : Option UInt64} {n : Nat} :
    (ofCapacity configured).capacity = some n ↔ ∃ k, configured = some k ∧ k ≠ 0 ∧ k.toNat = n := by
  have hzero : ∀ k : UInt64, k.toNat ≠ 0 ↔ k ≠ 0 := fun k => not_congr (UInt64.toNat_inj (b := 0))
  simp only [ofCapacity, Option.filter_eq_some_iff, Option.map_eq_some_iff, decide_eq_true_eq]
  constructor
  · rintro ⟨⟨k, hk, rfl⟩, hne⟩
    exact ⟨k, hk, (hzero k).mp hne, rfl⟩
  · rintro ⟨k, hk, hne, rfl⟩
    exact ⟨⟨k, hk, rfl⟩, (hzero k).mpr hne⟩

theorem capacity_ofCapacity_ne_zero (configured : Option UInt64) :
    (ofCapacity configured).capacity ≠ some 0 := by
  simp [ofCapacity, Option.filter_eq_some_iff]

theorem ofCapacity_eq_window (configured : Option UInt64) :
    ofCapacity configured = window (ofCapacity configured).capacity [] := by
  rw [window, recent_nil, cut_nil]
  rfl

/-- An insertion is a use. -/
theorem insert_window (hcapacity : capacity ≠ some 0) (history : List (Query × AliasSet)) (q : Query)
    (aliases : AliasSet) :
    (window capacity history).insert q aliases = window capacity (history ++ [(q, aliases)]) := by
  simp only [window, recent_concat]
  rw [← cut_touch hcapacity (nodup_keys_recent history)]
  rfl

/-- A lookup that hits is a use, too. -/
theorem get_window (hcapacity : capacity ≠ some 0) {c : QueryCache}
    (h : (window capacity history).get q = (some aliases, c)) :
    (window capacity history).find? q = some aliases ∧ c = window capacity (history ++ [(q, aliases)]) := by
  cases hfound : (window capacity history).find? q with
  | none =>
    rw [get_of_find?_none hfound] at h
    cases h
  | some found =>
    rw [get_of_find? hfound] at h
    cases h
    have hmem : q ∈ (cut capacity (recent history)).map (·.1) := List.mem_map_of_mem (mem_of_find? hfound)
    refine ⟨rfl, ?_⟩
    rw [← insert_window hcapacity]
    exact congrArg (QueryCache.mk capacity) (cut_touch_of_mem (e := (q, aliases)) hmem).symm

end QueryCache

end TaintAlias
