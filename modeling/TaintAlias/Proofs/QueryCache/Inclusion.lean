/-
  TaintAlias.Proofs.QueryCache.Inclusion — a larger cache never misses where a smaller one hits.

  Two caches, one with at most as many slots as the other, serve the same operations from
  empty. A lookup may hit in the larger one alone, and then moves its entry there alone,
  so the smaller one does not hold the first entries of the larger. It holds some of its
  entries, in the same order.

  That alone does not survive an insertion, where the larger cache may drop its last
  entry: a smaller one with room to spare would keep it. But a smaller cache with room to
  spare has dropped nothing yet and never differed from the larger. So the invariant
  `Inside` says of two caches that differ that the smaller one is full.

  Proved:
  - every operation keeps `Inside`: an insertion because whatever the larger cache drops
    the smaller one drops as well (`inside_insert`), a lookup because a hit in the smaller
    one is the same hit in the larger (`inside_get`, `find?_of_inside`);
  - so it holds after any operations (`inside_after`), and every lookup that then hits in
    the smaller cache gives the same answer in the larger (`hits_of_smaller`).
-/

import TaintAlias.Proofs.QueryCache

namespace TaintAlias

namespace QueryCache

/-! ## Operations -/

inductive Op where
  | get (q : Query)
  | insert (q : Query) (aliases : AliasSet)
  | clear

def step (c : QueryCache) : Op → QueryCache
  | .get q => (c.get q).2
  | .insert q aliases => c.insert q aliases
  | .clear => c.clear

/-- The cache after one operation after another. -/
def after (c : QueryCache) (ops : List Op) : QueryCache := ops.foldl step c

/-- If `d` is bounded, so is `c`, and at most as large. -/
def NoLarger (c d : QueryCache) : Prop := ∀ n, d.capacity = some n → ∃ m, c.capacity = some m ∧ m ≤ n

variable {c d : QueryCache} {q : Query} {aliases : AliasSet} {xs ys : List (Query × AliasSet)}

/-! ## Using an entry -/

theorem touch_of_notMem {e : Query × AliasSet} (h : e.1 ∉ xs.map (·.1)) : touch xs e = e :: xs := by
  unfold touch
  rw [List.filter_eq_self.mpr]
  intro x hx
  have hne : x.1 ≠ e.1 := fun heq => h (heq ▸ List.mem_map_of_mem hx)
  simpa using hne

/-- An entry in use is held once, so using it neither adds nor loses one. -/
theorem length_touch {e : Query × AliasSet} (hnodup : (xs.map (·.1)).Nodup) (h : e.1 ∈ xs.map (·.1)) :
    (touch xs e).length = xs.length := by
  have hkeys : (xs.filter (·.1 ≠ e.1)).map (·.1) = (xs.map (·.1)).erase e.1 := by
    rw [hnodup.erase_eq_filter, List.filter_map]
    congr 1
    exact List.filter_congr fun x _ => by simp [bne, decide_not, beq_eq_decide]
  have hlen := congrArg List.length hkeys
  rw [List.length_erase_of_mem h, List.length_map, List.length_map] at hlen
  have hpos : 0 < xs.length := by
    rw [← List.length_map (·.1)]
    exact List.length_pos_of_mem h
  show (xs.filter (·.1 ≠ e.1)).length + 1 = xs.length
  omega

theorem touch_sublist (h : xs.Sublist ys) (e : Query × AliasSet) : (touch xs e).Sublist (touch ys e) :=
  (h.filter _).cons_cons e

/-! ## Cutting to a capacity -/

@[simp] theorem cut_cut (capacity : Option Nat) (xs : List (Query × AliasSet)) :
    cut capacity (cut capacity xs) = cut capacity xs := by
  cases capacity with
  | none => rfl
  | some n => exact cut_eq_self.mpr (length_cut_le xs)

/-- Where something is cut off, no slot stays free. -/
theorem cut_eq_self_or_full (capacity : Option Nat) (xs : List (Query × AliasSet)) :
    cut capacity xs = xs ∨ capacity = some (cut capacity xs).length := by
  cases capacity with
  | none => exact Or.inl rfl
  | some n =>
    by_cases h : xs.length ≤ n
    · exact Or.inl (cut_eq_self.mpr h)
    · right
      rw [cut, List.length_take_of_le (by omega)]

/-- What fits a cache needs no cutting in a larger one. -/
theorem cut_of_noLarger (h : c.NoLarger d) (hcut : cut c.capacity xs = xs) : cut d.capacity xs = xs := by
  cases hd : d.capacity with
  | none => rfl
  | some n =>
    obtain ⟨m, hm, hmn⟩ := h n hd
    rw [hm, cut_eq_self] at hcut
    rw [cut_eq_self]
    omega

/-- The smaller cache cuts off more. -/
theorem cut_sublist_cut (h : c.NoLarger d) (xs : List (Query × AliasSet)) :
    (cut c.capacity xs).Sublist (cut d.capacity xs) := by
  cases hd : d.capacity with
  | none => exact cut_sublist _ xs
  | some n =>
    obtain ⟨m, hm, hmn⟩ := h n hd
    rw [hm]
    exact List.take_sublist_take_left hmn

/-- Using an entry that is held costs no other one. -/
theorem cut_touch_of_held {capacity : Option Nat} {e : Query × AliasSet} (hfits : cut capacity xs = xs)
    (h : e.1 ∈ xs.map (·.1)) : cut capacity (touch xs e) = touch xs e := by
  rw [← hfits] at h
  have htouch := cut_touch_of_mem h
  rwa [hfits] at htouch

theorem dropLast_sublist_dropLast (h : xs.Sublist ys) : xs.dropLast.Sublist ys.dropLast := by
  have htail := h.reverse.tail
  rwa [List.tail_reverse, List.tail_reverse, List.reverse_sublist] at htail

/-- One entry too many costs the last one. -/
theorem cut_cons_of_full {n : Nat} (h : xs.length = n) (e : Query × AliasSet) :
    cut (some n) (e :: xs) = (e :: xs).dropLast := by
  rw [List.dropLast_eq_take, List.length_cons, h]
  rfl

/-! ## The invariant -/

/-- What relates a cache to a larger one that served the same operations. -/
structure Inside (c d : QueryCache) : Prop where
  noLarger : c.NoLarger d
  /-- The smaller cache holds entries of the larger, in its order. -/
  entries : c.entries.Sublist d.entries
  /-- The two differ only once the smaller one is full. -/
  full : c.entries = d.entries ∨ c.capacity = some c.entries.length
  /-- The larger cache holds no more than it may, and a query once. -/
  fits : cut d.capacity d.entries = d.entries
  nodup : d.queries.Nodup

theorem Inside.queries (h : Inside c d) : c.queries.Sublist d.queries := h.entries.map _

theorem find?_eq_none : c.find? q = none ↔ q ∉ c.queries := by
  rw [find?, List.lookup_eq_none_iff, queries, List.mem_map, not_exists]
  refine forall_congr' fun e => ?_
  rw [not_and, bne_iff_ne]
  exact imp_congr_right fun _ => ne_comm

theorem find?_of_mem (hnodup : c.queries.Nodup) (h : (q, aliases) ∈ c.entries) : c.find? q = some aliases := by
  obtain ⟨before, behind, heq⟩ := List.append_of_mem h
  refine List.lookup_eq_some_iff.mpr ⟨before, behind, heq, fun e he => ?_⟩
  rw [queries, heq, List.map_append, List.map_cons] at hnodup
  rw [bne_iff_ne]
  rintro rfl
  exact (List.nodup_append.mp hnodup).2.2 _ (List.mem_map_of_mem he) _ List.mem_cons_self rfl

/-- What the smaller cache knows the larger one knows. -/
theorem find?_of_inside (h : Inside c d) (hc : c.find? q = some aliases) : d.find? q = some aliases :=
  find?_of_mem h.nodup (h.entries.subset (mem_of_find? hc))

/-! ## What each operation keeps -/

theorem inside_clear (h : Inside c d) : Inside c.clear d.clear where
  noLarger := h.noLarger
  entries := List.Sublist.refl []
  full := Or.inl rfl
  fits := cut_nil d.capacity
  nodup := List.nodup_nil

theorem inside_get (h : Inside c d) (q : Query) : Inside (c.get q).2 (d.get q).2 := by
  cases hc : c.find? q with
  | some aliases =>
    -- the same hit in both: the entry moves to the front in both
    have hd := find?_of_inside h hc
    have hmem : q ∈ c.queries := List.mem_map_of_mem (mem_of_find? hc)
    have hmem' : q ∈ d.queries := h.queries.subset hmem
    rw [get_of_find? hc, get_of_find? hd]
    refine ⟨h.noLarger, touch_sublist h.entries _, ?_, ?_, nodup_keys_touch h.nodup _⟩
    · have hlen := length_touch (e := (q, aliases)) (h.nodup.sublist h.queries) hmem
      rcases h.full with heq | hfull
      · exact Or.inl (congrArg (touch · (q, aliases)) heq)
      · exact Or.inr (hfull.trans (congrArg some hlen.symm))
    · exact cut_touch_of_held h.fits hmem'
  | none =>
    rw [get_of_find?_none hc]
    cases hd : d.find? q with
    | none =>
      rw [get_of_find?_none hd]
      exact h
    | some aliases =>
      -- a hit in the larger cache alone: what the smaller one holds stays in order
      have hnot : q ∉ c.queries := find?_eq_none.mp hc
      have hmem : q ∈ d.queries := List.mem_map_of_mem (mem_of_find? hd)
      rw [get_of_find? hd]
      refine ⟨h.noLarger, ?_, ?_, ?_, nodup_keys_touch h.nodup _⟩
      · have hmoved := touch_sublist h.entries (q, aliases)
        rw [touch_of_notMem hnot] at hmoved
        exact List.sublist_of_cons_sublist hmoved
      · refine h.full.elim (fun heq => absurd hmem ?_) Or.inr
        rwa [queries, ← heq]
      · exact cut_touch_of_held h.fits hmem

/-- Whatever the larger cache drops for a new entry, the smaller one drops as well. -/
theorem cut_touch_sublist (h : Inside c d) (e : Query × AliasSet) :
    (cut c.capacity (touch c.entries e)).Sublist (cut d.capacity (touch d.entries e)) := by
  have hmoved := touch_sublist h.entries e
  by_cases hfits : cut d.capacity (touch d.entries e) = touch d.entries e
  · rw [hfits]
    exact (cut_sublist _ _).trans hmoved
  · rcases h.full with heq | hfull
    · rw [heq]
      exact cut_sublist_cut h.noLarger _
    · -- both are full, and the entry is new to both: each drops its last one
      obtain ⟨n, hn, hmn⟩ : ∃ n, d.capacity = some n ∧ c.entries.length ≤ n := by
        cases hd : d.capacity with
        | none => exact absurd (by rw [hd]; rfl) hfits
        | some n =>
          obtain ⟨m, hm, hmn⟩ := h.noLarger n hd
          obtain rfl := Option.some.inj (hfull.symm.trans hm)
          exact ⟨n, rfl, hmn⟩
      have hlen := h.fits
      rw [hn, cut_eq_self] at hlen
      rw [hn, cut_eq_self] at hfits
      have hnot : e.1 ∉ d.queries := fun hmem => hfits ((length_touch_le hmem).trans hlen)
      have hnot' : e.1 ∉ c.queries := fun hmem => hnot (h.queries.subset hmem)
      rw [touch_of_notMem hnot, List.length_cons] at hfits
      have hfulld : d.entries.length = n := by omega
      rw [hn, hfull, touch_of_notMem hnot, touch_of_notMem hnot', cut_cons_of_full hfulld, cut_cons_of_full rfl]
      exact dropLast_sublist_dropLast (h.entries.cons_cons e)

/-- After a new entry, too, the smaller cache is full or holds what the larger one does. -/
theorem full_insert (h : Inside c d) (e : Query × AliasSet) :
    cut c.capacity (touch c.entries e) = cut d.capacity (touch d.entries e) ∨
      c.capacity = some (cut c.capacity (touch c.entries e)).length := by
  rcases cut_eq_self_or_full c.capacity (touch c.entries e) with hsame | hfull
  · rcases h.full with heq | hfull
    · left
      rw [← heq, hsame, cut_of_noLarger h.noLarger hsame]
    · -- full before, and nothing was cut off: the entry was there already
      right
      have hmem : e.1 ∈ c.queries := by
        by_contra hnot
        rw [hfull, cut_eq_self, touch_of_notMem hnot, List.length_cons] at hsame
        omega
      rw [hsame, length_touch (h.nodup.sublist h.queries) hmem]
      exact hfull
  · exact Or.inr hfull

theorem inside_insert (h : Inside c d) (q : Query) (aliases : AliasSet) :
    Inside (c.insert q aliases) (d.insert q aliases) where
  noLarger := h.noLarger
  entries := cut_touch_sublist h (q, aliases)
  full := full_insert h (q, aliases)
  fits := cut_cut d.capacity _
  nodup := (nodup_keys_touch h.nodup (q, aliases)).sublist ((cut_sublist d.capacity _).map _)

/-! ## One operation after another -/

theorem inside_step (h : Inside c d) (op : Op) : Inside (c.step op) (d.step op) := by
  cases op with
  | get q => exact inside_get h q
  | insert q aliases => exact inside_insert h q aliases
  | clear => exact inside_clear h

theorem inside_after (h : Inside c d) (ops : List Op) : Inside (c.after ops) (d.after ops) := by
  induction ops generalizing c d with
  | nil => exact h
  | cons op ops ih => exact ih (inside_step h op)

theorem inside_ofCapacity {small large : Option UInt64} (h : (ofCapacity small).NoLarger (ofCapacity large)) :
    Inside (ofCapacity small) (ofCapacity large) where
  noLarger := h
  entries := List.Sublist.refl []
  full := Or.inl rfl
  fits := cut_nil _
  nodup := List.nodup_nil

/-- Two empty caches, the second bounded no tighter than the first, serve the same
    operations. Then the first holds some of the entries of the second, each query with
    the same alias set and in the same order of recency, and a lookup that hits in the
    first gives the same answer in the second. -/
theorem hits_of_smaller {small large : Option UInt64} (h : (ofCapacity small).NoLarger (ofCapacity large))
    (ops : List Op) :
    let c := (ofCapacity small).after ops
    let d := (ofCapacity large).after ops
    c.entries.Sublist d.entries ∧ c.queries.Sublist d.queries ∧ d.queries.Nodup ∧
      ∀ q aliases, (c.get q).1 = some aliases → (d.get q).1 = some aliases := by
  intro c d
  have hinside : Inside c d := inside_after (inside_ofCapacity h) ops
  refine ⟨hinside.entries, hinside.queries, hinside.nodup, fun q aliases hget => ?_⟩
  cases hc : c.find? q with
  | some found =>
    rw [get_of_find? hc] at hget
    obtain rfl := Option.some.inj hget
    rw [get_of_find? (find?_of_inside hinside hc)]
  | none =>
    rw [get_of_find?_none hc] at hget
    cases hget

/-- The query for `v` at one statement. -/
def queryOf (v : Variable) : Query := ⟨⟨1⟩, ⟨1⟩, ⟨2⟩, v⟩

/-- `v1` is found with three slots alone and moves to the front there; with two slots the
    entries of `v3` and `v4` are left, with three that of `v1` stands between them. -/
theorem hits_of_smaller_moved :
    let ops : List Op := [.insert (queryOf ⟨1⟩) .empty, .insert (queryOf ⟨2⟩) .empty,
      .insert (queryOf ⟨3⟩) .empty, .get (queryOf ⟨1⟩), .insert (queryOf ⟨4⟩) .empty]
    let c := (ofCapacity (some 2)).after ops
    let d := (ofCapacity (some 3)).after ops
    c.queries = [queryOf ⟨4⟩, queryOf ⟨3⟩] ∧ d.queries = [queryOf ⟨4⟩, queryOf ⟨1⟩, queryOf ⟨3⟩] ∧
      c.entries.Sublist d.entries ∧ (d.get (queryOf ⟨3⟩)).1 = some .empty := by
  intro ops c d
  have hle : (ofCapacity (some 2)).NoLarger (ofCapacity (some 3)) := by
    intro n hn
    exact ⟨2, rfl, by cases hn; decide⟩
  obtain ⟨hentries, -, -, hhits⟩ := hits_of_smaller hle ops
  exact ⟨by decide, by decide, hentries, hhits _ _ rfl⟩

end QueryCache

end TaintAlias
