/-
  TaintAlias.Proofs.QueryCache.Recency — a cache holds what was touched last.

  An insertion touches its query, and so does a lookup that hits; whether one hits is up to
  the touches before it. A clear forgets them all. `touched` lists the queries touched since
  the last clear, as often as they were, and `inserted` what was inserted since then.

  The cache after any operations is the window on a history whose queries are `touched`
  (`exists_recalls`): a hit touches its query with the answer it was inserted with, so the
  history has for every query what was inserted last, although it has more entries.

  Proved (`holds_last_touched`): the queries held are the last ones touched, each once, as
  many as there are slots, most recent first; there are as many as were inserted, up to the
  capacity; each has the alias set of its last insertion; and a lookup that misses changes
  nothing.
-/

import Mathlib.Data.List.Dedup
import TaintAlias.Proofs.QueryCache.Inclusion

namespace TaintAlias

namespace QueryCache

/-! ## What is touched -/

/-- The query an operation touches in `c`. -/
def Op.touch? (c : QueryCache) : Op → Option Query
  | .get q => (c.get q).1.map fun _ => q
  | .insert q _ => some q
  | .clear => none

/-- One more operation on a cache, and on the queries touched in it since the last clear. -/
def watch (w : QueryCache × List Query) (op : Op) : QueryCache × List Query :=
  (w.1.step op, match op with
    | .clear => []
    | op => w.2 ++ (op.touch? w.1).toList)

/-- The queries touched since the last clear, in order. -/
def touched (c : QueryCache) (ops : List Op) : List Query := (ops.foldl watch (c, [])).2

/-- One more operation on what was inserted since the last clear. -/
def note (insertions : List (Query × AliasSet)) : Op → List (Query × AliasSet)
  | .get _ => insertions
  | .insert q aliases => insertions ++ [(q, aliases)]
  | .clear => []

/-- What was inserted since the last clear, in order. -/
def inserted (ops : List Op) : List (Query × AliasSet) := ops.foldl note []

variable {c : QueryCache} {q : Query} {aliases : AliasSet} {capacity : Option Nat} {ops : List Op}
  {history : List (Query × AliasSet)}

theorem after_concat (c : QueryCache) (ops : List Op) (op : Op) :
    c.after (ops ++ [op]) = (c.after ops).step op := by
  simp [after]

theorem watch_fst (w : QueryCache × List Query) (ops : List Op) :
    (ops.foldl watch w).1 = w.1.after ops := by
  induction ops generalizing w with
  | nil => rfl
  | cons op ops ih => exact ih (watch w op)

theorem touched_concat (c : QueryCache) (ops : List Op) (op : Op) :
    c.touched (ops ++ [op]) = (watch (c.after ops, c.touched ops) op).2 := by
  rw [touched, List.foldl_append, ← watch_fst (c, [])]
  rfl

theorem inserted_concat (ops : List Op) (op : Op) : inserted (ops ++ [op]) = note (inserted ops) op := by
  simp [inserted]

/-- A lookup that misses changes nothing. -/
theorem get_of_miss (h : (c.get q).1 = none) : (c.get q).2 = c := by
  cases hfound : c.find? q with
  | none => rw [get_of_find?_none hfound]
  | some aliases =>
    rw [get_of_find? hfound] at h
    cases h

/-! ## The order of last touches -/

/-- A query touched again moves to the end. -/
theorem dedup_concat (queries : List Query) (q : Query) :
    (queries ++ [q]).dedup = queries.dedup.filter (· ≠ q) ++ [q] := by
  induction queries with
  | nil => rfl
  | cons x queries ih =>
    rw [List.cons_append]
    by_cases hx : x ∈ queries
    · rw [List.dedup_cons_of_mem (List.mem_append_left _ hx), List.dedup_cons_of_mem hx, ih]
    · rw [List.dedup_cons_of_notMem hx]
      by_cases hq : x = q
      · have hin : x ∈ queries ++ [q] := by simp [hq]
        rw [List.dedup_cons_of_mem hin, ih, List.filter_cons_of_neg (by simpa using hq)]
      · have hnot : x ∉ queries ++ [q] := by simp [hx, hq]
        rw [List.dedup_cons_of_notMem hnot, ih, List.filter_cons_of_pos (by simpa using hq), List.cons_append]

/-- The last entries of a history stand in the order its queries were last used in. -/
theorem keys_recent (history : List (Query × AliasSet)) :
    (recent history).map (·.1) = (history.map (·.1)).dedup.reverse := by
  induction history using List.reverseRecOn with
  | nil => rfl
  | append_singleton history e ih =>
    have hrest : ((recent history).filter (·.1 ≠ e.1)).map (·.1) =
        ((recent history).map (·.1)).filter (· ≠ e.1) := by
      rw [List.filter_map]
      rfl
    rw [recent_concat, touch, List.map_cons, hrest, ih, List.map_append, List.map_singleton, dedup_concat,
      List.reverse_append, ← List.filter_reverse]
    rfl

/-- `k`, but no more than the bound, if there is one. -/
def atMost (n : Option Nat) (k : Nat) : Nat := n.elim k (min · k)

theorem queries_window (capacity : Option Nat) (history : List (Query × AliasSet)) :
    (window capacity history).queries = capacity.elim id List.take (history.map (·.1)).dedup.reverse := by
  rw [queries, window, ← keys_recent]
  cases capacity with
  | none => rfl
  | some n => exact List.map_take

theorem size_window (capacity : Option Nat) (history : List (Query × AliasSet)) :
    (window capacity history).size = atMost capacity (queriesOf history).card := by
  rw [size, window, ← length_recent]
  cases capacity with
  | none => rfl
  | some n => exact List.length_take

/-! ## The history behind a cache -/

theorem last?_concat (q : Query) (history : List (Query × AliasSet)) (e : Query × AliasSet) :
    last? q (history ++ [e]) = if q = e.1 then some e.2 else last? q history := by
  rw [last?, List.reverse_append, List.reverse_singleton, List.singleton_append, List.lookup_cons]
  by_cases hq : q = e.1
  · rw [if_pos hq, beq_iff_eq.mpr hq]
  · rw [if_neg hq, beq_eq_false_iff_ne.mpr hq]
    rfl

theorem queriesOf_eq_of_last? {front : List (Query × AliasSet)} (h : ∀ q, last? q history = last? q front) :
    queriesOf history = queriesOf front := by
  ext q
  rw [← not_iff_not, ← last?_eq_none, ← last?_eq_none, h q]

/-- `c` is the window on a history of the queries touched, which has for each of them what
    was inserted last. -/
structure Recalls (capacity : Option Nat) (history : List (Query × AliasSet)) (c : QueryCache)
    (queries : List Query) (insertions : List (Query × AliasSet)) : Prop where
  window : c = window capacity history
  queries : history.map (·.1) = queries
  last : ∀ q, last? q history = last? q insertions

variable {queries : List Query} {insertions : List (Query × AliasSet)}

theorem recalls_start (configured : Option UInt64) :
    Recalls (ofCapacity configured).capacity [] (ofCapacity configured) [] [] where
  window := ofCapacity_eq_window configured
  queries := rfl
  last _ := rfl

/-- A hit touches its query with what was inserted last. -/
theorem Recalls.hit (h : Recalls capacity history c queries insertions) (hcapacity : capacity ≠ some 0)
    {c' : QueryCache} (hget : c.get q = (some aliases, c')) :
    Recalls capacity (history ++ [(q, aliases)]) c' (queries ++ [q]) insertions := by
  rw [h.window] at hget
  obtain ⟨hfound, hwindow⟩ := get_window hcapacity hget
  refine ⟨hwindow, by rw [List.map_append, h.queries]; rfl, ?_⟩
  intro p
  rw [last?_concat]
  split
  · rename_i hp
    rw [← h.last p, hp, find?_window_eq_some hfound]
  · exact h.last p

theorem Recalls.insert (h : Recalls capacity history c queries insertions) (hcapacity : capacity ≠ some 0)
    (q : Query) (aliases : AliasSet) :
    Recalls capacity (history ++ [(q, aliases)]) (c.insert q aliases) (queries ++ [q])
      (insertions ++ [(q, aliases)]) := by
  refine ⟨?_, by rw [List.map_append, h.queries]; rfl, ?_⟩
  · rw [h.window, insert_window hcapacity]
  · intro p
    rw [last?_concat, last?_concat, h.last p]

theorem Recalls.clear (h : Recalls capacity history c queries insertions) :
    Recalls capacity [] c.clear [] [] := by
  refine ⟨?_, rfl, fun p => rfl⟩
  rw [h.window, QueryCache.clear, QueryCache.window, QueryCache.window, recent_nil, cut_nil]

theorem exists_recalls (configured : Option UInt64) (ops : List Op) :
    ∃ history, Recalls (ofCapacity configured).capacity history ((ofCapacity configured).after ops)
      ((ofCapacity configured).touched ops) (inserted ops) := by
  have hcapacity := capacity_ofCapacity_ne_zero configured
  induction ops using List.reverseRecOn with
  | nil => exact ⟨[], recalls_start configured⟩
  | append_singleton ops op ih =>
    obtain ⟨history, h⟩ := ih
    rw [after_concat, touched_concat, inserted_concat]
    cases op with
    | insert q aliases => exact ⟨_, h.insert hcapacity q aliases⟩
    | clear => exact ⟨[], h.clear⟩
    | get q =>
      cases hget : ((ofCapacity configured).after ops).get q with
      | mk found c =>
        simp only [watch, step, Op.touch?, note, hget]
        cases found with
        | some aliases => exact ⟨_, h.hit hcapacity hget⟩
        | none =>
          have hmiss : c = (ofCapacity configured).after ops := by
            have hsame := get_of_miss (congrArg Prod.fst hget)
            rwa [hget] at hsame
          exact ⟨history, by simpa [hmiss] using h⟩

/-! ## What is held -/

/-- After any operations on an empty cache every query has at most one entry. There are as
    many entries as different queries were inserted since the last clear, up to the
    capacity. The queries held are those touched last since then, most recent first, and
    the entry of each is what was inserted for it last. A lookup that misses changes
    nothing. -/
theorem holds_last_touched (configured : Option UInt64) (ops : List Op) :
    let n := (ofCapacity configured).capacity
    let c := (ofCapacity configured).after ops
    c.queries.Nodup ∧ c.size = atMost n (queriesOf (inserted ops)).card ∧ (c.isEmpty = true ↔ c.size = 0) ∧
      c.queries = n.elim id List.take ((ofCapacity configured).touched ops).dedup.reverse ∧
      (∀ e ∈ c.entries, last? e.1 (inserted ops) = some e.2) ∧
      ∀ q, (c.get q).1 = none → (c.get q).2 = c := by
  intro n c
  obtain ⟨history, h⟩ := exists_recalls configured ops
  have hwindow : c = window n history := h.window
  have hnodup : c.queries.Nodup := by
    rw [hwindow]
    exact (nodup_keys_recent history).sublist ((cut_sublist n _).map _)
  refine ⟨hnodup, ?_, ?_, ?_, ?_, fun q => get_of_miss⟩
  · rw [hwindow, size_window, queriesOf_eq_of_last? h.last]
  · rw [isEmpty, size, List.isEmpty_iff, List.length_eq_zero_iff]
  · rw [hwindow, queries_window, h.queries]
  · intro e he
    have hfound : (window n history).find? e.1 = some e.2 := by
      rw [← hwindow]
      exact find?_of_mem hnodup he
    rw [← h.last, find?_window_eq_some hfound]

/-- Two slots. `v1` is used again before `v3` comes, so `v2` goes; then `v1` is inserted again
    where both slots are taken. -/
theorem holds_last_touched_reinserted :
    let old : AliasSet := .ofList [.ofLocal ⟨7⟩]
    let new : AliasSet := .ofList [.ofLocal ⟨8⟩]
    let ops : List Op := [.insert (queryOf ⟨9⟩) old, .clear, .insert (queryOf ⟨1⟩) old,
      .insert (queryOf ⟨2⟩) old, .get (queryOf ⟨1⟩), .insert (queryOf ⟨3⟩) old, .get (queryOf ⟨2⟩),
      .insert (queryOf ⟨1⟩) new]
    let c := (ofCapacity (some 2)).after ops
    (ofCapacity (some 2)).touched ops = [1, 2, 1, 3, 1].map (fun v => queryOf ⟨v⟩) ∧
      c.queries = [queryOf ⟨1⟩, queryOf ⟨3⟩] ∧ c.size = 2 ∧
      last? (queryOf ⟨1⟩) (inserted ops) = some new ∧
      (c.get (queryOf ⟨2⟩)).1 = none ∧ (c.get (queryOf ⟨2⟩)).2 = c := by
  intro old new ops c
  obtain ⟨-, hsize, -, hqueries, hentries, hmiss⟩ := holds_last_touched (some 2) ops
  have hfirst : (queryOf ⟨1⟩, new) ∈ c.entries := List.mem_cons_self
  exact ⟨by decide, hqueries.trans (by decide), hsize.trans (by decide), hentries _ hfirst, rfl, hmiss _ rfl⟩

end QueryCache

end TaintAlias
