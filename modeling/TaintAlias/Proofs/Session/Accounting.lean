/-
  TaintAlias.Proofs.Session.Accounting — the counters of a session, from its log.

  A call moves the counters at up to four places: a hit or a miss, the solve, and the
  count of the query. What must hold between them, the answers given and the solves is
  `Balanced`, and a call keeps it whatever becomes of it (`balanced_run`): an answer moves
  all counters it concerns, and a call that fails moves none. Propagations are added up in
  64 bits, which is exact as long as the sum fits (`Totals`).

  Two laws need the cache as well. A query that hits was answered before, so there are
  at least as many solves as different queries (`card_answers_le_solves`). A query is
  solved twice only if the cache lost it, which takes more different queries than the
  cache has slots; if they fit, each query is solved once (`solves_of_fits`).

  All of it together, for any session and any calls, is `counters_run`.
-/

import Mathlib.Algebra.GroupWithZero.Nat
import TaintAlias.Proofs.Session.History
import TaintAlias.Proofs.Text

namespace TaintAlias

/-! ## Sums in 64 bits -/

/-- `n` is the sum of `ns` in 64 bits. -/
def Totals (ns : List UInt64) (n : UInt64) : Prop := n.toNat = (ns.map UInt64.toNat).sum % 2 ^ 64

/-- Which is the sum itself, if that fits. -/
theorem Totals.exact {ns : List UInt64} {n : UInt64} (h : Totals ns n)
    (hfits : (ns.map UInt64.toNat).sum < 2 ^ 64) : n.toNat = (ns.map UInt64.toNat).sum := by
  rw [h, Nat.mod_eq_of_lt hfits]

theorem totals_singleton (n : UInt64) : Totals [n] n := (Nat.mod_eq_of_lt n.toNat_lt).symm

theorem Totals.add {ns ms : List UInt64} {n m : UInt64} (hn : Totals ns n) (hm : Totals ms m) :
    Totals (ns ++ ms) (n + m) := by
  rw [Totals, UInt64.toNat_add, hn, hm, List.map_append, List.sum_append, ← Nat.add_mod]

/-- The order of the summands does not matter. -/
theorem Totals.perm {ns ms : List UInt64} {n m : UInt64} (hn : Totals ns n) (hm : Totals ms m) (h : ns.Perm ms) :
    n = m := by
  rw [← UInt64.toNat_inj, hn, hm, (h.map _).sum_nat]

namespace Session

open QueryCache

variable {s : Session} {q : Query} {history : List (Query × AliasSet)} {solved : List Answer}

/-! ## Counting by text -/

theorem keys_bump (text : String) (counts : List (String × Nat)) :
    (bump text counts).map (·.1) =
      if text ∈ counts.map (·.1) then counts.map (·.1) else counts.map (·.1) ++ [text] := by
  induction counts with
  | nil => rfl
  | cons e rest ih =>
    obtain ⟨t, n⟩ := e
    by_cases ht : t = text
    · simp [bump, ht]
    · rw [bump, if_neg ht, List.map_cons, ih]
      by_cases hmem : text ∈ rest.map (·.1)
      · simp [hmem]
      · simp [hmem, Ne.symm ht]

/-- The texts counted are those of the queries answered, each once. -/
structure Counted (history : List (Query × AliasSet)) (counts : List (String × Nat)) : Prop where
  nodup : (counts.map (·.1)).Nodup
  keys : (counts.map (·.1)).toFinset = (queriesOf history).image Query.text

theorem Counted.bump {counts : List (String × Nat)} (h : Counted history counts) (e : Query × AliasSet) :
    Counted (history ++ [e]) (bump e.1.text counts) where
  nodup := by
    rw [keys_bump]
    split
    · exact h.nodup
    · rename_i hnew
      simpa using h.nodup.concat hnew
  keys := by
    rw [keys_bump, queriesOf_concat, Finset.image_insert, ← h.keys]
    split
    · rename_i hold
      exact (Finset.insert_eq_of_mem (List.mem_toFinset.mpr hold)).symm
    · rw [List.toFinset_append, Finset.union_comm]
      rfl

/-- One entry for each query, since no two of them share a text. -/
theorem Counted.length_eq {counts : List (String × Nat)} (h : Counted history counts) :
    counts.length = (queriesOf history).card := by
  calc
    counts.length = (counts.map (·.1)).length := (List.length_map _).symm
    _ = (counts.map (·.1)).toFinset.card := (List.toFinset_card_of_nodup h.nodup).symm
    _ = ((queriesOf history).image Query.text).card := by rw [h.keys]
    _ = (queriesOf history).card := Finset.card_image_of_injective _ Query.text_injective

/-! ## What a call keeps -/

/-- The counters of `s` agree with each other, the answers given and the solves. -/
structure Balanced (history : List (Query × AliasSet)) (solved : List Answer) (s : Session) : Prop where
  counted : Counted history s.counts
  distinct : s.counters.distinct = s.counts.length
  invocations : s.counters.invocations = history.length
  solves : s.counters.solves = solved.length
  forward : Totals (solved.map (·.forward)) s.counters.forward
  backward : Totals (solved.map (·.backward)) s.counters.backward
  lookups : s.counters.hits + s.counters.solves = s.counters.invocations
  misses : s.counters.misses = if s.isCaching then s.counters.solves else 0
  uncached : s.isCaching = false → s.counters.hits = 0

theorem balanced_start (strategy : Sparsification) (config : Config) :
    Balanced [] [] (start strategy config) where
  counted := ⟨List.nodup_nil, rfl⟩
  distinct := rfl
  invocations := rfl
  solves := rfl
  forward := rfl
  backward := rfl
  lookups := rfl
  misses := (ite_self 0).symm
  uncached _ := rfl

theorem Balanced.hit (h : Balanced history solved s) {s' : Session} {aliases : AliasSet}
    (hl : s.lookup q = some (aliases, s')) (nanos : Nat) :
    Balanced (history ++ [(q, aliases)]) solved (s'.count q nanos) := by
  obtain ⟨cache, cache', hc, -, rfl⟩ := lookup_eq_some hl
  have hcaching : s.isCaching = true := by simp [isCaching, hc]
  have hmisses := h.misses
  rw [hcaching] at hmisses
  exact {
    counted := h.counted.bump _
    distinct := rfl
    invocations := by simp [count, h.invocations]
    solves := h.solves
    forward := h.forward
    backward := h.backward
    lookups := by
      have := h.lookups
      simp only [count]
      omega
    misses := hmisses
    uncached := fun hoff => absurd hoff (by simp [isCaching, count]) }

theorem Balanced.solve (h : Balanced history solved s) (q : Query) (a : Answer) (nanos : Nat) :
    Balanced (history ++ [(q, a.aliases)]) (solved ++ [a]) ((s.learn q a).count q nanos) where
  counted := h.counted.bump _
  distinct := rfl
  invocations := by simp [count, learn, h.invocations]
  solves := by simp [count, learn, h.solves]
  forward := by
    rw [List.map_append]
    exact h.forward.add (totals_singleton a.forward)
  backward := by
    rw [List.map_append]
    exact h.backward.add (totals_singleton a.backward)
  lookups := by
    have := h.lookups
    simp only [count, learn]
    omega
  misses := by
    have hkept : ((s.learn q a).count q nanos).isCaching = s.isCaching := by simp [isCaching, count, learn]
    rw [hkept]
    simp only [count, learn, h.misses]
    cases s.isCaching <;> rfl
  uncached := by
    intro hno
    exact h.uncached (by simpa [isCaching, count, learn] using hno)

theorem balanced_run (strategy : Sparsification) {config : Config} (hdisabled : config.disabled = false)
    (calls : List Call) :
    Balanced (answers ((start strategy config).serve calls))
      (solves ((start strategy config).serve calls)) ((start strategy config).run calls) := by
  induction calls using List.reverseRecOn with
  | nil => exact balanced_start strategy config
  | append_singleton calls c ih =>
    rw [run_concat, serve_concat, answers_concat, solves_concat]
    cases recorded_run strategy hdisabled calls c with
    | failed hans hsol _ hs => simpa [hans, hsol, hs] using ih
    | hit hl hans hsol _ hs =>
      rw [hans, hsol, hs, Option.toList_none, List.append_nil]
      exact ih.hit hl _
    | solved _ hans hsol _ hs =>
      rw [hans, hsol, hs]
      exact ih.solve _ _ _

/-! ## Solves and different queries -/

/-- Each answer belongs to a call that succeeded. -/
theorem length_answers (strategy : Sparsification) {config : Config} (hdisabled : config.disabled = false)
    (calls : List Call) :
    (answers ((start strategy config).serve calls)).length =
      ((start strategy config).serve calls).countP (·.reply.result.isOk) := by
  induction calls using List.reverseRecOn with
  | nil => rfl
  | append_singleton calls c ih =>
    rw [serve_concat, answers_concat, List.length_append, List.countP_append, ih]
    cases recorded_run strategy hdisabled calls c with
    | failed hans _ hok _ => simp [hans, hok]
    | hit _ hans _ hok _ => simp [hans, hok]
    | solved _ hans _ hok _ => simp [hans, hok]

/-- The first answer to a query is solved. -/
theorem card_answers_le_solves (strategy : Sparsification) {config : Config}
    (hdisabled : config.disabled = false) (calls : List Call) :
    (queriesOf (answers ((start strategy config).serve calls))).card ≤
      (solves ((start strategy config).serve calls)).length := by
  induction calls using List.reverseRecOn with
  | nil => exact Nat.le_refl 0
  | append_singleton calls c ih =>
    rw [serve_concat, answers_concat, solves_concat]
    cases recorded_run strategy hdisabled calls c with
    | failed hans hsol _ _ => simpa [hans, hsol] using ih
    | hit hl hans hsol _ _ =>
      have hold := mem_queriesOf_of_last? (last?_of_lookup strategy hdisabled hl)
      rw [hans, hsol, Option.toList_some, queriesOf_concat, Finset.insert_eq_of_mem hold, Option.toList_none,
        List.append_nil]
      exact ih
    | solved _ hans hsol _ _ =>
      rw [hans, hsol]
      simp only [Option.toList_some, queriesOf_concat, List.length_append]
      exact (Finset.card_insert_le _ _).trans (Nat.succ_le_succ ih)

/-- A cache of this capacity has room for `k` answers; a capacity of zero counts as none. -/
def Fits (capacity : Option UInt64) (k : Nat) : Prop := ∀ n, capacity = some n → n = 0 ∨ k ≤ n.toNat

theorem Fits.mono {capacity : Option UInt64} {j k : Nat} (h : Fits capacity k) (hjk : j ≤ k) : Fits capacity j :=
  fun n hn => (h n hn).imp_right hjk.trans

/-- Where all queries answered fit, a forgotten one is new. -/
theorem notMem_of_forgotten {capacity : Option UInt64} (hfits : Fits capacity (queriesOf history).card)
    (h : Forgotten capacity history q) : q ∉ queriesOf history := by
  rcases h with hnew | ⟨n, hn, hne, hle⟩
  · exact hnew
  · intro hmem
    have hlt := card_since_lt hmem
    have hroom := (hfits n hn).resolve_left hne
    omega

/-- Where all queries answered fit, each is solved once. -/
theorem solves_of_fits (strategy : Sparsification) {config : Config} (hcaching : config.caching = true)
    (hdisabled : config.disabled = false) (calls : List Call)
    (hfits : Fits config.capacity
      (queriesOf (answers ((start strategy config).serve calls))).card) :
    (solves ((start strategy config).serve calls)).length =
      (queriesOf (answers ((start strategy config).serve calls))).card := by
  induction calls using List.reverseRecOn with
  | nil => rfl
  | append_singleton calls c ih =>
    rw [serve_concat, answers_concat] at hfits
    have hpast : Fits config.capacity
        (queriesOf (answers ((start strategy config).serve calls))).card :=
      hfits.mono (Finset.card_le_card (queriesOf_mono (List.subset_append_left _ _)))
    have ih := ih hpast
    rw [serve_concat, answers_concat, solves_concat]
    cases recorded_run strategy hdisabled calls c with
    | failed hans hsol _ _ => simpa [hans, hsol] using ih
    | hit hl hans hsol _ _ =>
      have hold := mem_queriesOf_of_last? (last?_of_lookup strategy hdisabled hl)
      rw [hans, hsol, Option.toList_some, queriesOf_concat, Finset.insert_eq_of_mem hold, Option.toList_none,
        List.append_nil]
      exact ih
    | solved hl hans hsol _ _ =>
      have hcache := cache_run strategy hcaching hdisabled calls
      have hnew := notMem_of_forgotten hpast (forgotten_iff.mpr ((lookup_eq_none_iff hcache).mp hl))
      rw [hans, hsol]
      simp only [Option.toList_some, queriesOf_concat]
      rw [Finset.card_insert_of_notMem hnew, List.length_append, ih]
      rfl

/-! ## Disabled sessions -/

theorem reply_of_disabled (hd : s.disabled = true) (c : Call) :
    s.reply c = { result := .ok .empty, session := s } := by
  simp [reply, getAliases, hd]

/-- A disabled session never changes and never asks. -/
theorem run_of_disabled (hd : s.disabled = true) (calls : List Call) :
    s.run calls = s ∧ ∀ x ∈ s.serve calls, x.reply.asked = none := by
  induction calls with
  | nil => exact ⟨rfl, by simp [serve]⟩
  | cons c calls ih =>
    have hreply := reply_of_disabled hd c
    constructor
    · calc
        s.run (c :: calls) = (s.reply c).session.run calls := rfl
        _ = s.run calls := by rw [hreply]
        _ = s := ih.1
    · rw [serve, hreply]
      exact List.forall_mem_cons.mpr ⟨rfl, ih.2⟩

/-! ## The law -/

/-- The counters of a session that was disabled, and of one that was not, after any calls
    on any programs to any oracles. The propagations are the sums over the solves, in 64
    bits: the sums themselves wherever they fit (`Totals.exact`). -/
theorem counters_run (strategy : Sparsification) (config : Config) (calls : List Call) :
    let log := (start strategy config).serve calls
    let counters := ((start strategy config).run calls).counters
    (config.disabled = true → counters = {} ∧ ∀ x ∈ log, x.reply.asked = none) ∧
    (config.disabled = false →
      counters.invocations = log.countP (·.reply.result.isOk) ∧
      counters.distinct = (queriesOf (answers log)).card ∧
      counters.solves = (solves log).length ∧
      Totals ((solves log).map (·.forward)) counters.forward ∧
      Totals ((solves log).map (·.backward)) counters.backward ∧
      (config.caching = false →
        counters.hits = 0 ∧ counters.misses = 0 ∧ counters.solves = counters.invocations) ∧
      (config.caching = true →
        counters.hits + counters.misses = counters.invocations ∧ counters.misses = counters.solves ∧
        counters.distinct ≤ counters.misses ∧
        (Fits config.capacity counters.distinct → counters.misses = counters.distinct))) := by
  intro log counters
  refine ⟨fun hdisabled => ?_, fun hdisabled => ?_⟩
  · have hoff : (start strategy config).disabled = true := hdisabled
    obtain ⟨hrun, hasked⟩ := run_of_disabled hoff calls
    exact ⟨by rw [show counters = _ from congrArg Session.counters hrun]; rfl, hasked⟩
  have h : Balanced (answers log) (solves log) ((start strategy config).run calls) :=
    balanced_run strategy hdisabled calls
  have hdistinct : counters.distinct = (queriesOf (answers log)).card :=
    h.distinct.trans h.counted.length_eq
  have hcaching := run_start_caching strategy config calls
  have hlookups : counters.hits + counters.solves = counters.invocations := h.lookups
  have hmisses : counters.misses = if config.caching then counters.solves else 0 := by
    rw [← hcaching]
    exact h.misses
  refine ⟨h.invocations.trans (length_answers strategy hdisabled calls), hdistinct, h.solves,
    h.forward, h.backward, fun hoff => ?_, fun hon => ?_⟩
  · have hhits : counters.hits = 0 := h.uncached (hcaching.trans hoff)
    rw [if_neg (by simp [hoff])] at hmisses
    exact ⟨hhits, hmisses, by omega⟩
  · rw [if_pos hon] at hmisses
    have hsolves : counters.misses = (solves log).length := hmisses.trans h.solves
    refine ⟨by omega, hmisses, ?_, fun hfits => ?_⟩
    · rw [hdistinct, hsolves]
      exact card_answers_le_solves strategy hdisabled calls
    · rw [hdistinct] at hfits ⊢
      rw [hsolves]
      exact solves_of_fits strategy hon hdisabled calls hfits

/-! ## A cache with two slots -/

/-- A call for the aliases of `v`, which takes the oracle `n` propagations forward. -/
def costing (v : Variable) (n : UInt64) : Call :=
  { asking v with oracle := { solve := fun _ => .ok { forward := n } } }

/-- After `v1`, `v3`, `v1`, `v2` and `v3` three queries were answered; the second `v1` hit,
    and the two slots had lost `v3`. The hit adds no propagations. -/
theorem counters_run_two_slots :
    let calls := [costing ⟨1⟩ 5, costing ⟨3⟩ 6, costing ⟨1⟩ 7, costing ⟨2⟩ 8, costing ⟨3⟩ 9]
    let counters := ((start .none twoSlots).run calls).counters
    counters.invocations = 5 ∧ counters.distinct = 3 ∧ counters.hits + counters.misses = 5 ∧
      counters.misses = counters.solves ∧ counters.forward.toNat = 5 + 6 + 8 + 9 := by
  intro calls counters
  obtain ⟨-, hcounted⟩ := counters_run .none twoSlots calls
  obtain ⟨hinvocations, hdistinct, -, hforward, -, -, hcached⟩ := hcounted rfl
  obtain ⟨hlookups, hmisses, -⟩ := hcached rfl
  exact ⟨hinvocations, hdistinct, hlookups.trans hinvocations, hmisses, hforward.exact (by decide)⟩

end Session

end TaintAlias
