/-
  TaintAlias.Proofs.Site.Configured — what a valid configuration guarantees.

  A manager is created for valid configurations only. Its sites are the configured one,
  the baseline and the alias-aware one, adjusted in any way (`Shares`), and its sessions
  are fresh ones that answered some calls. However they came about:
  - no site ignores a blank fragment (`Shares.ignored`): the configuration has none, the
    presets have none, and replacing the fragments drops them. So a method with a blank
    signature is never ignored (`not_ignores_of_blank`);
  - every site has the manager's field limit, which lies in 1..=64, and no call adds a
    fact with more fields, alone or in a row (`taint_adds_limited`, `after_adds_limited`);
  - with a capacity configured, every session caches, and never holds more than that
    (`exists_cache`).
-/

import TaintAlias.Proofs.Config.Valid
import TaintAlias.Proofs.Manager.Trailing
import TaintAlias.Proofs.Session.Accounting
import TaintAlias.Proofs.Site.Dialogue
import TaintAlias.Proofs.Site.Feedback
import TaintAlias.Proofs.Site.Limit

namespace TaintAlias

/-! ## Ignored methods -/

namespace Site

variable {s : Site} {config : Config}

theorem Shares.ignored (hvalid : config.Valid) (h : Shares config s) : ∀ f ∈ s.ignored, Text.isBlank f = false := by
  induction h with
  | ofManager h =>
    rw [← h] at hvalid
    exact hvalid.ignored
  | baseline h => exact (Preset.valid_config .baseline).ignored
  | aliasAware h => exact (Preset.valid_config .aliasAware).ignored
  | withStrategy _ _ ih => exact ih
  | withReturnSites _ _ ih => exact ih
  | withIgnored _ fragments _ =>
    intro f hf
    simpa using (List.mem_filter.mp hf).2
  | enter _ _ _ _ _ ih => exact ih

/-- A blank signature has no part that is not blank. -/
theorem not_ignores_of_blank (h : ∀ f ∈ s.ignored, Text.isBlank f = false) {signature : String}
    (hblank : Text.isBlank signature = true) : s.ignores signature = false := by
  by_contra hignored
  rw [Bool.not_eq_false, ignores_iff] at hignored
  obtain ⟨f, hf, hin⟩ := hignored
  have hf' := h f hf
  rw [Text.isBlank_of_infix hblank hin] at hf'
  cases hf'

/-- Replacing the ignored fragments keeps those that are not blank, in their order, each
    as often as it was given. -/
theorem withIgnored_ignored (s : Site) (fragments : List String) :
    (s.withIgnored fragments).ignored.Sublist fragments ∧
      ∀ f, (s.withIgnored fragments).ignored.count f = if Text.trim f = [] then 0 else fragments.count f := by
  refine ⟨List.filter_sublist, fun f => ?_⟩
  by_cases hblank : Text.trim f = []
  · rw [if_pos hblank]
    refine List.count_eq_zero.mpr fun hf => ?_
    have hkept := (List.mem_filter.mp hf).2
    rw [Text.trim_eq_nil.mp hblank] at hkept
    cases hkept
  · rw [if_neg hblank]
    rw [Text.trim_eq_nil] at hblank
    exact List.count_filter (by simpa using hblank)

end Site

/-! ## The field limit -/

theorem OraclePath.length_toEngine_le {k : Nat} {p : OraclePath} {e : EnginePath} (h : p.toEngine k = .ok e) :
    e.fields.length ≤ k := by
  obtain ⟨v, fs, -, ⟨-, rfl⟩ | ⟨rest, -, rfl⟩⟩ := toEngine_cases h
  · exact EnginePath.length_limit_le k _
  · exact EnginePath.length_limit_le k _

/-- Whatever the manager and the oracle, what a call adds is within the site's limit. -/
theorem Site.taint_adds_limited (s : Site) (m : Manager) (oracle : Oracle) (context : Fact) (stmt : Stmt)
    (target : Option Variable) (set : FactSet) (method : Method) (fact : Fact) :
    ∃ added, (s.taint m oracle context stmt target set method fact).set.facts = set.facts ++ added ∧
      ∀ f ∈ added, f.path.fields.length ≤ s.pathLength.toNat := by
  obtain ⟨_, _, base, order, hcall⟩ := exists_gains s m oracle context stmt target method fact
  obtain ⟨-, -, hset⟩ := hcall s.pathLength m.config.pathLength set
  obtain ⟨added, hfacts, -, hadded⟩ := set.insertAll_facts (s.gains stmt base fact order)
  refine ⟨added, (congrArg FactSet.facts hset).trans hfacts, fun f hf => ?_⟩
  obtain ⟨p, -, -, e, he, rfl⟩ := mem_gains.mp (hadded f hf).1
  exact OraclePath.length_toEngine_le he

namespace Shared

theorem after_adds_limited {config : Config} {turns : List Turn}
    (h : ∀ t ∈ turns, t.job.site.Shares config) (w : Shared) :
    ∃ added, (w.after turns).set.facts = w.set.facts ++ added ∧
      ∀ f ∈ added, f.path.fields.length ≤ config.pathLength.toNat := by
  induction turns generalizing w with
  | nil => exact ⟨[], by simp [after]⟩
  | cons t turns ih =>
    obtain ⟨first, hfirst, hfirst'⟩ := t.job.site.taint_adds_limited w.manager t.oracle t.job.context t.job.stmt
      t.job.target w.set t.job.method t.job.fact
    obtain ⟨rest, hrest, hrest'⟩ := ih (fun u hu => h u (List.mem_cons_of_mem _ hu)) (w.turn t)
    have hturn : (w.turn t).set.facts = w.set.facts ++ first := hfirst
    refine ⟨first ++ rest, ?_, fun f hf => ?_⟩
    · rw [← List.append_assoc, ← hturn]
      exact hrest
    · rcases List.mem_append.mp hf with hf | hf
      · rw [← (h t List.mem_cons_self).pathLength]
        exact hfirst' f hf
      · exact hrest' f hf

end Shared

/-! ## The cache's capacity -/

/-- A session caches if a capacity is configured, and stays within it. -/
theorem Session.exists_cache {config : Config} (hvalid : config.Valid) {n : UInt64}
    (hn : config.capacity = some n) (strategy : Sparsification) (calls : List Call) :
    ∃ cache, ((start strategy config).run calls).cache = some cache ∧
      cache.capacity = some n.toNat ∧ cache.size ≤ n.toNat := by
  obtain ⟨hpos, hcaching⟩ := hvalid.capacity n hn
  have hcapacity : (QueryCache.ofCapacity config.capacity).capacity = some n.toNat :=
    QueryCache.capacity_ofCapacity_eq_some.mpr ⟨n, hn, hpos, rfl⟩
  cases hdisabled : config.disabled with
  | true =>
    rw [(run_of_disabled (s := start strategy config) hdisabled calls).1]
    exact ⟨_, cache_start strategy hcaching, hcapacity, Nat.zero_le _⟩
  | false =>
    refine ⟨_, cache_run strategy hcaching hdisabled calls, hcapacity, ?_⟩
    rw [hcapacity]
    exact QueryCache.length_cut_le _

/-! ## All of it -/

/-- A manager that could be created keeps its configuration, whose field limit lies in
    1..=64. Every site it is shared by ignores no blank fragment and no method with a
    blank signature, keeps of replaced fragments exactly those that are not blank, and
    has the manager's field limit, so whatever calls taint a set, no fact they add has
    more fields. If a capacity is configured, every session there is, whatever was done
    with the manager, has a cache that holds no more than that. -/
theorem guarantees_of_create {program : Program} {config : Config} {m : Manager} {notices : List Notice}
    (hcreate : Manager.create program config = .ok (m, notices)) :
    let k := m.config.pathLength.toNat
    (∀ evs, (m.after evs).config = m.config) ∧ m.config = config ∧ 1 ≤ k ∧ k ≤ 64 ∧
    (∀ s, Site.Shares m.config s →
      (∀ f ∈ s.ignored, Text.trim f ≠ []) ∧
      (∀ signature, Text.isBlank signature = true → s.ignores signature = false) ∧
      (∀ fragments, (s.withIgnored fragments).ignored.Sublist fragments ∧
        ∀ f, (s.withIgnored fragments).ignored.count f = if Text.trim f = [] then 0 else fragments.count f) ∧
      s.pathLength = m.config.pathLength) ∧
    (∀ (w : Shared) (turns : List Turn), (∀ t ∈ turns, t.job.site.Shares m.config) →
      ∃ added, (w.after turns).set.facts = w.set.facts ++ added ∧ ∀ f ∈ added, f.path.fields.length ≤ k) ∧
    ∀ n, config.capacity = some n → ∀ evs s, (m.after evs).session = some s →
      ∃ cache, s.cache = some cache ∧ cache.capacity = some n.toNat ∧ cache.size ≤ n.toNat := by
  have hvalid := Manager.valid_of_create hcreate
  obtain rfl := Manager.eq_of_create hcreate
  intro k
  refine ⟨fun evs => (Manager.after_config _ evs).2, rfl, hvalid.pathLength.1, hvalid.pathLength.2, fun s hs => ?_,
    fun w turns hturns => Shared.after_adds_limited hturns w, fun n hn evs s hs => ?_⟩
  · have hignored := hs.ignored hvalid
    refine ⟨fun f hf => ?_, fun signature => Site.not_ignores_of_blank hignored, s.withIgnored_ignored, hs.pathLength⟩
    rw [ne_eq, Text.trim_eq_nil, hignored f hf]
    decide
  · rw [Manager.session_after] at hs
    obtain ⟨strategy, -, rfl⟩ := Option.map_eq_some_iff.mp hs
    exact Session.exists_cache hvalid hn strategy _

/-- At most one answer is remembered, and paths have two fields at most. -/
def smallest : Config :=
  { returnSites := .fieldWriteOnly, caching := true, capacity := some 1, pathLength := 2, ignored := ["hash"] }

/-- Two queries through one slot; a site with blank fragments among its new ones, and a
    deep fact whose alias `v4` would have three fields. -/
theorem guarantees_of_create_smallest :
    let m : Manager := ⟨Site.oneWrite, smallest, none⟩
    let query (v : Variable) : Manager.Ev := .aliases (Site.answering Site.mixedAliases) .none ⟨1⟩ ⟨1⟩ v
    let site := { (Site.aliasAware m).withIgnored [" ", "equals", "", "\u3000\t"] with strategy := .none }
    let fact : Fact := .tainted ⟨⟨0⟩, "in"⟩ ⟨some ⟨1⟩, [⟨2⟩, ⟨6⟩, ⟨7⟩], false⟩
    let turn : Turn := ⟨⟨site, .zero, ⟨1⟩, none, ⟨1⟩, fact⟩, Site.answering Site.mixedAliases⟩
    let w : Shared := ⟨m.after [query ⟨1⟩, query ⟨3⟩], ⟨[fact]⟩⟩
    (site.ignored = ["equals"] ∧ site.ignores "" = false ∧ ∀ f ∈ site.ignored, Text.trim f ≠ []) ∧
      (w.after [turn]).set.facts.map (·.path.text) = ["v1.f2.f6.f7", "v3.f5*", "v4.f2.f6*"] ∧
      (∃ added, (w.after [turn]).set.facts = [fact] ++ added ∧ ∀ f ∈ added, f.path.fields.length ≤ 2) ∧
      ∀ s, (m.after [query ⟨1⟩, query ⟨3⟩]).session = some s →
        ∃ cache, s.cache = some cache ∧ cache.capacity = some 1 ∧ cache.size ≤ 1 := by
  intro m query site fact turn w
  have hcreate : Manager.create Site.oneWrite smallest = .ok (m, [.managerReady .none true false]) := rfl
  obtain ⟨-, -, -, -, hsites, hadded, hcache⟩ := guarantees_of_create hcreate
  have hshares : site.Shares m.config := .withStrategy (.withIgnored (.aliasAware rfl) _) .none
  obtain ⟨hignored, hblank, -⟩ := hsites site hshares
  refine ⟨⟨by decide, hblank "" rfl, hignored⟩, by decide, ?_, hcache 1 rfl _⟩
  exact hadded w [turn] fun t ht => List.mem_singleton.mp ht ▸ hshares

end TaintAlias
