/-
  TaintAlias.Proofs.Manager.Trailing — the live session, from the requests that made it.

  Take the requests since the last reset, and of those the longest suffix that asks for
  a single strategy (`trailing`, `trails_trailing`). Proved, for every run of a manager
  and whatever oracles it meets:
  - the live session is a fresh one that answered the calls of that suffix and nothing
    else: same cache, same counts, same counters. Without such a request there is no
    session (`session_after`);
  - so what came before does not matter, the active strategy is the suffix's, no other
    strategy has counters, and observing changes nothing (`session_trailing`).

  The step that matters is `sessionFor_of_live`: a request for `s` meets the session of
  the requests behind it that asked for `s`, which is a fresh one if the last request
  did not. Going from `A` to `B` and back therefore finds nothing of the first `A`.
-/

import Mathlib.Data.List.DropRight
import TaintAlias.Proofs.Manager.Run

namespace TaintAlias

theorem rtakeWhile_append {α : Type} {p : α → Bool} {front back : List α} (h : ∀ x ∈ back, p x = true) :
    (front ++ back).rtakeWhile p = front.rtakeWhile p ++ back := by
  have hback : ∀ x ∈ back.reverse, p x = true := fun x hx => h x (List.mem_reverse.mp hx)
  simp only [List.rtakeWhile, List.reverse_append]
  rw [List.takeWhile_append_of_pos hback, List.reverse_append, List.reverse_reverse]

namespace Manager

/-! ## The requests that count -/

/-- The requests since the last reset. -/
def requests (program : Program) (evs : List Ev) : List Request :=
  (evs.rtakeWhile fun e => !e.isReset).filterMap (Ev.request? program)

/-- Those at the end that ask for the strategy of the last one. -/
def lastRun (rs : List Request) : List Request :=
  match rs.getLast? with
  | none => []
  | some r => rs.rtakeWhile fun r' => r'.strategy = r.strategy

/-- The longest suffix of the requests since the last reset with one strategy. -/
def trailing (program : Program) (evs : List Ev) : List Request := lastRun (requests program evs)

def strategy? (rs : List Request) : Option Sparsification := rs.getLast?.map (·.strategy)

/-- The session that answered the calls of `rs` and nothing else. -/
def live (config : Config) (rs : List Request) : Option Session :=
  (strategy? rs).map fun s => (Session.start s config).run (rs.filterMap (·.call?))

def Single (rs : List Request) : Prop := ∃ s, ∀ r ∈ rs, r.strategy = s

/-- `seg` is the longest suffix of `rs` with a single strategy. -/
structure Trails (rs seg : List Request) : Prop where
  suffix : seg <:+ rs
  single : Single seg
  longest : ∀ t, t <:+ rs → Single t → t <:+ seg

theorem lastRun_concat (rs : List Request) (r : Request) :
    lastRun (rs ++ [r]) = (rs.rtakeWhile fun r' => r'.strategy = r.strategy) ++ [r] := by
  simp only [lastRun, List.getLast?_concat]
  exact List.rtakeWhile_concat_pos _ _ _ (by simp)

theorem trails_lastRun (rs : List Request) : Trails rs (lastRun rs) := by
  rcases List.eq_nil_or_concat rs with rfl | ⟨front, r, rfl⟩
  · exact ⟨List.suffix_refl _, ⟨.none, nofun⟩, fun t ht _ => ht⟩
  rw [List.concat_eq_append, lastRun_concat]
  have hrun : (front.rtakeWhile fun r' => r'.strategy = r.strategy) <:+ front := List.rtakeWhile_suffix _ _
  refine ⟨?_, ⟨r.strategy, fun r' hr' => ?_⟩, fun t ht ⟨s, hs⟩ => ?_⟩
  · obtain ⟨before, hbefore⟩ := hrun
    exact ⟨before, by rw [← List.append_assoc, hbefore]⟩
  · rcases List.mem_append.mp hr' with hr' | hr'
    · simpa using List.mem_rtakeWhile_imp hr'
    · rw [List.mem_singleton.mp hr']
  · rcases List.eq_nil_or_concat t with rfl | ⟨t, r', rfl⟩
    · exact List.nil_suffix
    -- `t` ends with the last request, so it asks for that one's strategy
    rw [List.concat_eq_append] at ht hs ⊢
    obtain ⟨before, hbefore⟩ := ht
    rw [← List.append_assoc] at hbefore
    obtain ⟨rfl, hlast⟩ := List.append_inj' hbefore rfl
    obtain rfl : r' = r := List.head_eq_of_cons_eq hlast
    obtain rfl : r'.strategy = s := hs r' (List.mem_append_right _ (List.mem_singleton_self r'))
    have hall : ∀ q ∈ t, decide (q.strategy = r'.strategy) = true := by
      intro q hq
      simpa using hs q (List.mem_append_left _ hq)
    rw [rtakeWhile_append hall, List.append_assoc]
    exact List.suffix_append _ _

theorem strategy?_of_mem {rs : List Request} (h : Single rs) {r : Request} (hr : r ∈ rs) :
    strategy? rs = some r.strategy := by
  obtain ⟨s, hs⟩ := h
  obtain ⟨last, hlast⟩ := Option.ne_none_iff_exists'.mp (mt List.getLast?_eq_none_iff.mp (List.ne_nil_of_mem hr))
  rw [strategy?, hlast, hs r hr]
  exact congrArg some (hs last (List.mem_of_getLast? hlast))

theorem trails_trailing (program : Program) (evs : List Ev) :
    Trails (requests program evs) (trailing program evs) := trails_lastRun _

theorem requests_reset {program : Program} {e : Ev} (h : e.isReset = true) (evs : List Ev) :
    requests program (evs ++ [e]) = [] := by
  rw [requests, List.rtakeWhile_concat_neg _ _ _ (by simp [h])]
  rfl

theorem requests_concat {program : Program} {e : Ev} (h : e.isReset = false) (evs : List Ev) :
    requests program (evs ++ [e]) = requests program evs ++ (e.request? program).toList := by
  rw [requests, List.rtakeWhile_concat_pos _ _ _ (by simp [h]), List.filterMap_append]
  rfl

/-! ## The live session -/

variable {program : Program} {config : Config} {m : Manager}

/-- A request meets the session of the requests right before it that asked for the same
    strategy. -/
theorem sessionFor_of_live (hconfig : m.config = config) {rs : List Request}
    (h : m.session = live config (lastRun rs)) (s : Sparsification) :
    (m.sessionFor s).1 = (Session.start s config).run
      ((rs.rtakeWhile fun r => r.strategy = s).filterMap (·.call?)) := by
  rcases List.eq_nil_or_concat rs with rfl | ⟨front, r, rfl⟩
  · rw [sessionFor_of_none h, hconfig]
    rfl
  rw [List.concat_eq_append, lastRun_concat] at h
  simp only [live, strategy?, List.getLast?_concat, Option.map_some] at h
  rw [sessionFor_of_some h, hconfig, Session.run_start_strategy, List.concat_eq_append]
  by_cases hs : r.strategy = s
  · subst hs
    rw [if_pos rfl, List.rtakeWhile_concat_pos _ _ _ (by simp)]
  · rw [if_neg hs, List.rtakeWhile_concat_neg _ _ _ (by simpa using hs)]
    rfl

/-- After any operations the live session is that of the trailing requests. -/
theorem session_after (program : Program) (config : Config) (evs : List Ev) :
    (after ⟨program, config, none⟩ evs).session = live config (trailing program evs) := by
  -- from the end: an operation meets the session the ones before it left
  induction evs using List.reverseRecOn with
  | nil => rfl
  | append_singleton evs e ih =>
    obtain ⟨hprogram, hconfig⟩ : _ = program ∧ _ = config := after_config ⟨program, config, none⟩ evs
    rw [after_concat, trailing]
    -- of the manager before the last operation only these three facts matter
    generalize after ⟨program, config, none⟩ evs = m at ih hprogram hconfig ⊢
    by_cases hr : e.isReset = true
    · rw [step_reset hr, requests_reset hr]
      rfl
    have hr : e.isReset = false := Bool.eq_false_iff.mpr hr
    rw [requests_concat hr]
    rw [← hprogram]
    cases hq : e.request? m.program with
    | none =>
      rw [step_idle hq hr, ih, hprogram]
      simp [trailing]
    | some r =>
      rw [step_request hq, sessionFor_of_live hconfig ih, hprogram, ← Session.run_append]
      cases hcall : r.call? <;> simp [keep, live, strategy?, lastRun_concat, hcall]

theorem countersFor?_of_ne {s : Sparsification} (h : m.active? ≠ some s) : m.countersFor? s = none := by
  unfold countersFor?
  cases hs : m.session with
  | none => rfl
  | some t =>
    have hne : t.strategy ≠ s := by
      rintro rfl
      exact h (by rw [active?, hs]; rfl)
    simp [hne]

/-- In any run the live session is that of the trailing requests: it has answered their
    calls and no others, whatever came before. It is the only one with counters, and an
    operation that neither requests a session nor resets changes nothing. -/
theorem session_trailing {notices : List Notice} (hcreate : create program config = .ok (m, notices))
    (evs : List Ev) :
    let seg := trailing program evs
    let m' := m.after evs
    Trails (requests program evs) seg ∧
      m'.session = (strategy? seg).map (fun s => (Session.start s config).run (seg.filterMap (·.call?))) ∧
      m'.active? = strategy? seg ∧ (∀ r ∈ seg, m'.active? = some r.strategy) ∧
      (∀ s, m'.active? ≠ some s → m'.countersFor? s = none) ∧
      (∀ evs', trailing program evs' = seg → (m.after evs').session = m'.session) ∧
      ∀ e : Ev, e.request? program = none → e.isReset = false → (m'.step e).2 = m' := by
  obtain rfl := eq_of_create hcreate
  intro seg m'
  have hsession : m'.session = live config seg := session_after program config evs
  have hactive : m'.active? = strategy? seg := by
    rw [active?, hsession, live, Option.map_map]
    cases strategy? seg with
    | none => rfl
    | some s => exact congrArg some (Session.run_start_strategy s config _)
  have htrails : Trails (requests program evs) seg := trails_trailing program evs
  refine ⟨htrails, hsession, hactive, fun r hr => ?_, fun s hs => countersFor?_of_ne hs, fun evs' heq => ?_,
    fun e hq hr => ?_⟩
  · rw [hactive, strategy?_of_mem htrails.single hr]
  · rw [session_after, heq, hsession]
  · have hprogram : m'.program = program := (after_config _ evs).1
    exact step_idle (by rw [hprogram]; exact hq) hr

/-- From one strategy to another and back: only the way back counts. -/
def backAndForth : List Ev :=
  let query (strategy : Sparsification) (v : Variable) : Ev :=
    .aliases (Site.answering Site.mixedAliases) strategy ⟨1⟩ ⟨1⟩ v
  [query .none ⟨1⟩, query .typeBased ⟨1⟩, .counters, query .none ⟨3⟩, .info .none]

theorem session_trailing_back_and_forth :
    let m := Site.oneWriteManager.after backAndForth
    let call : Session.Call := ⟨Site.oneWrite, Site.answering Site.mixedAliases, ⟨1⟩, ⟨1⟩, ⟨3⟩⟩
    m.session = some ((Session.start .none m.config).run [call]) ∧ m.active? = some .none ∧
      m.countersFor? .typeBased = none ∧ (m.step .active).2 = m := by
  intro m call
  have hcreate : create Site.oneWrite Preset.baseline.config =
      .ok (Site.oneWriteManager, [.managerReady .none false false]) := rfl
  obtain ⟨-, hsession, hactive, -, hother, -, hidle⟩ := session_trailing hcreate backAndForth
  exact ⟨hsession, hactive, hother .typeBased (by rw [hactive]; decide), hidle .active rfl rfl⟩

end Manager

end TaintAlias
