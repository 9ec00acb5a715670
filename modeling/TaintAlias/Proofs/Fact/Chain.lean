/-
  TaintAlias.Proofs.Fact.Chain — the chain of facts a fact was derived along.

  (1) One fact. Walking back from parent to parent (`back`) ends after as many steps as
  there were derivations, at a root without parent: the zero fact or a fresh taint. All
  facts on the way have one source, and the root stands at the statement of that source,
  if there is one (`isSome_back`, `exists_root`, `source_of_back`).

  (2) One set. A run is a list of calls on one set of facts (`TaintCall`). Each goes through
  a site of its own and meets some manager, in any state; calls of workers that share a
  manager are such a run (`Shared.set_after_calls`). A call adds facts derived from its
  own fact, and none that the set has already (`exists_added`). So a set only ever grows
  behind its members (`Grows`), and what it has stored for a fact it keeps, with its
  statement and its chain (`Grows.stored?_eq`), even if later calls derive the same fact
  along other chains. A fact that came in has the chain of the call that first added it
  (`exists_call`).

  `chains_kept` states both.
-/

import TaintAlias.Proofs.Manager.Workers

namespace TaintAlias

/-! ## (1) One fact -/

namespace Fact

/-- How many derivations a fact was built with. -/
def derivations : Fact → Nat
  | derived parent _ _ => parent.derivations + 1
  | _ => 0

/-- The fact `n` steps back, if there are as many. -/
def back (f : Fact) : Nat → Option Fact
  | 0 => some f
  | n + 1 => (f.back n).bind parent?

variable {f g : Fact} {n : Nat}

theorem back_derived (f : Fact) (path : EnginePath) (stmt : Stmt) (n : Nat) :
    (derived f path stmt).back (n + 1) = f.back n := by
  induction n with
  | zero => rfl
  | succ n ih =>
    show ((derived f path stmt).back (n + 1)).bind parent? = (f.back n).bind parent?
    rw [ih]

theorem back_of_root (h : f.parent? = none) (n : Nat) : f.back (n + 1) = none := by
  induction n with
  | zero => exact h
  | succ n ih =>
    show (f.back (n + 1)).bind parent? = none
    rw [ih]
    rfl

/-- The ancestors are what is met on the way. -/
theorem getElem?_ancestors (f : Fact) (n : Nat) : f.ancestors[n]? = f.back (n + 1) := by
  induction f generalizing n with
  | zero => exact (back_of_root rfl n).symm
  | tainted source path => exact (back_of_root rfl n).symm
  | derived parent path stmt ih =>
    rw [back_derived]
    cases n with
    | zero => rfl
    | succ n => exact ih n

theorem isSome_back (f : Fact) (n : Nat) : (f.back n).isSome = true ↔ n ≤ f.derivations := by
  induction f generalizing n with
  | zero =>
    cases n with
    | zero => simp [back]
    | succ n => simp [back_of_root (f := zero) rfl, derivations]
  | tainted source path =>
    cases n with
    | zero => simp [back]
    | succ n => simp [back_of_root (f := tainted source path) rfl, derivations]
  | derived parent path stmt ih =>
    cases n with
    | zero => simp [back]
    | succ n => rw [back_derived, ih, derivations, Nat.add_le_add_iff_right]

/-- The zero fact or a fresh taint, at the statement of its source. -/
theorem exists_root (f : Fact) : ∃ root, f.back f.derivations = some root ∧ root.parent? = none ∧
    root.source = f.source ∧ root.stmt = f.source.map (·.stmt) := by
  induction f with
  | zero => exact ⟨zero, rfl, rfl, rfl, rfl⟩
  | tainted source path => exact ⟨tainted source path, rfl, rfl, rfl, rfl⟩
  | derived parent path stmt ih =>
    obtain ⟨root, hroot, hrest⟩ := ih
    refine ⟨root, ?_, hrest⟩
    rw [derivations, back_derived, hroot]

theorem source_of_back (h : f.back n = some g) : g.source = f.source := by
  induction n generalizing g with
  | zero =>
    cases h
    rfl
  | succ n ih =>
    obtain ⟨x, hx, hg⟩ := Option.bind_eq_some_iff.mp h
    rw [← ih hx]
    cases x with
    | derived parent path stmt =>
      cases hg
      rfl
    | _ => cases hg

end Fact

/-! ## (2) One set -/

namespace FactSet

/-- The member that is the same as `f`, with a provenance of its own. -/
def stored? (s : FactSet) (f : Fact) : Option Fact := s.facts.find? fun g => decide (g.Same f)

/-- No two members are the same. -/
def Distinct (s : FactSet) : Prop := s.facts.Pairwise fun f g => ¬ f.Same g

/-- What `t` has more than `s` stands behind, and nothing of it is the same as a member. -/
def Grows (s t : FactSet) : Prop :=
  ∃ added, t.facts = s.facts ++ added ∧ added.Pairwise (fun f g => ¬ f.Same g) ∧
    ∀ f ∈ added, s.contains f = false

variable {s t u : FactSet} {f g : Fact}

theorem Grows.refl (s : FactSet) : s.Grows s := by
  refine ⟨[], (List.append_nil _).symm, List.Pairwise.nil, ?_⟩
  intro f hf
  cases hf

theorem Grows.trans (hst : s.Grows t) (htu : t.Grows u) : s.Grows u := by
  obtain ⟨more, ht, hmore, hnew⟩ := hst
  obtain ⟨late, hu, hlate, hnew'⟩ := htu
  have hkept : ∀ f ∈ late, ∀ g ∈ t.facts, ¬ g.Same f := by
    intro f hf g hg hsame
    have hin := contains_iff.mpr ⟨g, hg, hsame⟩
    rw [hnew' f hf] at hin
    cases hin
  refine ⟨more ++ late, by rw [hu, ht, List.append_assoc], ?_, ?_⟩
  · apply List.pairwise_append.mpr
    refine ⟨hmore, hlate, ?_⟩
    intro f hf g hg
    apply hkept g hg
    rw [ht]
    exact List.mem_append_right _ hf
  · intro f hf
    rcases List.mem_append.mp hf with hf | hf
    · exact hnew f hf
    · by_contra hin
      obtain ⟨g, hg, hsame⟩ := contains_iff.mp (Bool.not_eq_false _ ▸ hin)
      apply hkept f hf g _ hsame
      rw [ht]
      exact List.mem_append_left _ hg

theorem Grows.stored?_eq (h : s.Grows t) (hf : s.stored? f = some g) : t.stored? f = some g := by
  obtain ⟨added, ht, -⟩ := h
  rw [stored?, ht, List.find?_append]
  rw [stored?] at hf
  rw [hf]
  rfl

theorem Grows.distinct (h : s.Grows t) (hs : s.Distinct) : t.Distinct := by
  obtain ⟨added, ht, hadded, hnew⟩ := h
  rw [Distinct, ht]
  apply List.pairwise_append.mpr
  refine ⟨hs, hadded, ?_⟩
  intro f hf g hg hsame
  have hin := contains_iff.mpr ⟨f, hf, hsame⟩
  rw [hnew g hg] at hin
  cases hin

end FactSet

/-- A call on a set of facts, and the manager it meets. -/
structure TaintCall where
  job : Job
  manager : Manager
  oracle : Oracle

namespace TaintCall

/-- What the call makes of a set; a call that fails, too. -/
def run (c : TaintCall) (s : FactSet) : FactSet := (c.job.taint c.manager c.oracle s).set

/-- A call adds facts it derives from its own fact, at its statement, and no other. -/
theorem exists_added (c : TaintCall) (s : FactSet) :
    ∃ added, (c.run s).facts = s.facts ++ added ∧ added.Pairwise (fun f g => ¬ f.Same g) ∧
      ∀ f ∈ added, s.contains f = false ∧ ∃ path, f = .derived c.job.fact path c.job.stmt := by
  rcases @Site.taint_set_cases c.job.site c.manager c.oracle c.job.context c.job.fact c.job.stmt c.job.target s
      c.job.method with hset | ⟨base, aliases, -, -, hset⟩
  · refine ⟨[], ?_, List.Pairwise.nil, ?_⟩
    · rw [run, Job.taint, hset, List.append_nil]
    · intro f hf
      cases hf
  · obtain ⟨added, hfacts, hpair, hadded⟩ :=
      s.insertAll_facts (c.job.site.gains c.job.stmt base c.job.fact aliases.paths)
    refine ⟨added, by rw [run, Job.taint, hset, hfacts], hpair, ?_⟩
    intro f hf
    obtain ⟨hgain, hnew⟩ := hadded f hf
    obtain ⟨p, -, -, path, -, rfl⟩ := Site.mem_gains.mp hgain
    exact ⟨hnew, path, rfl⟩

theorem grows_run (c : TaintCall) (s : FactSet) : s.Grows (c.run s) := by
  obtain ⟨added, hfacts, hpair, hadded⟩ := c.exists_added s
  exact ⟨added, hfacts, hpair, fun f hf => (hadded f hf).1⟩

end TaintCall

namespace FactSet

/-- The set after one call after another. -/
def afterCalls (s : FactSet) (calls : List TaintCall) : FactSet := calls.foldl (fun s c => c.run s) s

variable {s : FactSet} {f : Fact} {calls : List TaintCall}

theorem afterCalls_append (s : FactSet) (calls more : List TaintCall) :
    s.afterCalls (calls ++ more) = (s.afterCalls calls).afterCalls more :=
  List.foldl_append

theorem grows_afterCalls (s : FactSet) (calls : List TaintCall) : s.Grows (s.afterCalls calls) := by
  induction calls generalizing s with
  | nil => exact Grows.refl s
  | cons c calls ih => exact (c.grows_run s).trans (ih (c.run s))

/-- A fact that came in was added by a call that derived it, and not there before. -/
theorem exists_call (hf : f ∈ (s.afterCalls calls).facts) (hnot : f ∉ s.facts) :
    ∃ before c rest, calls = before ++ c :: rest ∧ (s.afterCalls before).contains f = false ∧
      f ∈ (s.afterCalls (before ++ [c])).facts ∧ ∃ path, f = .derived c.job.fact path c.job.stmt := by
  induction calls generalizing s with
  | nil => exact absurd hf hnot
  | cons c calls ih =>
    by_cases hin : f ∈ (c.run s).facts
    · -- the first call of the run
      obtain ⟨added, hfacts, -, hadded⟩ := c.exists_added s
      have hmem := hin
      rw [hfacts] at hmem
      obtain ⟨hnew, hderived⟩ := hadded f ((List.mem_append.mp hmem).resolve_left hnot)
      exact ⟨[], c, calls, rfl, hnew, hin, hderived⟩
    · obtain ⟨before, d, rest, rfl, hnew, hadded, hderived⟩ := ih hf hin
      exact ⟨c :: before, d, rest, rfl, hnew, hadded, hderived⟩

end FactSet

namespace Shared

/-- The turns of workers, each with the manager it meets. -/
def calls (w : Shared) : List Turn → List TaintCall
  | [] => []
  | t :: turns => ⟨t.job, w.manager, t.oracle⟩ :: (w.turn t).calls turns

/-- What workers make of the set they share is a run. -/
theorem set_after_calls (w : Shared) (turns : List Turn) :
    (w.after turns).set = w.set.afterCalls (w.calls turns) := by
  induction turns generalizing w with
  | nil => rfl
  | cons t turns ih => exact ih (w.turn t)

end Shared

/-- The chain of a fact is what is met on the way back. It has as many steps as there were
    derivations and ends at a root without parent, which stands at the statement of the
    source that all facts of the chain have. Whatever calls there are on a set, a fact it
    has stored stays as it is, with its statement and its chain, and no other that is the
    same comes in; a fact that came in has the chain of the call that first added it: the
    fact of that call, followed by the chain of that. -/
theorem chains_kept :
    (∀ f : Fact, (∀ n, f.ancestors[n]? = f.back (n + 1)) ∧
      (∀ n, (f.back n).isSome = true ↔ n ≤ f.derivations) ∧
      (∃ root, f.back f.derivations = some root ∧ root.parent? = none ∧
        root.stmt = f.source.map (·.stmt)) ∧
      ∀ n g, f.back n = some g → g.source = f.source) ∧
    ∀ (s : FactSet) (calls more : List TaintCall),
      (∀ f g, (s.afterCalls calls).stored? f = some g →
        (s.afterCalls (calls ++ more)).stored? f = some g) ∧
      (s.Distinct → (s.afterCalls calls).Distinct) ∧
      ∀ f ∈ (s.afterCalls calls).facts, f ∉ s.facts → ∃ before c rest, calls = before ++ c :: rest ∧
        (s.afterCalls before).contains f = false ∧ f ∈ (s.afterCalls (before ++ [c])).facts ∧
        f.stmt = some c.job.stmt ∧ f.ancestors = c.job.fact :: c.job.fact.ancestors := by
  constructor
  · intro f
    obtain ⟨root, hback, hparent, -, hstmt⟩ := f.exists_root
    exact ⟨f.getElem?_ancestors, f.isSome_back, ⟨root, hback, hparent, hstmt⟩,
      fun n g => Fact.source_of_back⟩
  intro s calls more
  refine ⟨?_, (s.grows_afterCalls calls).distinct, ?_⟩
  · intro f g hg
    rw [FactSet.afterCalls_append]
    exact ((s.afterCalls calls).grows_afterCalls more).stored?_eq hg
  · intro f hf hnot
    obtain ⟨before, c, rest, hcalls, hnew, hadded, path, rfl⟩ := FactSet.exists_call hf hnot
    exact ⟨before, c, rest, hcalls, hnew, hadded, rfl, rfl⟩

/-- `v3` is an alias of `v1` and of `v5`, so `v3.f2` is derived twice. The worker that comes
    first decides its chain. -/
theorem chains_kept_rederived :
    let w : Shared := ⟨⟨Site.oneWrite, Manager.oneSlot, none⟩, .empty⟩
    let t := Shared.writing .none ⟨1⟩
    let u := Shared.writing .none ⟨5⟩
    let f := Fact.derived t.job.fact ⟨some ⟨3⟩, [⟨2⟩], false⟩ ⟨1⟩
    let g := Fact.derived u.job.fact ⟨some ⟨3⟩, [⟨2⟩], false⟩ ⟨1⟩
    f.Same g ∧ (w.after [u]).set.stored? f = some g ∧ (w.after [t]).set.stored? g = some f ∧
      (w.after [t, u]).set.stored? g = some f ∧ (w.after [t, u]).set.Distinct ∧
      (∃ before c rest, w.calls [t, u] = before ++ c :: rest ∧
        (w.set.afterCalls before).contains f = false ∧ f ∈ (w.set.afterCalls (before ++ [c])).facts ∧
        f.stmt = some c.job.stmt ∧ f.ancestors = c.job.fact :: c.job.fact.ancestors) ∧
      t.job.fact.source = f.source := by
  intro w t u f g
  obtain ⟨hone, hset⟩ := chains_kept
  obtain ⟨hkept, -, -⟩ := hset w.set (w.calls [t]) ((w.turn t).calls [u])
  obtain ⟨-, hdistinct, hadded⟩ := hset w.set (w.calls [t, u]) []
  have hstored : (w.after [t]).set.stored? g = some f := rfl
  have hin : f ∈ (w.set.afterCalls (w.calls [t, u])).facts := List.mem_singleton.mpr rfl
  rw [Shared.set_after_calls]
  exact ⟨rfl, rfl, hstored, hkept g f hstored, hdistinct List.Pairwise.nil, hadded f hin (List.not_mem_nil),
    (hone f).2.2.2 1 t.job.fact rfl⟩

end TaintAlias
