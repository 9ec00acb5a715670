/-
  TaintAlias.Proofs.QueryCache.Lru — what is relied on of a least-recently-used cache.

  A `QueryCache` is a list. What stands behind it in use is a cache of a library, here an
  arbitrary type with the operations of one (`Lru`), and what is relied on has names
  (`Lawful`): a cache can be made for any number of slots but zero, and then is empty; a
  lookup that hits and an insertion make their query the most recent; a lookup that misses
  changes nothing; an insertion of a new query where all slots are taken costs the entry used
  longest ago, and nothing else but clearing costs an entry. All of this is asked only of
  caches that these operations lead to (`Reached`).

  Proved:
  - the laws decide everything: after the same operations a lawful cache holds what a
    `QueryCache` holds, in the same order, and gives the same answer to the next lookup
    (`Lawful.agrees`), so what is proved of a `QueryCache` holds of any lawful cache;
  - they can be met: a `QueryCache` is itself lawful (`lawful_list`).
-/

import TaintAlias.Proofs.QueryCache.Inclusion

namespace TaintAlias

open QueryCache (Op touch)

/-! ## Operations -/

structure Lru (γ : Type) where
  /-- With a number of slots. -/
  new : Nat → γ
  unbounded : γ
  get : γ → Query → Option AliasSet × γ
  put : γ → Query → AliasSet → γ
  clear : γ → γ
  /-- The entries, most recent first. -/
  iter : γ → List (Query × AliasSet)

namespace Lru

variable {γ : Type} {k : Lru γ}

/-- An empty cache with a number of slots, or without bound. -/
def start (k : Lru γ) : Option Nat → γ
  | some n => k.new n
  | none => k.unbounded

def step (k : Lru γ) (c : γ) : Op → γ
  | .get q => (k.get c q).2
  | .insert q aliases => k.put c q aliases
  | .clear => k.clear c

def after (k : Lru γ) (c : γ) (ops : List Op) : γ := ops.foldl k.step c

/-- The caches that operations lead to, with their number of slots. -/
inductive Reached (k : Lru γ) : Option Nat → γ → Prop
  | start {slots : Option Nat} (h : slots ≠ some 0) : Reached k slots (k.start slots)
  | step {slots : Option Nat} {c : γ} (h : Reached k slots c) (op : Op) : Reached k slots (k.step c op)

def keys (k : Lru γ) (c : γ) : List Query := (k.iter c).map (·.1)

/-- What is relied on. -/
structure Lawful (k : Lru γ) : Prop where
  iter_start {slots : Option Nat} (h : slots ≠ some 0) : k.iter (k.start slots) = []
  get_held {slots : Option Nat} {c : γ} {q : Query} {aliases : AliasSet} (hc : k.Reached slots c)
    (hq : (q, aliases) ∈ k.iter c) :
    (k.get c q).1 = some aliases ∧ k.iter (k.get c q).2 = touch (k.iter c) (q, aliases)
  get_missing {slots : Option Nat} {c : γ} {q : Query} (hc : k.Reached slots c) (hq : q ∉ k.keys c) :
    k.get c q = (none, c)
  put_held {slots : Option Nat} {c : γ} {q : Query} (hc : k.Reached slots c) (hq : q ∈ k.keys c)
    (aliases : AliasSet) : k.iter (k.put c q aliases) = touch (k.iter c) (q, aliases)
  put_room {slots : Option Nat} {c : γ} {q : Query} (hc : k.Reached slots c) (hq : q ∉ k.keys c)
    (hroom : ∀ n, slots = some n → (k.iter c).length < n) (aliases : AliasSet) :
    k.iter (k.put c q aliases) = (q, aliases) :: k.iter c
  put_full {c : γ} {q : Query} (hc : k.Reached (some (k.iter c).length) c) (hq : q ∉ k.keys c)
    (aliases : AliasSet) : k.iter (k.put c q aliases) = (q, aliases) :: (k.iter c).dropLast
  iter_clear {slots : Option Nat} {c : γ} (hc : k.Reached slots c) : k.iter (k.clear c) = []

end Lru

/-! ## Caches that are lists -/

namespace QueryCache

variable {c : QueryCache} {q : Query} {aliases : AliasSet}

theorem capacity_step (c : QueryCache) (op : Op) : (c.step op).capacity = c.capacity := by
  cases op with
  | get q =>
    cases hfound : c.find? q with
    | none => simp only [step, get_of_find?_none hfound]
    | some aliases => simp only [step, get_of_find? hfound]
  | insert q aliases => rfl
  | clear => rfl

/-- What every cache keeps: it has slots, holds no more than they can, and a query once. -/
structure Sound (c : QueryCache) : Prop where
  slots : c.capacity ≠ some 0
  fits : cut c.capacity c.entries = c.entries
  nodup : c.queries.Nodup

theorem sound_empty {slots : Option Nat} (h : slots ≠ some 0) : Sound ⟨slots, []⟩ :=
  ⟨h, cut_nil _, List.nodup_nil⟩

theorem sound_step (h : c.Sound) (op : Op) : (c.step op).Sound := by
  have hself : Inside c c := ⟨fun n hn => ⟨n, hn, le_rfl⟩, List.Sublist.refl _, .inl rfl, h.fits, h.nodup⟩
  have hstep := inside_step hself op
  exact ⟨capacity_step c op ▸ h.slots, hstep.fits, hstep.nodup⟩

theorem insert_held (h : c.Sound) (hq : q ∈ c.queries) (aliases : AliasSet) :
    (c.insert q aliases).entries = touch c.entries (q, aliases) :=
  cut_touch_of_held h.fits hq

theorem insert_room (hq : q ∉ c.queries) (hroom : ∀ n, c.capacity = some n → c.entries.length < n)
    (aliases : AliasSet) : (c.insert q aliases).entries = (q, aliases) :: c.entries := by
  show cut c.capacity (touch c.entries (q, aliases)) = _
  rw [touch_of_notMem hq]
  cases hcapacity : c.capacity with
  | none => rfl
  | some n => exact cut_eq_self.mpr (hroom n hcapacity)

theorem insert_full (h : c.Sound) (hfull : c.capacity = some c.entries.length) (hq : q ∉ c.queries)
    (aliases : AliasSet) : (c.insert q aliases).entries = (q, aliases) :: c.entries.dropLast := by
  have hne : c.entries ≠ [] := by
    intro hnil
    rw [hnil] at hfull
    exact h.slots hfull
  show cut c.capacity (touch c.entries (q, aliases)) = _
  rw [touch_of_notMem hq, hfull, cut_cons_of_full rfl, List.dropLast_cons_of_ne_nil hne]

theorem room_or_full (h : c.Sound) :
    (∀ n, c.capacity = some n → c.entries.length < n) ∨ c.capacity = some c.entries.length := by
  have hfits := h.fits
  cases hcapacity : c.capacity with
  | none => exact .inl fun n hn => nomatch hn
  | some n =>
    rw [hcapacity, cut_eq_self] at hfits
    rcases hfits.lt_or_eq with hlt | heq
    · left
      rintro _ ⟨⟩
      exact hlt
    · exact .inr (congrArg some heq.symm)

end QueryCache

namespace Lru

open QueryCache

/-- The operations on lists. -/
def list : Lru QueryCache where
  new n := ⟨some n, []⟩
  unbounded := ⟨none, []⟩
  get := QueryCache.get
  put := QueryCache.insert
  clear := QueryCache.clear
  iter := QueryCache.entries

theorem start_list (slots : Option Nat) : list.start slots = ⟨slots, []⟩ := by
  cases slots <;> rfl

theorem step_list (c : QueryCache) (op : Op) : list.step c op = c.step op := by
  cases op <;> rfl

theorem sound_of_reached {slots : Option Nat} {c : QueryCache} (h : list.Reached slots c) :
    c.Sound ∧ c.capacity = slots := by
  induction h with
  | start h =>
    rw [start_list]
    exact ⟨sound_empty h, rfl⟩
  | @step c _ op ih =>
    rw [step_list]
    exact ⟨sound_step ih.1 op, (capacity_step c op).trans ih.2⟩

theorem lawful_list : list.Lawful where
  iter_start _ := by
    rw [start_list]
    rfl
  get_held hc hq := by
    have hfound := find?_of_mem (sound_of_reached hc).1.nodup hq
    exact ⟨congrArg Prod.fst (get_of_find? hfound), congrArg (fun x => x.2.entries) (get_of_find? hfound)⟩
  get_missing _ hq := get_of_find?_none (find?_eq_none.mpr hq)
  put_held hc hq aliases := insert_held (sound_of_reached hc).1 hq aliases
  put_room hc hq hroom aliases := by
    obtain ⟨-, hcapacity⟩ := sound_of_reached hc
    exact insert_room hq (fun n hn => hroom n (hcapacity.symm.trans hn)) aliases
  put_full hc hq aliases := by
    obtain ⟨hsound, hcapacity⟩ := sound_of_reached hc
    exact insert_full hsound hcapacity hq aliases
  iter_clear _ := rfl

/-! ## Agreement -/

variable {γ : Type} {k : Lru γ} {c : γ} {d : QueryCache}

/-- `c` has come as far as `d`, and holds the same. -/
structure Mirrors (k : Lru γ) (c : γ) (d : QueryCache) : Prop where
  reached : k.Reached d.capacity c
  entries : k.iter c = d.entries
  sound : d.Sound

theorem Mirrors.keys (h : k.Mirrors c d) : k.keys c = d.queries := by
  rw [Lru.keys, h.entries, queries]

theorem Lawful.get (hk : k.Lawful) (h : k.Mirrors c d) (q : Query) :
    (k.get c q).1 = (d.get q).1 ∧ k.iter (k.get c q).2 = (d.get q).2.entries := by
  cases hfound : d.find? q with
  | none =>
    have hmissing : q ∉ k.keys c := h.keys ▸ find?_eq_none.mp hfound
    rw [hk.get_missing h.reached hmissing, get_of_find?_none hfound]
    exact ⟨rfl, h.entries⟩
  | some aliases =>
    obtain ⟨hanswer, hiter⟩ := hk.get_held h.reached (h.entries ▸ mem_of_find? hfound)
    rw [hanswer, hiter, get_of_find? hfound, h.entries]
    exact ⟨rfl, rfl⟩

theorem Lawful.put (hk : k.Lawful) (h : k.Mirrors c d) (q : Query) (aliases : AliasSet) :
    k.iter (k.put c q aliases) = (d.insert q aliases).entries := by
  by_cases hq : q ∈ d.queries
  · rw [hk.put_held h.reached (h.keys ▸ hq), insert_held h.sound hq, h.entries]
  · rcases room_or_full h.sound with hroom | hfull
    · rw [hk.put_room h.reached (h.keys ▸ hq) (h.entries ▸ hroom), insert_room hq hroom, h.entries]
    · have hreached := h.reached
      rw [hfull, ← h.entries] at hreached
      rw [hk.put_full hreached (h.keys ▸ hq), insert_full h.sound hfull hq, h.entries]

theorem Lawful.step (hk : k.Lawful) (h : k.Mirrors c d) (op : Op) : k.Mirrors (k.step c op) (d.step op) where
  reached := capacity_step d op ▸ h.reached.step op
  entries := by
    cases op with
    | get q => exact (hk.get h q).2
    | insert q aliases => exact hk.put h q aliases
    | clear => exact hk.iter_clear h.reached
  sound := sound_step h.sound op

theorem Lawful.after (hk : k.Lawful) (h : k.Mirrors c d) (ops : List Op) :
    k.Mirrors (k.after c ops) (d.after ops) := by
  induction ops generalizing c d with
  | nil => exact h
  | cons op ops ih => exact ih (hk.step h op)

/-- After any operations, for any configured capacity, a lawful cache holds and answers what
    a list does. -/
theorem Lawful.agrees (hk : k.Lawful) (configured : Option UInt64) (ops : List Op) :
    let c := k.after (k.start (ofCapacity configured).capacity) ops
    let d := (ofCapacity configured).after ops
    k.iter c = d.entries ∧ ∀ q, (k.get c q).1 = (d.get q).1 := by
  have hslots := capacity_ofCapacity_ne_zero configured
  have hstart : k.Mirrors (k.start (ofCapacity configured).capacity) (ofCapacity configured) :=
    ⟨.start hslots, hk.iter_start hslots, sound_empty hslots⟩
  have hafter := hk.after hstart ops
  exact ⟨hafter.entries, fun q => (hk.get hafter q).1⟩

end Lru

end TaintAlias
