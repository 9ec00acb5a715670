/-
  TaintAlias.Proofs.Decode.Record — records read field by field.

  Entries are read in the order they are written, but the order shows only in which of
  several errors is reported. The other way to read a record is to take its fields as they
  are declared, each from the value given for its name (`fill`). If no two fields interfere
  (`Independent`), entries of different fields are read as `fill` reads them
  (`readFrom_of_fill`, `fill_of_readFrom`). A strict record refuses all other entries, so
  it is read exactly from entries with different names, all of them fields, among them all
  that must be given, and with values that read (`read_eq_ok_iff`).

  Field by field also says what the fields are: each has what was read from its value, or
  what it had before if none was given (`Takes`, `fill_field_ok`, `fill_of_field`).
-/

import Mathlib.Data.List.Nodup
import TaintAlias.Decode.Record

namespace TaintAlias.Decode

variable {ε V ρ α β : Type}

/-! ## Values by name -/

/-- The value that entries give for a name. -/
def given (entries : List (String × V)) (name : String) : Option V := entries.lookup name

variable {name other : String} {v : V} {entries : List (String × V)}

theorem given_cons_self : given ((name, v) :: entries) name = some v := List.lookup_cons_self

theorem given_cons_of_ne (h : name ≠ other) : given ((other, v) :: entries) name = given entries name := by
  rw [given, List.lookup_cons, beq_eq_false_iff_ne.mpr h]
  rfl

theorem given_eq_none : given entries name = none ↔ name ∉ entries.map (·.1) := by
  rw [given, List.lookup_eq_none_iff, List.mem_map]
  constructor
  · rintro h ⟨e, he, rfl⟩
    simpa using h e he
  · intro h e he
    simpa using fun heq : name = e.1 => h ⟨e, he, heq.symm⟩

theorem given_eq_some (h : (entries.map (·.1)).Nodup) : given entries name = some v ↔ (name, v) ∈ entries := by
  induction entries with
  | nil => simp [given]
  | cons e entries ih =>
    obtain ⟨other, w⟩ := e
    obtain ⟨hnew, hrest⟩ := List.nodup_cons.mp h
    by_cases hname : name = other
    · subst hname
      have hfirst : (name, v) ∉ entries := fun hmem => hnew (List.mem_map.mpr ⟨_, hmem, rfl⟩)
      rw [given_cons_self]
      simp [hfirst, eq_comm]
    · rw [given_cons_of_ne hname, ih hrest]
      simp [hname]

/-! ## Slots -/

namespace Slot

/-- The slot of a field that is read by `f` and set by `put`. -/
def field (name : String) (required : Bool) (f : V → Except ε α) (put : α → ρ → ρ) : Slot ε V ρ :=
  ⟨name, required, fun v => (f v).map put⟩

/-- It does not matter which of two fields is set first. -/
def Commutes (s t : Slot ε V ρ) : Prop :=
  ∀ v w put put', s.read v = .ok put → t.read w = .ok put' → ∀ a, put (put' a) = put' (put a)

theorem commutes_field {name name' : String} {required required' : Bool} {f : V → Except ε α}
    {f' : V → Except ε β} {put : α → ρ → ρ} {put' : β → ρ → ρ} (h : ∀ x y a, put x (put' y a) = put' y (put x a)) :
    (field name required f put).Commutes (field name' required' f' put') := by
  intro v w p p' hp hp' a
  simp only [field] at hp hp'
  cases hx : f v with
  | error e => rw [hx] at hp; cases hp
  | ok x =>
    cases hy : f' w with
    | error e => rw [hy] at hp'; cases hp'
    | ok y =>
      rw [hx] at hp
      rw [hy] at hp'
      cases hp
      cases hp'
      exact h x y a

end Slot

/-! ## Field by field -/

/-- Read fields in order, each from the value `g` has for its name. -/
def fill (g : String → Option V) : List (Slot ε V ρ) → ρ → Except ε ρ
  | [], a => .ok a
  | s :: rest, a =>
    match g s.name with
    | none => fill g rest a
    | some v =>
      match s.read v with
      | .error e => .error e
      | .ok put => fill g rest (put a)

variable {g g' : String → Option V} {slots rest : List (Slot ε V ρ)} {s : Slot ε V ρ} {put : ρ → ρ} {a b : ρ}

theorem fill_cons_none (h : g s.name = none) (rest : List (Slot ε V ρ)) (a : ρ) :
    fill g (s :: rest) a = fill g rest a := by
  simp only [fill, h]

theorem fill_cons_error (h : g s.name = some v) {e : ε} (he : s.read v = .error e) (rest : List (Slot ε V ρ))
    (a : ρ) : fill g (s :: rest) a = .error e := by
  simp only [fill, h, he]

theorem fill_cons_some (h : g s.name = some v) (hput : s.read v = .ok put) (rest : List (Slot ε V ρ)) (a : ρ) :
    fill g (s :: rest) a = fill g rest (put a) := by
  simp only [fill, h, hput]

theorem fill_nothing (slots : List (Slot ε V ρ)) (a : ρ) : fill (given []) slots a = .ok a := by
  induction slots with
  | nil => rfl
  | cons s rest ih => exact ih

theorem fill_congr (h : ∀ s ∈ slots, g s.name = g' s.name) (a : ρ) : fill g slots a = fill g' slots a := by
  induction slots generalizing a with
  | nil => rfl
  | cons s rest ih =>
    have ih := ih fun t ht => h t (List.mem_cons_of_mem _ ht)
    simp only [fill, h s List.mem_cons_self, ih]

/-- Every value given for a field reads. -/
theorem read_of_fill (h : fill g slots a = .ok b) (hs : s ∈ slots) (hv : g s.name = some v) :
    ∃ put, s.read v = .ok put := by
  induction slots generalizing a with
  | nil => cases hs
  | cons t rest ih =>
    cases hw : g t.name with
    | none =>
      rcases List.mem_cons.mp hs with rfl | hs
      · rw [hw] at hv; cases hv
      · exact ih (fill_cons_none hw rest a ▸ h) hs
    | some w =>
      cases hput : t.read w with
      | error e => rw [fill_cons_error hw hput] at h; cases h
      | ok put =>
        rcases List.mem_cons.mp hs with rfl | hs
        · obtain rfl : w = v := Option.some.inj (hw.symm.trans hv)
          exact ⟨put, hput⟩
        · exact ih (fill_cons_some hw hput rest a ▸ h) hs

theorem exists_fill (h : ∀ s ∈ slots, ∀ v, g s.name = some v → ∃ put, s.read v = .ok put) (a : ρ) :
    ∃ b, fill g slots a = .ok b := by
  induction slots generalizing a with
  | nil => exact ⟨a, rfl⟩
  | cons s rest ih =>
    have ih := ih fun t ht => h t (List.mem_cons_of_mem _ ht)
    cases hv : g s.name with
    | none => rw [fill_cons_none hv]; exact ih a
    | some v =>
      obtain ⟨put, hput⟩ := h s List.mem_cons_self v hv
      rw [fill_cons_some hv hput]
      exact ih (put a)

/-- One more value is as good as a field that is set from the start. -/
theorem fill_put (hcommutes : slots.Pairwise Slot.Commutes) (hnames : (slots.map (·.name)).Nodup)
    (hs : s ∈ slots) (hread : s.read v = .ok put) (hnone : g s.name = none) (hsome : g' s.name = some v)
    (hsame : ∀ name ≠ s.name, g' name = g name) (a : ρ) : fill g' slots a = fill g slots (put a) := by
  induction slots generalizing a with
  | nil => cases hs
  | cons t rest ih =>
    obtain ⟨hnotMem, hnames⟩ := List.nodup_cons.mp hnames
    rcases List.mem_cons.mp hs with rfl | hs
    · rw [fill_cons_some hsome hread, fill_cons_none hnone]
      exact fill_congr (fun u hu => hsame _ fun heq => hnotMem (List.mem_map.mpr ⟨u, hu, heq⟩)) (put a)
    · have hne : t.name ≠ s.name := fun heq => hnotMem (List.mem_map.mpr ⟨s, hs, heq.symm⟩)
      have ih := ih hcommutes.of_cons hnames hs
      have hg : g' t.name = g t.name := hsame _ hne
      cases hw : g t.name with
      | none => rw [fill_cons_none (hg.trans hw), fill_cons_none hw, ih]
      | some w =>
        cases hput : t.read w with
        | error e => rw [fill_cons_error (hg.trans hw) hput, fill_cons_error hw hput]
        | ok put' =>
          rw [fill_cons_some (hg.trans hw) hput, fill_cons_some hw hput, ih,
            List.rel_of_pairwise_cons hcommutes hs w v put' put hput hread a]

/-! ## What the fields are -/

/-- `x` is what `f` reads from the value for a name, or `d` if there is none. -/
structure Takes (g : String → Option V) (name : String) (f : V → Except ε α) (d x : α) : Prop where
  present : ∀ v, g name = some v → f v = .ok x
  absent : g name = none → x = d

variable {required : Bool} {f : V → Except ε α} {set : α → ρ → ρ} {d x : α}

theorem fill_field_ok (h : fill g (.field name required f set :: rest) a = .ok b) (hd : set d a = a) :
    ∃ x, Takes g name f d x ∧ fill g rest (set x a) = .ok b := by
  cases hv : g name with
  | none =>
    rw [fill_cons_none (s := .field name required f set) hv] at h
    refine ⟨d, ⟨fun v hv' => ?_, fun _ => rfl⟩, by rwa [hd]⟩
    rw [hv] at hv'
    cases hv'
  | some v =>
    cases hx : f v with
    | error e =>
      have he : (Slot.field name required f set).read v = .error e := congrArg (Except.map set) hx
      rw [fill_cons_error hv he] at h
      cases h
    | ok x =>
      have hput : (Slot.field name required f set).read v = .ok (set x) := congrArg (Except.map set) hx
      rw [fill_cons_some hv hput] at h
      refine ⟨x, ⟨fun v' hv' => ?_, fun hnone => absurd (hv.symm.trans hnone) nofun⟩, h⟩
      obtain rfl : v = v' := Option.some.inj (hv.symm.trans hv')
      exact hx

theorem fill_of_field (hx : Takes g name f d x) (hd : set d a = a) (h : fill g rest (set x a) = .ok b) :
    fill g (.field name required f set :: rest) a = .ok b := by
  cases hv : g name with
  | none =>
    obtain rfl := hx.absent hv
    rw [hd] at h
    rwa [fill_cons_none (s := .field name required f set) hv]
  | some v =>
    have hput : (Slot.field name required f set).read v = .ok (set x) :=
      congrArg (Except.map set) (hx.present v hv)
    rwa [fill_cons_some hv hput]

/-! ## Entry by entry -/

namespace Record

variable {r : Record ε V ρ} {names : List String}

/-- Entries whose keys could be read. -/
def named (entries : List (String × V)) : List (Except ε String × V) := entries.map fun e => (.ok e.1, e.2)

theorem named_cons (name : String) (v : V) (entries : List (String × V)) :
    named (ε := ε) ((name, v) :: entries) = (.ok name, v) :: named entries := rfl

/-- Fields have different names, and it does not matter which is set first. -/
structure Independent (r : Record ε V ρ) : Prop where
  names : r.fieldNames.Nodup
  commutes : r.slots.Pairwise Slot.Commutes

/-- Every field that must be given is. -/
def Complete (r : Record ε V ρ) (names : List String) : Prop :=
  ∀ s ∈ r.slots, s.required = true → s.name ∈ names

theorem missing?_eq_none : r.missing? names = none ↔ r.Complete names := by
  simp [missing?, Complete]

theorem readFrom_nil (names : List String) (a : ρ) : r.readFrom [] names a = .ok b ↔ r.Complete names ∧ a = b := by
  rw [← missing?_eq_none, readFrom]
  cases r.missing? names <;> simp

theorem exists_slot (h : name ∈ r.fieldNames) : ∃ s ∈ r.slots, s.name = name ∧ r.slot? name = some s := by
  obtain ⟨t, ht, htname⟩ := List.mem_map.mp h
  obtain ⟨s, hs⟩ : ∃ s, r.slot? name = some s := Option.isSome_iff_exists.mp
    (List.find?_isSome.mpr ⟨t, ht, by simp [htname]⟩)
  exact ⟨s, List.mem_of_find?_eq_some hs, by simpa using List.find?_some hs, hs⟩

theorem mem_fieldNames_of_slot? (h : r.slot? name = some s) : name ∈ r.fieldNames := by
  have hname : s.name = name := by simpa using List.find?_some h
  exact List.mem_map.mpr ⟨s, List.mem_of_find?_eq_some h, hname⟩

/-- The next entry, of a field that was not given yet. -/
theorem readFrom_field (hs : r.slot? name = some s) (hnew : names.contains name = false) (v : V)
    (rest : List (Except ε String × V)) (a : ρ) : r.readFrom ((.ok name, v) :: rest) names a =
      (s.read v).bind fun put => r.readFrom rest (name :: names) (put a) := by
  simp only [readFrom, hs, hnew, Bool.false_eq_true, if_false]
  cases s.read v <;> rfl

theorem readFrom_cons (hs : r.slot? name = some s) (hnew : names.contains name = false) (hread : s.read v = .ok put)
    (rest : List (Except ε String × V)) (a : ρ) :
    r.readFrom ((.ok name, v) :: rest) names a = r.readFrom rest (name :: names) (put a) := by
  rw [readFrom_field hs hnew, hread]
  rfl

/-- Entries of different fields that were not given yet. -/
structure Fresh (r : Record ε V ρ) (entries : List (String × V)) (names : List String) : Prop where
  known : ∀ e ∈ entries, e.1 ∈ r.fieldNames
  distinct : (entries.map (·.1)).Nodup
  unread : ∀ e ∈ entries, e.1 ∉ names

theorem Fresh.contains_head (h : r.Fresh ((name, v) :: entries) names) : names.contains name = false := by
  simpa using h.unread _ List.mem_cons_self

theorem Fresh.tail (h : r.Fresh ((name, v) :: entries) names) : r.Fresh entries (name :: names) where
  known e he := h.known e (List.mem_cons_of_mem _ he)
  distinct := (List.nodup_cons.mp h.distinct).2
  unread := by
    intro e he hmem
    rcases List.mem_cons.mp hmem with heq | hmem
    · exact (List.nodup_cons.mp h.distinct).1 (List.mem_map.mpr ⟨e, he, heq⟩)
    · exact h.unread e (List.mem_cons_of_mem _ he) hmem

theorem Fresh.fill_cons (h : r.Fresh ((name, v) :: entries) names) (hr : r.Independent) (hs : s ∈ r.slots)
    (hname : s.name = name) (hread : s.read v = .ok put) (a : ρ) :
    fill (given ((name, v) :: entries)) r.slots a = fill (given entries) r.slots (put a) := by
  subst hname
  have hnone : given entries s.name = none := given_eq_none.mpr (List.nodup_cons.mp h.distinct).1
  exact fill_put hr.commutes hr.names hs hread hnone given_cons_self (fun _ hne => given_cons_of_ne hne) a

/-- If the fields can be read one by one, reading the entries leaves only the question
    whether all that must be given were. -/
theorem readFrom_of_fill (hr : r.Independent) (hfresh : r.Fresh entries names)
    (h : fill (given entries) r.slots a = .ok b) :
    r.readFrom (named entries) names a = r.readFrom [] ((entries.map (·.1)).reverse ++ names) b := by
  induction entries generalizing names a with
  | nil =>
    obtain rfl : a = b := Except.ok.inj ((fill_nothing r.slots a).symm.trans h)
    rfl
  | cons e entries ih =>
    obtain ⟨name, v⟩ := e
    obtain ⟨s, hs, hname, hslot⟩ := exists_slot (hfresh.known _ List.mem_cons_self)
    obtain ⟨put, hput⟩ := read_of_fill h hs (by rw [hname, given_cons_self])
    rw [hfresh.fill_cons hr hs hname hput] at h
    rw [named_cons, readFrom_cons hslot hfresh.contains_head hput, ih hfresh.tail h]
    simp

/-- If the entries can be read, so can the fields one by one. -/
theorem fill_of_readFrom (hr : r.Independent) (hfresh : r.Fresh entries names)
    (h : r.readFrom (named entries) names a = .ok b) : ∃ c, fill (given entries) r.slots a = .ok c := by
  induction entries generalizing names a with
  | nil => exact ⟨a, fill_nothing r.slots a⟩
  | cons e entries ih =>
    obtain ⟨name, v⟩ := e
    obtain ⟨s, hs, hname, hslot⟩ := exists_slot (hfresh.known _ List.mem_cons_self)
    rw [named_cons, readFrom_field hslot hfresh.contains_head] at h
    cases hput : s.read v with
    | error e => rw [hput] at h; cases h
    | ok put =>
      rw [hput] at h
      rw [hfresh.fill_cons hr hs hname hput]
      exact ih hfresh.tail h

/-- A strict record refuses unknown fields and fields given twice. -/
theorem fresh_of_readFrom (hstrict : r.strict = true) (h : r.readFrom (named entries) names a = .ok b) :
    r.Fresh entries names := by
  induction entries generalizing names a with
  | nil => exact ⟨nofun, List.nodup_nil, nofun⟩
  | cons e entries ih =>
    obtain ⟨name, v⟩ := e
    simp only [named, List.map_cons, readFrom] at h
    split at h
    · rw [if_pos hstrict] at h
      cases h
    rename_i s hs
    split at h
    · cases h
    rename_i hcontains
    have hnew : name ∉ names := by simpa using hcontains
    split at h
    · cases h
    have hrest : r.Fresh entries (name :: names) := ih h
    refine ⟨List.forall_mem_cons.mpr ⟨mem_fieldNames_of_slot? hs, hrest.known⟩,
      List.nodup_cons.mpr ⟨fun hmem => ?_, hrest.distinct⟩, List.forall_mem_cons.mpr ⟨hnew, fun e he hmem => ?_⟩⟩
    · obtain ⟨e, he, heq⟩ := List.mem_map.mp hmem
      exact hrest.unread e he (heq ▸ List.mem_cons_self)
    · exact hrest.unread e he (List.mem_cons_of_mem _ hmem)

/-- Entries of different fields are read as their fields are, one by one. -/
theorem read_named (hr : r.Independent) (hknown : ∀ e ∈ entries, e.1 ∈ r.fieldNames)
    (hdistinct : (entries.map (·.1)).Nodup) (h : fill (given entries) r.slots r.initial = .ok b) :
    r.read (named entries) = r.readFrom [] (entries.map (·.1)).reverse b := by
  have hfresh : r.Fresh entries [] := ⟨hknown, hdistinct, fun _ _ => List.not_mem_nil⟩
  rw [read, readFrom_of_fill hr hfresh h, List.append_nil]

/-- What a strict record is read from. -/
theorem read_eq_ok_iff (hr : r.Independent) (hstrict : r.strict = true) :
    r.read (named entries) = .ok b ↔
      (entries.map (·.1)).Nodup ∧ (∀ e ∈ entries, e.1 ∈ r.fieldNames) ∧ r.Complete (entries.map (·.1)) ∧
        fill (given entries) r.slots r.initial = .ok b := by
  have hcomplete : r.Complete (entries.map (·.1)).reverse ↔ r.Complete (entries.map (·.1)) := by
    simp only [Complete, List.mem_reverse]
  constructor
  · intro h
    have hfresh : r.Fresh entries [] := fresh_of_readFrom hstrict h
    obtain ⟨c, hc⟩ := fill_of_readFrom hr hfresh h
    rw [read_named hr hfresh.known hfresh.distinct hc] at h
    obtain ⟨hgiven, rfl⟩ := (readFrom_nil _ _).mp h
    exact ⟨hfresh.distinct, hfresh.known, hcomplete.mp hgiven, hc⟩
  · rintro ⟨hdistinct, hknown, hgiven, h⟩
    rw [read_named hr hknown hdistinct h]
    exact (readFrom_nil _ _).mpr ⟨hcomplete.mpr hgiven, rfl⟩

end Record

end TaintAlias.Decode
