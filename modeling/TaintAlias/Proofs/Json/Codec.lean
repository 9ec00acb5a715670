/-
  TaintAlias.Proofs.Json.Codec — what is written as JSON is read back.

  A codec is lawful if every value is read back from what it is written as. Words, options,
  lists, choices and variants are lawful if what they are made of is; an option only if no
  value is written as null.

  A record is read back from more than what it is written as. Its fields may come in any
  order, and without any of those that have their default (`Thinned`): each is read for
  itself, and what was left out is what it starts with (`takes_of_default`,
  `Writes.decode_object`). In the order of the fields the values alone will do
  (`Writes.decode_array`). Without a field that must be given nothing is read, whatever else
  is left out (`Writes.decode_incomplete`).
-/

import TaintAlias.Json.Codec
import TaintAlias.Proofs.Decode.Record

namespace TaintAlias.Json

variable {α β : Type} {read : Json → Except Decode.Error α} {write : α → Json}

/-- What is written is read back. -/
class LawfulCodec (α : Type) [Codec α] : Prop where
  decode_encode : ∀ a : α, decode (encode a) = .ok a

export LawfulCodec (decode_encode)

/-! ## Atoms -/

theorem natural_of_lt {n bound : Nat} (h : n < bound) (kind : String) : natural bound kind (.integer n) = .ok n := by
  have hrange : (0 : Int) ≤ n ∧ (n : Int) < bound := by omega
  simp only [natural, if_pos hrange, Int.toNat_natCast]

instance : LawfulCodec UInt32 where
  decode_encode n := by
    change (natural UInt32.size "u32" (.integer n.toNat)).map Nat.toUInt32 = .ok n
    rw [natural_of_lt n.toNat_lt_size]
    simp [Except.map]

theorem decodeWord_encodeWord (kind : String) (n : UInt64) : decodeWord kind (encodeWord n) = .ok n := by
  rw [decodeWord, encodeWord, natural_of_lt n.toNat_lt_size]
  simp [Except.map]

instance : LawfulCodec Bool := ⟨fun _ => rfl⟩
instance : LawfulCodec String := ⟨fun _ => rfl⟩

theorem decodeOption_encodeOption (h : ∀ a, read (write a) = .ok a) (hnull : ∀ a, write a ≠ .null) (o : Option α) :
    decodeOption read (encodeOption write o) = .ok o := by
  cases o with
  | none => rfl
  | some a =>
    have hsome : decodeOption read (write a) = (read (write a)).map some := by
      cases hj : write a with
      | null => exact absurd hj (hnull a)
      | _ => rfl
    rw [encodeOption, hsome, h]
    rfl

theorem decodeList_map (h : ∀ a, read (write a) = .ok a) (l : List α) :
    decodeList read (.array (l.map write)) = .ok l := by
  rw [decodeList]
  induction l with
  | nil => rfl
  | cons a rest ih =>
    simp only [List.map_cons, decodeItems, h, ih]
    rfl

/-! ## Choices and variants -/

theorem decodeChoice_encodeChoice [Choice α] (h : ∀ a : α, Choice.ofName? (Choice.name a) = some a) (a : α) :
    decodeChoice (encodeChoice a) = .ok a := by
  simp only [encodeChoice, decodeChoice, variant, h, bare]

/-- A value under another name. -/
theorem decode_map [Codec β] [LawfulCodec β] (f : β → α) (b : β) : (decode (encode b)).map f = .ok (f b) := by
  rw [decode_encode]
  rfl

theorem carrying_encode [Codec β] [LawfulCodec β] (f : β → α) (b : β) : carrying f (some (encode b)) = .ok (f b) :=
  decode_map f b

/-! ## Records -/

open Decode (Takes fill given given_cons_self given_cons_of_ne given_eq_none given_eq_some)
open Decode.Record (named read_named)

@[simp] theorem slot_eq_field {ρ : Type} (name : String) (f : Json → Except Decode.Error α) (put : α → ρ → ρ) :
    Json.slot name f put = .field name false f put := rfl

@[simp] theorem requiredSlot_eq_field {ρ : Type} (name : String) (f : Json → Except Decode.Error α)
    (put : α → ρ → ρ) : requiredSlot name f put = .field name true f put := rfl

/-- The fields of an object. -/
def fields : Json → List (String × Json)
  | .object fields => fields
  | _ => []

/-- Fields in any order, without some that have their default. -/
def Thinned (fields defaults kept : List (String × Json)) : Prop :=
  ∃ removed, (kept ++ removed).Perm fields ∧ ∀ e ∈ removed, e ∈ defaults

variable {ρ : Type} {r : Record ρ} {a : ρ} {entries defaults kept removed : List (String × Json)} {name : String}

theorem thinned_self : Thinned entries defaults entries := ⟨[], by simp, nofun⟩

theorem names_kept (hperm : (kept ++ removed).Perm entries) (hnames : (entries.map (·.1)).Nodup) :
    (kept.map (·.1)).Nodup := by
  have hall : ((kept ++ removed).map (·.1)).Nodup := (hperm.map (·.1)).nodup_iff.mpr hnames
  rw [List.map_append] at hall
  exact hall.of_append_left

/-- A field has what was written, if that is the default wherever it is left out. -/
theorem takes_of_kept {x d : α} (hperm : (kept ++ removed).Perm entries) (hnames : (entries.map (·.1)).Nodup)
    (hread : ∀ a, read (write a) = .ok a) (hwritten : given entries name = some (write x))
    (hremoved : (name, write x) ∈ removed → x = d) : Takes (given kept) name read d x := by
  constructor
  · intro v hv
    have hmem : (name, v) ∈ kept := (given_eq_some (names_kept hperm hnames)).mp hv
    have hgiven : given entries name = some v :=
      (given_eq_some hnames).mpr (hperm.mem_iff.mp (List.mem_append_left _ hmem))
    obtain rfl : v = write x := Option.some.inj (hgiven.symm.trans hwritten)
    exact hread x
  · intro hnone
    have hnot : (name, write x) ∉ kept := fun h => given_eq_none.mp hnone (List.mem_map.mpr ⟨_, h, rfl⟩)
    have hmem : (name, write x) ∈ entries := (given_eq_some hnames).mp hwritten
    exact hremoved ((List.mem_append.mp (hperm.mem_iff.mpr hmem)).resolve_left hnot)

theorem takes_of_default (x d : α) (hkept : Thinned entries defaults kept) (hnames : (entries.map (·.1)).Nodup)
    (hdistinct : (defaults.map (·.1)).Nodup) (hread : ∀ a, read (write a) = .ok a)
    (hwritten : given entries name = some (write x)) (hdefault : given defaults name = some (write d)) :
    Takes (given kept) name read d x := by
  obtain ⟨removed, hperm, hremoved⟩ := hkept
  refine takes_of_kept hperm hnames hread hwritten fun hx => ?_
  have hx : given defaults name = some (write x) := (given_eq_some hdistinct).mpr (hremoved _ hx)
  have heq : write x = write d := Option.some.inj (hx.symm.trans hdefault)
  exact Except.ok.inj ((hread x).symm.trans ((congrArg read heq).trans (hread d)))

theorem takes_of_required (x d : α) (hkept : Thinned entries defaults kept) (hnames : (entries.map (·.1)).Nodup)
    (hread : ∀ a, read (write a) = .ok a) (hwritten : given entries name = some (write x))
    (hdefault : given defaults name = none) : Takes (given kept) name read d x := by
  obtain ⟨removed, hperm, hremoved⟩ := hkept
  refine takes_of_kept hperm hnames hread hwritten fun hx => ?_
  exact absurd (List.mem_map.mpr ⟨_, hremoved _ hx, rfl⟩) (given_eq_none.mp hdefault)

/-- The record is written as these entries. -/
structure Writes (r : Record ρ) (defaults entries : List (String × Json)) (a : ρ) : Prop where
  /-- All fields are written, in order. -/
  names : entries.map (·.1) = r.fieldNames
  /-- Fields that must be given have no default. -/
  required : ∀ s ∈ r.slots, s.required = true → s.name ∉ defaults.map (·.1)
  reads : ∀ kept, Thinned entries defaults kept → fill (given kept) r.slots r.initial = .ok a

namespace Writes

theorem nodup (h : Writes r defaults entries a) (hr : r.Independent) : (entries.map (·.1)).Nodup := h.names ▸ hr.names

theorem known (h : Writes r defaults entries a) (hperm : (kept ++ removed).Perm entries) :
    ∀ e ∈ kept, e.1 ∈ r.fieldNames := by
  intro e he
  rw [← h.names]
  exact List.mem_map.mpr ⟨e, hperm.mem_iff.mp (List.mem_append_left _ he), rfl⟩

/-- Only fields with a default are left out. -/
theorem complete (h : Writes r defaults entries a) (hkept : Thinned entries defaults kept) :
    r.Complete (kept.map (·.1)).reverse := by
  obtain ⟨removed, hperm, hremoved⟩ := hkept
  intro s hs hrequired
  have hname : s.name ∈ entries.map (·.1) := h.names ▸ List.mem_map.mpr ⟨s, hs, rfl⟩
  obtain ⟨e, he, hname⟩ := List.mem_map.mp hname
  have hnot : e ∉ removed := fun hgone => h.required s hs hrequired (List.mem_map.mpr ⟨e, hremoved e hgone, hname⟩)
  have hmem : e ∈ kept := (List.mem_append.mp (hperm.mem_iff.mpr he)).resolve_right hnot
  exact List.mem_reverse.mpr (List.mem_map.mpr ⟨e, hmem, hname⟩)

theorem decode_object (h : Writes r defaults entries a) (hr : r.Independent)
    (hkept : Thinned entries defaults kept) : decodeRecord r (.object kept) = .ok a := by
  have ⟨removed, hperm, _⟩ := hkept
  change r.read (named kept) = .ok a
  rw [read_named hr (h.known hperm) (names_kept hperm (h.nodup hr)) (h.reads kept hkept)]
  exact (Decode.Record.readFrom_nil _ _).mpr ⟨h.complete hkept, rfl⟩

theorem decode_incomplete (h : Writes r defaults entries a) (hr : r.Independent)
    (hperm : (kept ++ removed).Perm entries) (hmissing : r.missing? (kept.map (·.1)).reverse = some name) :
    decodeRecord r (.object kept) = .error (r.fail (.missingField name)) := by
  have hnames := h.nodup hr
  have hdistinct := names_kept hperm hnames
  -- what is left can still be read, since all of it can
  obtain ⟨b, hb⟩ : ∃ b, fill (given kept) r.slots r.initial = .ok b := by
    refine Decode.exists_fill (fun s hs v hv => ?_) r.initial
    have hkept : (s.name, v) ∈ kept := (given_eq_some hdistinct).mp hv
    have hentry : (s.name, v) ∈ entries := hperm.mem_iff.mp (List.mem_append_left _ hkept)
    exact Decode.read_of_fill (h.reads entries thinned_self) hs ((given_eq_some hnames).mpr hentry)
  change r.read (named kept) = _
  rw [read_named hr (h.known hperm) hdistinct hb, Decode.Record.readFrom, hmissing]

end Writes

/-- Items are read as the fields whose turn it is. -/
theorem readItems_eq_fill {slots : List (Json.Slot ρ)} (hnames : (slots.map (·.name)).Nodup)
    (hentries : entries.map (·.1) = slots.map (·.name)) (i : Nat) (a : ρ) :
    readItems r i slots (entries.map (·.2)) a = fill (given entries) slots a := by
  induction slots generalizing entries i a with
  | nil =>
    obtain rfl : entries = [] := by simpa using hentries
    rfl
  | cons s rest ih =>
    obtain ⟨hnew, hrest⟩ := List.nodup_cons.mp hnames
    cases entries with
    | nil => simp at hentries
    | cons e entries =>
      obtain ⟨name, v⟩ := e
      obtain ⟨rfl, htailNames⟩ := List.cons.inj hentries
      have htail (a : ρ) : fill (given ((s.name, v) :: entries)) rest a = fill (given entries) rest a :=
        Decode.fill_congr (fun t ht => given_cons_of_ne fun heq => hnew (List.mem_map.mpr ⟨t, ht, heq⟩)) a
      rw [List.map_cons, readItems]
      cases hput : s.read v with
      | error e => rw [Decode.fill_cons_error given_cons_self hput]
      | ok put => rw [Decode.fill_cons_some given_cons_self hput, htail, ← ih hrest htailNames (i + 1)]

theorem Writes.decode_array (h : Writes r defaults entries a) (hr : r.Independent) :
    decodeRecord r (.array (entries.map (·.2))) = .ok a := by
  rw [decodeRecord, readItems_eq_fill hr.names h.names]
  exact h.reads entries thinned_self

/-- How a record is read besides from what it is written as. -/
structure ReadsFields (ρ : Type) [Codec ρ] (defaults : List (String × Json)) : Prop where
  /-- The values alone, in the order of the fields. -/
  array : ∀ a : ρ, decode (.array ((encode a).fields.map (·.2))) = .ok a
  /-- Fields in any order, without any that have their default. -/
  object : ∀ (a : ρ) (kept : List (String × Json)), Thinned (encode a).fields defaults kept →
    decode (.object kept) = .ok a

theorem readsFields_of_writes [Codec ρ] (hr : r.Independent) (hdecode : (decode : Json → Except _ ρ) = decodeRecord r)
    (h : ∀ a : ρ, Writes r defaults (encode a).fields a) : ReadsFields ρ defaults where
  array a := hdecode ▸ (h a).decode_array hr
  object a _ hkept := hdecode ▸ (h a).decode_object hr hkept

end TaintAlias.Json
