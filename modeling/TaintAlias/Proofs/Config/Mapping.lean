/-
  TaintAlias.Proofs.Config.Mapping — which mappings are configurations.

  A text that is one mapping with scalar keys and without aliases (`IsMapping`) is read as a
  configuration exactly if the mapping describes it (`Described`): no key is given twice,
  every key names a field, the treatment of return sites is given, every field has what its
  value stands for, or its default if it is left out, and the configuration is valid. The
  order of the entries has no part in this (`Described.perm`), so a mapping and any
  rearrangement of it are read as the same configuration, or neither is read as one
  (`ofYaml_mapping`).

  What a value stands for does not refer to any reader; that the readers of the fields agree
  with it is settled for nodes, apart from configurations.
-/

import TaintAlias.Config.Yaml
import TaintAlias.Proofs.Config.Valid
import TaintAlias.Proofs.Decode.Record
import TaintAlias.Proofs.Yaml.Value

namespace TaintAlias

namespace Config

open Decode (Slot Takes fill fill_field_ok fill_of_field given given_eq_none given_eq_some)
open Yaml (Document Node Spot)

/-! ## Mappings -/

/-- A scalar key and a value without aliases. -/
structure IsEntry (n : Node × Node) (e : String × Node) : Prop where
  key : ∃ p style, n.1 = .scalar p e.1 style
  value : n.2 = e.2
  aliasFree : e.2.hasAlias = false

/-- The text is one mapping: the texts of its keys, and its values, in order. -/
def IsMapping (text : String) (entries : List (String × Node)) : Prop :=
  ∃ p nodes, Document.ofText text = ⟨.mapping p nodes, true⟩ ∧ List.Forall₂ IsEntry nodes entries

/-- The value of a key. -/
def valueSpot (e : String × Node) : Spot := ⟨[.key e.1], e.2, false⟩

def spots (entries : List (String × Node)) : List (String × Spot) := entries.map fun e => (e.1, valueSpot e)

variable {α : Type} {text text' key : String} {nodes : List (Node × Node)} {entries entries' : List (String × Node)}
  {c : Config}

theorem fields_of_entries (h : List.Forall₂ IsEntry nodes entries) (root : Node) :
    Yaml.fields root nodes = Decode.Record.named (spots entries) := by
  induction h with
  | nil => rfl
  | @cons n e nodes entries hentry _ ih =>
    obtain ⟨k, v⟩ := n
    obtain ⟨⟨p, style, rfl⟩, rfl, haliasFree⟩ := hentry
    have hvalue : Spot.of root [.key e.1] e.2 = valueSpot e := Spot.of_alias_free haliasFree _ _
    have hfield : Yaml.fieldName root (.scalar p e.1 style) = .ok e.1 := rfl
    have hcons : Yaml.fields root ((.scalar p e.1 style, e.2) :: nodes) =
        (Yaml.fieldName root (.scalar p e.1 style), Spot.of root [.key e.1] e.2) :: Yaml.fields root nodes := rfl
    rw [hcons, hfield, hvalue, ih]
    rfl

theorem alias_free_of_mem (h : List.Forall₂ IsEntry nodes entries) {e : String × Node} (he : e ∈ entries) :
    e.2.hasAlias = false := by
  induction h with
  | nil => cases he
  | cons hentry _ ih =>
    rcases List.mem_cons.mp he with rfl | he
    · exact hentry.aliasFree
    · exact ih he

theorem keys_spots : (spots entries).map (·.1) = entries.map (·.1) := by
  simp [spots]

theorem forall_spots {names : List String} :
    (∀ e ∈ spots entries, e.1 ∈ names) ↔ ∀ e ∈ entries, e.1 ∈ names := List.forall_mem_map

theorem mem_spots {s : Spot} : (key, s) ∈ spots entries ↔ ∃ v, (key, v) ∈ entries ∧ s = valueSpot (key, v) := by
  simp only [spots, List.mem_map, Prod.mk.injEq]
  constructor
  · rintro ⟨e, he, rfl, rfl⟩
    exact ⟨e.2, he, rfl⟩
  · rintro ⟨v, hv, rfl⟩
    exact ⟨(key, v), hv, rfl, rfl⟩

/-! ## What a mapping describes -/

def strategyNames : List (String × Sparsification) :=
  [("none", .none), ("type_based", .typeBased), ("alias_aware", .aliasAware)]

def returnSitesNames : List (String × ReturnSites) :=
  [("field_write_only", .fieldWriteOnly), ("field_write_and_return", .fieldWriteAndReturn)]

/-- `x` is what the value of a key stands for, or `d` if the key is left out. -/
structure Decodes (entries : List (String × Node)) (key : String) (Is : Node → α → Prop) (d x : α) : Prop where
  present : ∀ v, (key, v) ∈ entries → Is v x
  absent : key ∉ entries.map (·.1) → x = d

def fieldNames : List String := [
  "strategy", "return_sites", "disable_aliasing", "query_cache", "query_cache_capacity", "ignored_methods",
  "access_path_length"]

/-- What a mapping has to say for a configuration to be read from it. -/
structure Described (entries : List (String × Node)) (c : Config) : Prop where
  distinct : (entries.map (·.1)).Nodup
  known : ∀ e ∈ entries, e.1 ∈ fieldNames
  complete : "return_sites" ∈ entries.map (·.1)
  strategy : Decodes entries "strategy" (Node.IsVariant strategyNames) .none c.strategy
  returnSites : ∀ v, ("return_sites", v) ∈ entries → v.IsVariant returnSitesNames c.returnSites
  disabled : Decodes entries "disable_aliasing" Node.IsBool false c.disabled
  caching : Decodes entries "query_cache" Node.IsBool false c.caching
  capacity : Decodes entries "query_cache_capacity" (Node.IsOption Node.IsWord) none c.capacity
  ignored : Decodes entries "ignored_methods" Node.IsTexts
    ["int hashCode()", "boolean equals(java.lang.Object)"] c.ignored
  pathLength : Decodes entries "access_path_length" Node.IsWord 5 c.pathLength
  valid : c.Valid

theorem Decodes.perm {Is : Node → α → Prop} {d x : α} (h : Decodes entries key Is d x)
    (hperm : entries'.Perm entries) : Decodes entries' key Is d x where
  present v hv := h.present v (hperm.mem_iff.mp hv)
  absent hkey := h.absent fun hmem => hkey ((hperm.map (·.1)).mem_iff.mpr hmem)

theorem Described.perm (h : Described entries c) (hperm : entries'.Perm entries) : Described entries' c where
  distinct := (hperm.map (·.1)).nodup_iff.mpr h.distinct
  known e he := h.known e (hperm.mem_iff.mp he)
  complete := (hperm.map (·.1)).mem_iff.mpr h.complete
  strategy := h.strategy.perm hperm
  returnSites v hv := h.returnSites v (hperm.mem_iff.mp hv)
  disabled := h.disabled.perm hperm
  caching := h.caching.perm hperm
  capacity := h.capacity.perm hperm
  ignored := h.ignored.perm hperm
  pathLength := h.pathLength.perm hperm
  valid := h.valid

theorem takes_iff_decodes (hdistinct : (entries.map (·.1)).Nodup) {read : Spot → Except Yaml.Error α}
    {Is : Node → α → Prop} {d x : α}
    (hread : ∀ v, (key, v) ∈ entries → (read (valueSpot (key, v)) = .ok x ↔ Is v x)) :
    Takes (given (spots entries)) key read d x ↔ Decodes entries key Is d x := by
  have hsome (s : Spot) : given (spots entries) key = some s ↔ (key, s) ∈ spots entries :=
    given_eq_some (by rwa [keys_spots])
  have hnone : given (spots entries) key = none ↔ key ∉ entries.map (·.1) := by
    rw [given_eq_none, keys_spots]
  constructor
  · intro h
    refine ⟨fun v hv => (hread v hv).mp ?_, fun hkey => h.absent (hnone.mpr hkey)⟩
    exact h.present _ ((hsome _).mpr (mem_spots.mpr ⟨v, hv, rfl⟩))
  · intro h
    refine ⟨fun s hs => ?_, fun hkey => h.absent (hnone.mp hkey)⟩
    obtain ⟨v, hv, rfl⟩ := mem_spots.mp ((hsome s).mp hs)
    exact (hread v hv).mpr (h.present v hv)

/-! ## Fields -/

theorem named_strategyNames : Spot.Named strategyNames where
  found name a := by
    rw [Spot.ofName?_eq_some fun b => by cases b <;> rfl]
    cases a <;> simp [strategyNames, Choice.name, Sparsification.name]
  proper := by decide

theorem named_returnSitesNames : Spot.Named returnSitesNames where
  found name a := by
    rw [Spot.ofName?_eq_some fun b => by cases b <;> rfl]
    cases a <;> simp [returnSitesNames, Choice.name, ReturnSites.name]
  proper := by decide

section

variable (hdistinct : (entries.map (·.1)).Nodup)

include hdistinct

theorem takes_choice [Choice α] {names : List (String × α)} (hnames : Spot.Named names) {d x : α} :
    Takes (given (spots entries)) key Spot.choice d x ↔ Decodes entries key (Node.IsVariant names) d x :=
  takes_iff_decodes hdistinct fun _ _ => Spot.choice_eq_ok hnames

theorem takes_bool {d x : Bool} :
    Takes (given (spots entries)) key Spot.bool d x ↔ Decodes entries key Node.IsBool d x :=
  takes_iff_decodes hdistinct fun _ _ => Spot.bool_eq_ok

theorem takes_word {d x : UInt64} :
    Takes (given (spots entries)) key (Spot.word "usize") d x ↔ Decodes entries key Node.IsWord d x :=
  takes_iff_decodes hdistinct fun _ _ => Spot.word_eq_ok

theorem takes_option_word {d x : Option UInt64} :
    Takes (given (spots entries)) key (Spot.option (Spot.word "usize")) d x ↔
      Decodes entries key (Node.IsOption Node.IsWord) d x :=
  takes_iff_decodes hdistinct fun _ _ => Spot.option_eq_ok fun _ => Spot.word_eq_ok

theorem takes_texts (hentries : List.Forall₂ IsEntry nodes entries) (root : Node) {d x : List String} :
    Takes (given (spots entries)) key (Spot.list root fun t => t.text "a string") d x ↔
      Decodes entries key Node.IsTexts d x :=
  takes_iff_decodes hdistinct fun _ hv => Spot.list_text_eq_ok (alias_free_of_mem hentries hv)

end

/-! ## Reading -/

theorem ofYaml_eq_ok {root : Node} (h : Document.ofText text = ⟨root, true⟩) :
    ofYaml text = .ok c ↔ ofNode root = .ok c ∧ c.Valid := by
  rw [← validate_eq_ok, ofYaml, ofDocument, h]
  cases ofNode root with
  | error e => simp
  | ok d =>
    cases hd : d.validate with
    | error e =>
      simp only [if_true, hd, Except.map, reduceCtorEq, Except.ok.injEq, false_iff]
      rintro ⟨rfl, hc⟩
      rw [hd] at hc
      cases hc
    | ok u =>
      simp only [if_true, hd, Except.map, Except.ok.injEq]
      exact ⟨fun h => ⟨h, h ▸ hd⟩, And.left⟩

theorem yamlRecord_slots (root : Node) : (yamlRecord root).slots = [
    .field "strategy" false Spot.choice fun a c => { c with strategy := a },
    .field "return_sites" true Spot.choice fun a c => { c with returnSites := a },
    .field "disable_aliasing" false Spot.bool fun a c => { c with disabled := a },
    .field "query_cache" false Spot.bool fun a c => { c with caching := a },
    .field "query_cache_capacity" false (Spot.option (Spot.word "usize")) fun a c => { c with capacity := a },
    .field "ignored_methods" false (Spot.list root fun t => t.text "a string") fun a c => { c with ignored := a },
    .field "access_path_length" false (Spot.word "usize") fun a c => { c with pathLength := a }] := rfl

theorem nodup_fieldNames : fieldNames.Nodup := by decide

theorem independent_yamlRecord (root : Node) : (yamlRecord root).Independent where
  names := nodup_fieldNames
  commutes := by simp [yamlRecord_slots, Slot.commutes_field]

theorem complete_yamlRecord {root : Node} {names : List String} :
    (yamlRecord root).Complete names ↔ "return_sites" ∈ names := by
  simp [Decode.Record.Complete, yamlRecord_slots, Slot.field]

/-- The fields read one by one are those that the mapping describes. -/
theorem described_of_fill (hentries : List.Forall₂ IsEntry nodes entries) (hdistinct : (entries.map (·.1)).Nodup)
    (hknown : ∀ e ∈ entries, e.1 ∈ fieldNames) (hcomplete : "return_sites" ∈ entries.map (·.1)) {root : Node}
    (h : fill (given (spots entries)) (yamlRecord root).slots { returnSites := .fieldWriteOnly } = .ok c)
    (hvalid : c.Valid) : Described entries c := by
  rw [yamlRecord_slots] at h
  obtain ⟨strategy, hstrategy, h⟩ := fill_field_ok h rfl
  obtain ⟨returnSites, hreturnSites, h⟩ := fill_field_ok h rfl
  obtain ⟨disabled, hdisabled, h⟩ := fill_field_ok h rfl
  obtain ⟨caching, hcaching, h⟩ := fill_field_ok h rfl
  obtain ⟨capacity, hcapacity, h⟩ := fill_field_ok h rfl
  obtain ⟨ignored, hignored, h⟩ := fill_field_ok h rfl
  obtain ⟨pathLength, hpathLength, h⟩ := fill_field_ok h rfl
  obtain rfl := Except.ok.inj h
  exact {
    distinct := hdistinct
    known := hknown
    complete := hcomplete
    strategy := (takes_choice hdistinct named_strategyNames).mp hstrategy
    returnSites := ((takes_choice hdistinct named_returnSitesNames).mp hreturnSites).present
    disabled := (takes_bool hdistinct).mp hdisabled
    caching := (takes_bool hdistinct).mp hcaching
    capacity := (takes_option_word hdistinct).mp hcapacity
    ignored := (takes_texts hdistinct hentries root).mp hignored
    pathLength := (takes_word hdistinct).mp hpathLength
    valid := hvalid }

theorem fill_of_described (hentries : List.Forall₂ IsEntry nodes entries) (h : Described entries c) (root : Node) :
    fill (given (spots entries)) (yamlRecord root).slots { returnSites := .fieldWriteOnly } = .ok c := by
  have hreturnSites : Decodes entries "return_sites" (Node.IsVariant returnSitesNames) .fieldWriteOnly c.returnSites :=
    ⟨h.returnSites, fun hkey => absurd h.complete hkey⟩
  rw [yamlRecord_slots]
  refine fill_of_field ((takes_choice h.distinct named_strategyNames).mpr h.strategy) rfl ?_
  refine fill_of_field ((takes_choice h.distinct named_returnSitesNames).mpr hreturnSites) rfl ?_
  refine fill_of_field ((takes_bool h.distinct).mpr h.disabled) rfl ?_
  refine fill_of_field ((takes_bool h.distinct).mpr h.caching) rfl ?_
  refine fill_of_field ((takes_option_word h.distinct).mpr h.capacity) rfl ?_
  refine fill_of_field ((takes_texts h.distinct hentries root).mpr h.ignored) rfl ?_
  refine fill_of_field ((takes_word h.distinct).mpr h.pathLength) rfl ?_
  rfl

/-- For one text; two texts are compared by what their mappings describe. -/
theorem ofYaml_of_isMapping (h : IsMapping text entries) : ofYaml text = .ok c ↔ Described entries c := by
  obtain ⟨p, nodes, htext, hentries⟩ := h
  have hread : ofNode (.mapping p nodes) = .ok c ↔
      (entries.map (·.1)).Nodup ∧ (∀ e ∈ entries, e.1 ∈ fieldNames) ∧ "return_sites" ∈ entries.map (·.1) ∧
        fill (given (spots entries)) (yamlRecord (.mapping p nodes)).slots { returnSites := .fieldWriteOnly } =
          .ok c := by
    rw [ofNode, fields_of_entries hentries, Decode.Record.read_eq_ok_iff (independent_yamlRecord _) rfl, keys_spots,
      complete_yamlRecord]
    exact and_congr_right' (and_congr_left' forall_spots)
  rw [ofYaml_eq_ok htext, hread]
  constructor
  · rintro ⟨⟨hdistinct, hknown, hcomplete, hfill⟩, hvalid⟩
    exact described_of_fill hentries hdistinct hknown hcomplete hfill hvalid
  · intro hc
    exact ⟨⟨hc.distinct, hc.known, hc.complete, fill_of_described hentries hc _⟩, hc.valid⟩

/-- A mapping is read as the valid configuration it describes, in whatever order its entries
    are written. -/
theorem ofYaml_mapping (h : IsMapping text entries) :
    (∀ c, ofYaml text = .ok c ↔ Described entries c) ∧
      ∀ text' entries', IsMapping text' entries' → entries'.Perm entries →
        ∀ c, ofYaml text' = .ok c ↔ ofYaml text = .ok c := by
  refine ⟨fun c => ofYaml_of_isMapping h, fun text' entries' h' hperm c => ?_⟩
  rw [ofYaml_of_isMapping h, ofYaml_of_isMapping h']
  exact ⟨fun hc => hc.perm hperm.symm, fun hc => hc.perm hperm⟩

/-- Keys as they are mostly written. -/
theorem isMapping_of_plain
    (h : Document.ofText text = ⟨.mapping {} (entries.map fun e => (.scalar {} e.1 .plain, e.2)), true⟩)
    (halias : ∀ e ∈ entries, e.2.hasAlias = false) : IsMapping text entries := by
  refine ⟨{}, _, h, List.forall₂_map_left_iff.mpr (List.forall₂_same.mpr fun e he => ?_)⟩
  exact ⟨⟨{}, .plain, rfl⟩, rfl, halias e he⟩

/-- The number of one digit. -/
theorem isOption_three : Node.IsOption Node.IsWord (.scalar {} "3" .plain) (some 3) := by
  have hdigits : IsDigits 10 ['3'] 3 := ⟨by decide, [3], .cons ⟨by decide, .inl rfl⟩ .nil, rfl⟩
  have hnumeral : Yaml.Numeral ['3'] 3 := .decimal hdigits (by simp)
  refine ⟨⟨"3", .plain {} "3", .inl hnumeral⟩, fun h => absurd h.text_mem (by decide), ?_⟩
  rintro ⟨-, htag⟩
  cases htag

/-- A bounded cache, with its size written before the cache is turned on and behind it. A
    treatment of return sites that does not exist is never replaced by another. -/
theorem ofYaml_mapping_bounded :
    ofYaml "query_cache_capacity: 3\nreturn_sites: field_write_only\nquery_cache: true\n" =
        .ok { returnSites := .fieldWriteOnly, caching := true, capacity := some 3 } ∧
      ofYaml "query_cache: true\nquery_cache_capacity: 3\nreturn_sites: field_write_only\n" =
        .ok { returnSites := .fieldWriteOnly, caching := true, capacity := some 3 } ∧
      ∀ c, ofYaml "return_sites: no_such_mode\n" ≠ .ok c := by
  have hbefore : IsMapping "query_cache_capacity: 3\nreturn_sites: field_write_only\nquery_cache: true\n" [
      ("query_cache_capacity", .scalar {} "3" .plain), ("return_sites", .scalar {} "field_write_only" .plain),
      ("query_cache", .scalar {} "true" .plain)] :=
    isMapping_of_plain rfl (by decide)
  have hbehind : IsMapping "query_cache: true\nquery_cache_capacity: 3\nreturn_sites: field_write_only\n" [
      ("query_cache", .scalar {} "true" .plain), ("query_cache_capacity", .scalar {} "3" .plain),
      ("return_sites", .scalar {} "field_write_only" .plain)] :=
    isMapping_of_plain rfl (by decide)
  have hunknown : IsMapping "return_sites: no_such_mode\n" [("return_sites", .scalar {} "no_such_mode" .plain)] :=
    isMapping_of_plain rfl (by decide)
  have hread := ((ofYaml_mapping hbefore).1
      { returnSites := .fieldWriteOnly, caching := true, capacity := some 3 }).mpr {
    distinct := by decide
    known := by decide
    complete := by decide
    strategy := ⟨by simp, fun _ => rfl⟩
    returnSites := by simpa using .text .plain (by simp) (by simp [returnSitesNames])
    disabled := ⟨by simp, fun _ => rfl⟩
    caching := ⟨by simpa using ⟨"true", by decide, .plain {} "true"⟩, by simp⟩
    capacity := ⟨by simpa using isOption_three, by simp⟩
    ignored := ⟨by simp, fun _ => rfl⟩
    pathLength := ⟨by simp, fun _ => rfl⟩
    valid := validate_eq_ok.mp rfl }
  refine ⟨hread, ((ofYaml_mapping hbefore).2 _ _ hbehind (List.perm_append_singleton _ [_, _]).symm _).mpr hread,
    fun c hc => ?_⟩
  cases (((ofYaml_mapping hunknown).1 c).mp hc).returnSites _ List.mem_cons_self with
  | text _ _ ha => simp [returnSitesNames] at ha
  | tag htag _ _ => cases htag

end Config

end TaintAlias
