/-
  TaintAlias.Proofs.Json.RoundTrip — every value the library writes as JSON is read back.

  Handles, roots, segments and choices have one form each. Solver options, build logs and
  configurations are also read from their fields in any order, from the fields that do not
  have their default, and from the values alone (`ReadsFields`); whether a configuration is
  valid has no part in it. Without the treatment of return sites no configuration is read.
  `Json.round_trip` says so for all types.
-/

import TaintAlias.Json.Records
import TaintAlias.Proofs.Json.Codec

namespace TaintAlias

open Decode (Slot fill_of_field)
open Json (LawfulCodec ReadsFields Thinned Writes encode decode decode_encode decode_map carrying_encode
  decodeChoice_encodeChoice decodeOption_encodeOption decodeList_map decodeWord_encodeWord takes_of_default
  takes_of_required thinned_self readsFields_of_writes)

/-! ## Handles, choices, segments and roots -/

instance : LawfulCodec Method := ⟨fun m => decode_map Method.mk m.id⟩
instance : LawfulCodec Stmt := ⟨fun s => decode_map Stmt.mk s.id⟩
instance : LawfulCodec Variable := ⟨fun v => decode_map Variable.mk v.id⟩
instance : LawfulCodec Field := ⟨fun f => decode_map Field.mk f.id⟩

instance : LawfulCodec Sparsification := ⟨decodeChoice_encodeChoice fun a => by cases a <;> rfl⟩
instance : LawfulCodec ReturnSites := ⟨decodeChoice_encodeChoice fun a => by cases a <;> rfl⟩
instance : LawfulCodec StaticFields := ⟨decodeChoice_encodeChoice fun a => by cases a <;> rfl⟩
instance : LawfulCodec Preset := ⟨decodeChoice_encodeChoice fun a => by cases a <;> rfl⟩

instance : LawfulCodec Segment where
  decode_encode a := by
    change Segment.ofJson a.toJson = .ok a
    cases a with
    | field f => simp only [Segment.toJson, Segment.ofJson, Json.variant, carrying_encode]
    | element => rfl
    | wildcard => rfl

instance : LawfulCodec Root where
  decode_encode a := by
    change Root.ofJson a.toJson = .ok a
    cases a <;> simp only [Root.toJson, Root.ofJson, Json.variant, carrying_encode]

/-! ## Records -/

theorem decode_encode_words (kind : String) (o : Option UInt64) :
    Json.decodeOption (Json.decodeWord kind) (Json.encodeOption Json.encodeWord o) = .ok o :=
  decodeOption_encodeOption (decodeWord_encodeWord kind) nofun o

theorem decode_encode_texts (l : List String) : Json.decodeList decode (.array (l.map encode)) = .ok l :=
  decodeList_map decode_encode l

namespace SolverOptions

/-- The fields as they are if nothing is said about them. -/
def defaults : List (String × Json) := [
  ("analysis_timeout_ms", .null),
  ("static_field_strategy", .text "flow_sensitive"),
  ("allow_multiple_queries", .bool true),
  ("throw_flows", .bool true),
  ("track_any_subclass_of_throwable", .bool true),
  ("handle_special_invoke_as_normal_propagation", .bool true),
  ("on_the_fly_call_graph", .bool false)]

theorem independent_record : record.Independent where
  names := by decide
  commutes := by simp [record, Slot.commutes_field]

theorem writes (o : SolverOptions) : Writes record defaults o.toJson.fields o where
  names := rfl
  required := by simp [record, Slot.field]
  reads kept hkept := by
    have hnames : (o.toJson.fields.map (·.1)).Nodup := independent_record.names
    have hdefaults : (defaults.map (·.1)).Nodup := independent_record.names
    simp only [record, Json.slot_eq_field]
    refine fill_of_field (takes_of_default o.timeout none hkept hnames hdefaults (decode_encode_words "u64") rfl rfl)
      rfl ?_
    refine fill_of_field (takes_of_default o.staticFields .flowSensitive hkept hnames hdefaults decode_encode rfl rfl)
      rfl ?_
    refine fill_of_field (takes_of_default o.multipleQueries true hkept hnames hdefaults decode_encode rfl rfl) rfl ?_
    refine fill_of_field (takes_of_default o.throwFlows true hkept hnames hdefaults decode_encode rfl rfl) rfl ?_
    refine fill_of_field (takes_of_default o.throwableSubclasses true hkept hnames hdefaults decode_encode rfl rfl)
      rfl ?_
    refine fill_of_field (takes_of_default o.plainSpecialInvoke true hkept hnames hdefaults decode_encode rfl rfl)
      rfl ?_
    refine fill_of_field (takes_of_default o.ownCallGraph false hkept hnames hdefaults decode_encode rfl rfl) rfl ?_
    rfl

theorem readsFields : ReadsFields SolverOptions defaults := readsFields_of_writes independent_record rfl writes

end SolverOptions

instance : LawfulCodec SolverOptions := ⟨fun o => SolverOptions.readsFields.object o _ thinned_self⟩

namespace BuildLog

theorem independent_record : record.Independent where
  names := by decide
  commutes := by simp [record, Slot.commutes_field]

theorem writes (l : BuildLog) : Writes record [] l.toJson.fields l where
  names := rfl
  required := nofun
  reads kept hkept := by
    have hnames : (l.toJson.fields.map (·.1)).Nodup := independent_record.names
    simp only [record, Json.requiredSlot_eq_field]
    refine fill_of_field (takes_of_required l.micros 0 hkept hnames (decodeWord_encodeWord "u64") rfl rfl) rfl ?_
    refine fill_of_field (takes_of_required l.found false hkept hnames decode_encode rfl rfl) rfl ?_
    rfl

theorem readsFields : ReadsFields BuildLog [] := readsFields_of_writes independent_record rfl writes

end BuildLog

instance : LawfulCodec BuildLog := ⟨fun l => BuildLog.readsFields.object l _ thinned_self⟩

namespace Config

/-- The fields as they are if nothing is said about them. -/
def defaults : List (String × Json) := [
  ("strategy", .text "none"),
  ("disable_aliasing", .bool false),
  ("query_cache", .bool false),
  ("query_cache_capacity", .null),
  ("ignored_methods", .array [.text "int hashCode()", .text "boolean equals(java.lang.Object)"]),
  ("access_path_length", .integer 5)]

theorem independent_jsonRecord : jsonRecord.Independent where
  names := by decide
  commutes := by simp [jsonRecord, Slot.commutes_field]

theorem writes (c : Config) : Writes jsonRecord defaults c.toJson.fields c where
  names := rfl
  required := by simp [jsonRecord, defaults, Slot.field]
  reads kept hkept := by
    have hnames : (c.toJson.fields.map (·.1)).Nodup := independent_jsonRecord.names
    have hdefaults : (defaults.map (·.1)).Nodup := by decide
    simp only [jsonRecord, Json.slot_eq_field, Json.requiredSlot_eq_field]
    refine fill_of_field (takes_of_default c.strategy .none hkept hnames hdefaults decode_encode rfl rfl) rfl ?_
    refine fill_of_field (takes_of_required c.returnSites .fieldWriteOnly hkept hnames decode_encode rfl rfl) rfl ?_
    refine fill_of_field (takes_of_default c.disabled false hkept hnames hdefaults decode_encode rfl rfl) rfl ?_
    refine fill_of_field (takes_of_default c.caching false hkept hnames hdefaults decode_encode rfl rfl) rfl ?_
    refine fill_of_field (takes_of_default c.capacity none hkept hnames hdefaults (decode_encode_words "usize") rfl rfl)
      rfl ?_
    refine fill_of_field (takes_of_default c.ignored ["int hashCode()", "boolean equals(java.lang.Object)"] hkept hnames
      hdefaults decode_encode_texts rfl rfl) rfl ?_
    refine fill_of_field (takes_of_default c.pathLength 5 hkept hnames hdefaults (decodeWord_encodeWord "usize") rfl
      rfl) rfl ?_
    rfl

theorem readsFields : ReadsFields Config defaults := readsFields_of_writes independent_jsonRecord rfl writes

theorem missing_returnSites {names : List String} (h : "return_sites" ∉ names) :
    jsonRecord.missing? names = some "return_sites" := by
  simp [Decode.Record.missing?, jsonRecord, Slot.field, h]

end Config

instance : LawfulCodec Config := ⟨fun c => Config.readsFields.object c _ thinned_self⟩

/-! ## All types -/

/-- Every value is read back. A record with named fields is also read from its values alone,
    and from its fields in any order without any that have their default, but no
    configuration is read without the treatment of return sites. -/
theorem Json.round_trip :
    (∀ m : Method, decode (encode m) = .ok m) ∧
      (∀ s : Stmt, decode (encode s) = .ok s) ∧
      (∀ v : Variable, decode (encode v) = .ok v) ∧
      (∀ f : Field, decode (encode f) = .ok f) ∧
      (∀ s : Segment, decode (encode s) = .ok s) ∧
      (∀ r : Root, decode (encode r) = .ok r) ∧
      (∀ s : Sparsification, decode (encode s) = .ok s) ∧
      (∀ r : ReturnSites, decode (encode r) = .ok r) ∧
      (∀ p : Preset, decode (encode p) = .ok p) ∧
      (∀ s : StaticFields, decode (encode s) = .ok s) ∧
      (∀ o : SolverOptions, decode (encode o) = .ok o) ∧
      (∀ l : BuildLog, decode (encode l) = .ok l) ∧
      (∀ c : Config, decode (encode c) = .ok c) ∧
      ReadsFields SolverOptions SolverOptions.defaults ∧
      ReadsFields BuildLog [] ∧
      ReadsFields Config Config.defaults ∧
      ∀ (c : Config) (kept removed : List (String × Json)), (kept ++ removed).Perm (encode c).fields →
        "return_sites" ∈ removed.map (·.1) →
          (decode (.object kept) : Except Decode.Error Config) = .error (.missingField "return_sites") := by
  refine ⟨decode_encode, decode_encode, decode_encode, decode_encode, decode_encode, decode_encode, decode_encode,
    decode_encode, decode_encode, decode_encode, decode_encode, decode_encode, decode_encode,
    SolverOptions.readsFields, BuildLog.readsFields, Config.readsFields, fun c kept removed hperm hremoved => ?_⟩
  have hnames : ((encode c).fields.map (·.1)).Nodup := Config.independent_jsonRecord.names
  have hdistinct : ((kept ++ removed).map (·.1)).Nodup := (hperm.map (·.1)).nodup_iff.mpr hnames
  rw [List.map_append] at hdistinct
  have hgone : "return_sites" ∉ (kept.map (·.1)).reverse := fun h =>
    (List.nodup_append.mp hdistinct).2.2 _ (List.mem_reverse.mp h) _ hremoved rfl
  exact (Config.writes c).decode_incomplete Config.independent_jsonRecord hperm (Config.missing_returnSites hgone)

/-- A configuration that differs from the defaults in one field, and what is left of it without
    the field that has no default. -/
theorem Json.round_trip_one_field :
    decode (.object [("return_sites", .text "field_write_and_return"), ("query_cache", .bool true)]) =
        .ok ({ returnSites := .fieldWriteAndReturn, caching := true } : Config) ∧
      (decode (.object [("query_cache", .bool true)]) : Except Decode.Error Config) =
        .error (.missingField "return_sites") := by
  let c : Config := { returnSites := .fieldWriteAndReturn, caching := true }
  have hrest : Thinned c.toJson.fields Config.defaults
      [("return_sites", .text "field_write_and_return"), ("query_cache", .bool true)] := by
    refine ⟨Config.defaults.filter fun e => e.1 != "query_cache", ?_, fun e he => (List.mem_filter.mp he).1⟩
    exact List.filter_append_perm (fun e => ["return_sites", "query_cache"].contains e.1) c.toJson.fields
  obtain ⟨-, -, -, -, -, -, -, -, -, -, -, -, -, -, -, hfields, hmissing⟩ := Json.round_trip
  refine ⟨hfields.object c _ hrest, hmissing c _ _
    (List.filter_append_perm (fun e => e.1 == "query_cache") c.toJson.fields) ?_⟩
  decide

end TaintAlias
