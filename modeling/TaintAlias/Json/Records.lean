/-
  TaintAlias.Json.Records — the configuration, solver options and build logs in JSON.

  A configuration refuses fields it does not know, the others skip them. Every field of
  solver options has a default, no field of a build log has one.
-/

import TaintAlias.Json.Paths
import TaintAlias.Report

namespace TaintAlias

open Json (Codec encode decode)

/-! ## Solver options -/

def SolverOptions.toJson (o : SolverOptions) : Json :=
  .object [
    ("analysis_timeout_ms", Json.encodeOption Json.encodeWord o.timeout),
    ("static_field_strategy", encode o.staticFields),
    ("allow_multiple_queries", encode o.multipleQueries),
    ("throw_flows", encode o.throwFlows),
    ("track_any_subclass_of_throwable", encode o.throwableSubclasses),
    ("handle_special_invoke_as_normal_propagation", encode o.plainSpecialInvoke),
    ("on_the_fly_call_graph", encode o.ownCallGraph)]

def SolverOptions.record : Json.Record SolverOptions where
  name := "SolverOptions"
  slots := [
    Json.slot "analysis_timeout_ms" (Json.decodeOption (Json.decodeWord "u64"))
      fun a o => { o with timeout := a },
    Json.slot "static_field_strategy" decode fun a o => { o with staticFields := a },
    Json.slot "allow_multiple_queries" decode fun a o => { o with multipleQueries := a },
    Json.slot "throw_flows" decode fun a o => { o with throwFlows := a },
    Json.slot "track_any_subclass_of_throwable" decode fun a o => { o with throwableSubclasses := a },
    Json.slot "handle_special_invoke_as_normal_propagation" decode
      fun a o => { o with plainSpecialInvoke := a },
    Json.slot "on_the_fly_call_graph" decode fun a o => { o with ownCallGraph := a }]
  initial := {}
  fail := id

instance : Codec SolverOptions := ⟨SolverOptions.toJson, Json.decodeRecord SolverOptions.record⟩

/-! ## Build logs -/

def BuildLog.toJson (l : BuildLog) : Json :=
  .object [("duration_micros", Json.encodeWord l.micros), ("retrieved_from_cache", encode l.found)]

def BuildLog.record : Json.Record BuildLog where
  name := "SparseCfgQueryLog"
  slots := [
    Json.requiredSlot "duration_micros" (Json.decodeWord "u64") fun a l => { l with micros := a },
    Json.requiredSlot "retrieved_from_cache" decode fun a l => { l with found := a }]
  initial := ⟨0, false⟩
  fail := id

instance : Codec BuildLog := ⟨BuildLog.toJson, Json.decodeRecord BuildLog.record⟩

/-! ## Configurations -/

def Config.toJson (c : Config) : Json :=
  .object [
    ("strategy", encode c.strategy),
    ("return_sites", encode c.returnSites),
    ("disable_aliasing", encode c.disabled),
    ("query_cache", encode c.caching),
    ("query_cache_capacity", Json.encodeOption Json.encodeWord c.capacity),
    ("ignored_methods", .array (c.ignored.map encode)),
    ("access_path_length", Json.encodeWord c.pathLength)]

def Config.jsonRecord : Json.Record Config where
  name := "AliasConfig"
  slots := [
    Json.slot "strategy" decode fun a c => { c with strategy := a },
    Json.requiredSlot "return_sites" decode fun a c => { c with returnSites := a },
    Json.slot "disable_aliasing" decode fun a c => { c with disabled := a },
    Json.slot "query_cache" decode fun a c => { c with caching := a },
    Json.slot "query_cache_capacity" (Json.decodeOption (Json.decodeWord "usize"))
      fun a c => { c with capacity := a },
    Json.slot "ignored_methods" (Json.decodeList decode) fun a c => { c with ignored := a },
    Json.slot "access_path_length" (Json.decodeWord "usize") fun a c => { c with pathLength := a }]
  strict := true
  initial := { returnSites := .fieldWriteOnly }
  fail := id

instance : Codec Config := ⟨Config.toJson, Json.decodeRecord Config.jsonRecord⟩

end TaintAlias
