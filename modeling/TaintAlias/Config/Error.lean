/-
  TaintAlias.Config.Error — why there is no configuration.
-/

import TaintAlias.Yaml.Error

namespace TaintAlias

inductive ConfigError where
  /-- A number outside its range, with a hint what to do. -/
  | range (field value min max hint : String)
  | unknownPreset (name : String)
  /-- The file cannot be read as text. -/
  | unreadable
  | yaml (e : Yaml.Error)
  /-- Fields that contradict each other. -/
  | invalid (text : String)
  deriving DecidableEq, Repr

def ConfigError.message : ConfigError → String
  | .range field value min max hint =>
    "Invalid range for field '" ++ field ++ "': " ++ value ++ " not in " ++ min ++ "..=" ++ max ++
    ". " ++ hint
  | .unknownPreset name =>
    "Unknown preset '" ++ name ++ "'. Valid presets: baseline, alias_aware"
  | .unreadable => "IO error: the file cannot be read as text"
  | .yaml e => "YAML parsing error: " ++ e.message
  | .invalid text => "Validation error: " ++ text

end TaintAlias
