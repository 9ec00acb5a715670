/-
  TaintAlias.Config.Preset — named starting points for a configuration.

  Names are read without regard to case. Of all letters only those of ASCII have a
  lowercase form that occurs in a preset's name, so lowering ASCII is enough.
-/

import TaintAlias.Config.Basic

namespace TaintAlias

inductive Preset where
  /-- Full graphs, field writes only, nothing ignored. -/
  | baseline
  /-- Sparse graphs, return sites too, the default methods ignored. -/
  | aliasAware
  deriving DecidableEq, Repr

namespace Preset

def name : Preset → String
  | baseline => "baseline"
  | aliasAware => "alias_aware"

instance : Choice Preset := ⟨[baseline, aliasAware], name⟩

def ofText (s : String) : Except ConfigError Preset :=
  let t := String.ofList (s.toList.map Char.toLower)
  if t = "baseline" then .ok baseline
  else if t = "alias_aware" ∨ t = "alias-aware" then .ok aliasAware
  else .error (.unknownPreset s)

def config : Preset → Config
  | baseline => { returnSites := .fieldWriteOnly, ignored := [] }
  | aliasAware => { strategy := .aliasAware, returnSites := .fieldWriteAndReturn }

theorem validate_config (p : Preset) : p.config.validate = .ok () := by
  cases p <;> rfl

end Preset

end TaintAlias
