/-
  TaintAlias.Yaml.Token — the tokens of a YAML text.

  Indentation shows as tokens too: the start of a block collection where its first line
  is indented further than the lines around it, its end where a line is indented less.
  `fault` stands where no further token can be read; nothing follows it.
-/

import TaintAlias.Yaml.Scalar.Kind
import TaintAlias.Yaml.Tag.Basic

namespace TaintAlias.Yaml

inductive Token where
  | version (major minor : Nat)
  /-- What a tag handle is short for. -/
  | handle (name : String) (value : Tag)
  | documentStart
  | documentEnd
  | blockSequence
  | blockMapping
  | blockEnd
  | flowSequence
  | flowSequenceEnd
  | flowMapping
  | flowMappingEnd
  | blockEntry
  | flowEntry
  | key
  | value
  | alias (name : String)
  | anchor (name : String)
  | tag (handle : String) (suffix : Tag)
  | scalar (text : String) (style : Style)
  | streamEnd
  | fault
  deriving DecidableEq, Repr

end TaintAlias.Yaml
