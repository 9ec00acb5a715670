/-
  TaintAlias.Yaml.Tag.Basic — tags, and what they mean for a value.

  A tag is a sequence of octets, none of them zero, which need not be the UTF-8 form of a
  text. Four common tags name kinds of scalars. A tag of one's own begins with an
  exclamation mark; if what follows is text, it can name a variant.
-/

namespace TaintAlias.Yaml

structure Tag where
  octets : List UInt8
  deriving DecidableEq, Repr

namespace Tag

def ofText (s : String) : Tag := ⟨s.toList.flatMap String.utf8EncodeChar⟩

/-- The tag as text, if it is one. -/
def text? (t : Tag) : Option String := String.fromUTF8? ⟨t.octets.toArray⟩

/-- A zero octet ends a tag. -/
def ofOctets (octets : List UInt8) : Tag := ⟨octets.takeWhile (· != 0)⟩

def append (s t : Tag) : Tag := ⟨s.octets ++ t.octets⟩

def bool : Tag := ofText "tag:yaml.org,2002:bool"
def int : Tag := ofText "tag:yaml.org,2002:int"
def float : Tag := ofText "tag:yaml.org,2002:float"
def null : Tag := ofText "tag:yaml.org,2002:null"

/-- The octet of the exclamation mark. -/
def mark : UInt8 := 33

def isOwn (t : Tag) : Bool := t.octets.head? == some mark

/-- The variant a tag of one's own names: what follows its mark, or the mark alone. -/
def variant? (t : Tag) : Option String :=
  if !t.isOwn then none
  else if t.octets.tail.isEmpty then t.text?
  else text? ⟨t.octets.tail⟩

example : (ofText "!none").variant? = some "none" ∧ (ofText "!").variant? = some "!" := by
  decide +kernel
example : Tag.bool.variant? = none ∧ variant? ⟨[33, 0xC1, 0x81]⟩ = none := by decide +kernel

end Tag

end TaintAlias.Yaml
