/-
  TaintAlias.Choice — closed choices with written names.

  The members of a choice are listed once, with the name each is written by; reading a
  name is looking it up in that list.
-/

namespace TaintAlias

class Choice (α : Type) where
  members : List α
  name : α → String

namespace Choice

variable {α : Type} [Choice α]

def names (α : Type) [Choice α] : List String := (members (α := α)).map name

def ofName? (s : String) : Option α := members.find? fun a => name a == s

end Choice

end TaintAlias
