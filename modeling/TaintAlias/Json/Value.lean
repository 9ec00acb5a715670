/-
  TaintAlias.Json.Value — JSON values and their compact text.

  A number is an integer of at most 64 bits, signed or not, or else a double. Fields of
  an object keep their order. Compact text has no blanks; in strings the quote, the
  backslash and the controls below the space are escaped.
-/

import TaintAlias.Decode.Error

namespace TaintAlias

inductive Json where
  | null
  | bool (b : Bool)
  | integer (n : Int)
  | float (x : Binary64)
  | text (s : String)
  | array (items : List Json)
  | object (fields : List (String × Json))
  deriving Repr

namespace Json

/-- How JSON errors name the null value and write numbers. -/
def dialect : Decode.Dialect := ⟨"null", Binary64.scientificText⟩

def escapeChar (c : Char) : String :=
  match c with
  | '"' => "\\\""
  | '\\' => "\\\\"
  | '\n' => "\\n"
  | '\r' => "\\r"
  | '\t' => "\\t"
  | '\x08' => "\\b"
  | '\x0c' => "\\f"
  | c =>
    if c.toNat < 0x20 then
      let ds := Nat.toDigits 16 c.toNat
      "\\u" ++ String.ofList (List.replicate (4 - ds.length) '0' ++ ds)
    else c.toString

def textLiteral (s : String) : String := "\"" ++ String.join (s.toList.map escapeChar) ++ "\""

mutual

def compact : Json → String
  | .null => "null"
  | .bool b => if b then "true" else "false"
  | .integer n => toString n
  | .float x => x.scientificText
  | .text s => textLiteral s
  | .array items => "[" ++ String.intercalate "," (compactItems items) ++ "]"
  | .object fields => "\x7b" ++ String.intercalate "," (compactFields fields) ++ "\x7d"

def compactItems : List Json → List String
  | [] => []
  | j :: rest => j.compact :: compactItems rest

def compactFields : List (String × Json) → List String
  | [] => []
  | (k, v) :: rest => (textLiteral k ++ ":" ++ v.compact) :: compactFields rest

end

end Json

end TaintAlias
