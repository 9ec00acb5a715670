/-
  TaintAlias.Yaml.Node — the tree a YAML document describes.

  An anchor is known by a number from where it stands, and an alias by the number its name
  has at that point: the count of names seen before the anchor. A name that is anchored
  again is given a new number without adding to the count, so the next new name shares
  it. `target` finds what a number stands for, the last node to carry it.

  A tree may be cut off by a `fault`, where the tokens stop making sense.
-/

import TaintAlias.Yaml.Token

namespace TaintAlias.Yaml

/-- What may stand before a node. -/
structure Properties where
  anchor : Option Nat := none
  tag : Option Tag := none
  deriving DecidableEq, Repr

inductive Node where
  | scalar (props : Properties) (text : String) (style : Style)
  | alias (number : Nat)
  | sequence (props : Properties) (items : List Node)
  | mapping (props : Properties) (entries : List (Node × Node))
  | fault
  deriving Repr

namespace Node

/-- The node where nothing is written. -/
def empty : Node := .scalar {} "" .plain

mutual

/-- The node and those below it that carry an anchor, in order. -/
def anchored : Node → List (Nat × Node)
  | .sequence p items =>
    (p.anchor.map fun n => (n, Node.sequence p items)).toList ++ anchoredItems items
  | .mapping p entries =>
    (p.anchor.map fun n => (n, Node.mapping p entries)).toList ++ anchoredEntries entries
  | .scalar p text style => (p.anchor.map fun n => (n, Node.scalar p text style)).toList
  | _ => []

def anchoredItems : List Node → List (Nat × Node)
  | [] => []
  | n :: rest => anchored n ++ anchoredItems rest

def anchoredEntries : List (Node × Node) → List (Nat × Node)
  | [] => []
  | (k, v) :: rest => anchored k ++ anchored v ++ anchoredEntries rest

end

/-- What a number stands for below a root. -/
def target (root : Node) (number : Nat) : Node := (root.anchored.reverse.lookup number).getD .fault

end Node

end TaintAlias.Yaml
