/-
  TaintAlias.Yaml.Document — documents read from tokens.

  Reading stops at the first token that does not fit. Where a node is missing between
  marks that call for one, it is the empty scalar; in a flow sequence, an explicit key
  without text swallows the mark after it.
-/

import TaintAlias.Yaml.Node
import TaintAlias.Yaml.Token.Scan

namespace TaintAlias.Yaml

/-- Tokens still to be read, and the numbers of the anchored names. -/
structure Reading where
  tokens : List Token
  names : List (String × Nat) := []

namespace Reading

/-- The next token. -/
def head (r : Reading) : Token := r.tokens.headD .fault

def tail (r : Reading) : Reading := { r with tokens := r.tokens.tail }

/-- A name is anchored; also its number. -/
def bind (r : Reading) (name : String) : Nat × Reading :=
  let number := r.names.length
  (number, { r with names := (name, number) :: r.names.filter (·.1 != name) })

end Reading

/-- Something read, and what is left unless a fault stopped the reading. -/
abbrev Read (α : Type) := α × Option Reading

/-! ## Properties -/

/-- A tag, if its handle is known. -/
def tag? (handles : List (String × Tag)) (handle : String) (suffix : Tag) : Option Tag :=
  if handle.isEmpty then some suffix else (handles.lookup handle).map (·.append suffix)

/-- An anchor and a tag in either order. -/
def readProperties (handles : List (String × Tag)) (r : Reading) : Option (Properties × Reading) :=
  let tagAt (r : Reading) : Option (Option Tag × Reading) :=
    match r.head with
    | .tag handle suffix => (tag? handles handle suffix).map fun tag => (some tag, r.tail)
    | _ => some (none, r)
  match r.head with
  | .anchor name =>
    match tagAt r.tail with
    | none => none
    | some (tag, r) =>
      let (number, r) := r.bind name
      some (⟨some number, tag⟩, r)
  | _ =>
    match tagAt r with
    | none => none
    | some (tag, r) =>
      match tag, r.head with
      | some _, .anchor name =>
        let (number, r) := r.tail.bind name
        some (⟨some number, tag⟩, r)
      | _, _ => some (⟨none, tag⟩, r)

/-! ## Nodes -/

/-- Where a node stands. -/
inductive Place where
  /-- In a flow collection. -/
  | flow
  /-- In a block collection or at the root. -/
  | block
  /-- In an entry of a block mapping: a sequence there needs no indentation. -/
  | entry
  deriving DecidableEq, Repr

mutual

def readNode (handles : List (String × Tag)) : Nat → Place → Reading → Read Node
  | 0, _, _ => (.fault, none)
  | fuel + 1, place, r =>
    match r.head with
    | .alias name =>
      match r.names.lookup name with
      | some number => (.alias number, some r.tail)
      | none => (.fault, none)
    | _ =>
      match readProperties handles r with
      | none => (.fault, none)
      | some (p, r) =>
        match r.head with
        | .fault => (.fault, none)
        | .blockEntry =>
          if place = .entry then
            let (items, r) := readBareItems handles fuel r
            (.sequence p items, r)
          else if p = {} then (.fault, none)
          else (.scalar p "" .plain, some r)
        | .scalar text style => (.scalar p text style, some r.tail)
        | .flowSequence =>
          let (items, r) := readFlowItems handles fuel true r.tail
          (.sequence p items, r)
        | .flowMapping =>
          let (entries, r) := readFlowEntries handles fuel true r.tail
          (.mapping p entries, r)
        | .blockSequence =>
          if place ≠ .flow then
            let (items, r) := readItems handles fuel r.tail
            (.sequence p items, r)
          else if p = {} then (.fault, none)
          else (.scalar p "" .plain, some r)
        | .blockMapping =>
          if place ≠ .flow then
            let (entries, r) := readEntries handles fuel r.tail
            (.mapping p entries, r)
          else if p = {} then (.fault, none)
          else (.scalar p "" .plain, some r)
        | _ => if p = {} then (.fault, none) else (.scalar p "" .plain, some r)

/-- A node, or the empty one before a token that ends it. -/
def readNodeOr (handles : List (String × Tag)) : Nat → Place → List Token → Reading → Read Node
  | 0, _, _, _ => (.fault, none)
  | fuel + 1, place, ends, r =>
    if ends.contains r.head then (.empty, some r) else readNode handles fuel place r

/-- The items of an indented sequence. -/
def readItems (handles : List (String × Tag)) : Nat → Reading → Read (List Node)
  | 0, _ => ([.fault], none)
  | fuel + 1, r =>
    match r.head with
    | .blockEntry =>
      let (n, r) := readNodeOr handles fuel .block [.blockEntry, .blockEnd] r.tail
      match r with
      | none => ([n], none)
      | some r =>
        let (items, r) := readItems handles fuel r
        (n :: items, r)
    | .blockEnd => ([], some r.tail)
    | _ => ([.fault], none)

/-- The items of a sequence that is not indented; its end has no token. -/
def readBareItems (handles : List (String × Tag)) : Nat → Reading → Read (List Node)
  | 0, _ => ([.fault], none)
  | fuel + 1, r =>
    match r.head with
    | .blockEntry =>
      let (n, r) := readNodeOr handles fuel .block [.blockEntry, .key, .value, .blockEnd] r.tail
      match r with
      | none => ([n], none)
      | some r =>
        let (items, r) := readBareItems handles fuel r
        (n :: items, r)
    | .fault => ([.fault], none)
    | _ => ([], some r)

/-- The entries of a block mapping. -/
def readEntries (handles : List (String × Tag)) : Nat → Reading → Read (List (Node × Node))
  | 0, _ => ([(.fault, .fault)], none)
  | fuel + 1, r =>
    match r.head with
    | .key =>
      let (k, r) := readNodeOr handles fuel .entry [.key, .value, .blockEnd] r.tail
      match r with
      | none => ([(k, .fault)], none)
      | some r =>
        let (v, r) := readValue handles fuel .entry [.key, .value, .blockEnd] r
        match r with
        | none => ([(k, v)], none)
        | some r =>
          let (entries, r) := readEntries handles fuel r
          ((k, v) :: entries, r)
    | .blockEnd => ([], some r.tail)
    | _ => ([(.fault, .fault)], none)

/-- What follows a key: a mark and a node, or nothing. -/
def readValue (handles : List (String × Tag)) : Nat → Place → List Token → Reading → Read Node
  | 0, _, _, _ => (.fault, none)
  | fuel + 1, place, ends, r =>
    match r.head with
    | .value => readNodeOr handles fuel place ends r.tail
    | .fault => (.fault, none)
    | _ => (.empty, some r)

/-- The items of a flow sequence; a key mark makes an item a mapping of one entry. -/
def readFlowItems (handles : List (String × Tag)) : Nat → Bool → Reading → Read (List Node)
  | 0, _, _ => ([.fault], none)
  | fuel + 1, first, r =>
    match r.head, first with
    | .flowSequenceEnd, _ => ([], some r.tail)
    | .flowEntry, false => readFlowItem handles fuel r.tail
    | _, true => readFlowItem handles fuel r
    | _, false => ([.fault], none)

def readFlowItem (handles : List (String × Tag)) : Nat → Reading → Read (List Node)
  | 0, _ => ([.fault], none)
  | fuel + 1, r =>
    match r.head with
    | .flowSequenceEnd => ([], some r.tail)
    | .key =>
      let ends := [.value, .flowEntry, .flowSequenceEnd]
      let (k, r') := readNodeOr handles fuel .flow ends r.tail
      let r' := if ends.contains r.tail.head then some r.tail.tail else r'
      match r' with
      | none => ([.mapping {} [(k, .fault)]], none)
      | some r =>
        let (v, r) := readValue handles fuel .flow [.flowEntry, .flowSequenceEnd] r
        match r with
        | none => ([.mapping {} [(k, v)]], none)
        | some r =>
          let (items, r) := readFlowItems handles fuel false r
          (.mapping {} [(k, v)] :: items, r)
    | _ =>
      let (n, r) := readNode handles fuel .flow r
      match r with
      | none => ([n], none)
      | some r =>
        let (items, r) := readFlowItems handles fuel false r
        (n :: items, r)

/-- The entries of a flow mapping. -/
def readFlowEntries (handles : List (String × Tag)) : Nat → Bool → Reading → Read (List (Node × Node))
  | 0, _, _ => ([(.fault, .fault)], none)
  | fuel + 1, first, r =>
    match r.head, first with
    | .flowMappingEnd, _ => ([], some r.tail)
    | .flowEntry, false => readFlowEntry handles fuel r.tail
    | _, true => readFlowEntry handles fuel r
    | _, false => ([(.fault, .fault)], none)

def readFlowEntry (handles : List (String × Tag)) : Nat → Reading → Read (List (Node × Node))
  | 0, _ => ([(.fault, .fault)], none)
  | fuel + 1, r =>
    match r.head with
    | .flowMappingEnd => ([], some r.tail)
    | .key =>
      let (k, r) := readNodeOr handles fuel .flow [.value, .flowEntry, .flowMappingEnd] r.tail
      match r with
      | none => ([(k, .fault)], none)
      | some r =>
        let (v, r) := readValue handles fuel .flow [.flowEntry, .flowMappingEnd] r
        match r with
        | none => ([(k, v)], none)
        | some r =>
          let (entries, r) := readFlowEntries handles fuel false r
          ((k, v) :: entries, r)
    | _ =>
      let (k, r) := readNode handles fuel .flow r
      match r with
      | none => ([(k, .fault)], none)
      | some r =>
        if r.head = .fault then ([(k, .fault)], none)
        else
          let (entries, r) := readFlowEntries handles fuel false r
          ((k, .empty) :: entries, r)

end

/-! ## Documents -/

/-- The handles that are always known. -/
def commonHandles : List (String × Tag) := [("!", .ofText "!"), ("!!", .ofText "tag:yaml.org,2002:")]

/-- The directives before a document: at most one version, which is 1.1 or 1.2, and every
    handle once. -/
def readDirectives : Bool → List (String × Tag) → List Token →
    Option (List (String × Tag) × List Token)
  | versioned, handles, .version major minor :: rest =>
    if versioned || major != 1 || !(minor == 1 || minor == 2) then none
    else readDirectives true handles rest
  | versioned, handles, .handle name value :: rest =>
    if (handles.lookup name).isSome then none
    else readDirectives versioned ((name, value) :: handles) rest
  | _, handles, rest => some (handles, rest)

structure Document where
  root : Node
  /-- Nothing is wrong or left after the root. -/
  isWhole : Bool
  deriving Repr

/-- Past the marks for the end of a document. -/
def dropEnds : List Token → List Token
  | .documentEnd :: rest => dropEnds rest
  | rest => rest

def readRoot (handles : List (String × Tag)) (ts : List Token) : Document :=
  let (root, r) := readNode handles (4 * ts.length + 4) .block { tokens := ts }
  ⟨root, r.any fun r => dropEnds r.tokens == [.streamEnd]⟩

/-- The first document; without any, its root is the empty node. -/
def Document.ofTokens (ts : List Token) : Document :=
  match ts with
  | [.streamEnd] => ⟨.empty, true⟩
  | .version .. :: _ | .handle .. :: _ | .documentStart :: _ =>
    match readDirectives false [] ts with
    | some (handles, .documentStart :: rest) =>
      match rest with
      | .version .. :: _ | .handle .. :: _ | .documentStart :: _ | .documentEnd :: _ | .streamEnd :: _ =>
        ⟨.empty, dropEnds rest == [.streamEnd]⟩
      | _ => readRoot (handles ++ commonHandles) rest
    | _ => ⟨.fault, false⟩
  | _ => readRoot commonHandles ts

def Document.ofText (text : String) : Document := .ofTokens (tokens text.toList)

end TaintAlias.Yaml
