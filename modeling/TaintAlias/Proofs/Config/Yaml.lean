/-
  TaintAlias.Proofs.Config.Yaml — a written configuration is read back.

  The lines of a written configuration give the tokens of its entries, whatever texts it
  ignores methods by (`tokens_toYaml`), and these tokens are read as one mapping from the
  names of all seven fields to their values (`ofText_toYaml`). Every value is read as what
  was written (`read_yamlEntries`), so reading ends with the configuration itself, or with what
  is wrong with it (`ofYaml_toYaml`).
-/

import TaintAlias.Config.Yaml
import TaintAlias.Proofs.Decode.Record
import TaintAlias.Proofs.Yaml.Document
import TaintAlias.Proofs.Yaml.Lines

namespace TaintAlias

/-! ## Values -/

namespace Yaml.Spot

theorem itemsFrom_text (root : Node) (expected : String) (style : String → Style) (way : List Crumb) (i : Nat)
    (texts : List String) :
    itemsFrom root (fun s => s.text expected) way i (texts.map fun text => .scalar {} text (style text)) =
      .ok texts := by
  induction texts generalizing i with
  | nil => rfl
  | cons text texts ih =>
    simp only [List.map_cons, itemsFrom, ih]
    rfl

end Yaml.Spot

namespace Config

open Yaml (Token Node Spot Style)

/-! ## Lines -/

def entryTokens (key value : String) : List Token := [.key, .scalar key .plain, .value, .scalar value .plain]

def ignoredKey : String := "ignored_methods"

def ignoredTokens : List String → List Token
  | [] => [.key, .scalar ignoredKey .plain, .value, .flowSequence, .flowSequenceEnd]
  | items =>
    [.key, .scalar ignoredKey .plain, .value] ++
      items.flatMap fun s => [.blockEntry, .scalar s (Yaml.styleOf s)]

def capacityText : Option UInt64 → String
  | none => "null"
  | some n => toString n.toNat

def yamlTokens (c : Config) : List Token :=
  entryTokens "strategy" c.strategy.name ++
    (entryTokens "return_sites" c.returnSites.name ++
      (entryTokens "disable_aliasing" (boolText c.disabled) ++
        (entryTokens "query_cache" (boolText c.caching) ++
          (entryTokens "query_cache_capacity" (capacityText c.capacity) ++
            (ignoredTokens c.ignored ++
              (entryTokens "access_path_length" (toString c.pathLength.toNat) ++ [.blockEnd, .streamEnd]))))))

/-- A value that is a name or a number. -/
def IsWord (value : String) : Prop := Yaml.allowsPlain value.toList = true ∧ value.toList ≠ []

instance (value : String) : Decidable (IsWord value) := inferInstanceAs (Decidable (_ ∧ _))

theorem isWord_strategy (a : Sparsification) : IsWord a.name := by
  cases a <;> decide +kernel

theorem isWord_returnSites (a : ReturnSites) : IsWord a.name := by
  cases a <;> decide +kernel

theorem isWord_bool (b : Bool) : IsWord (boolText b) := by
  cases b <;> decide +kernel

theorem isWord_toDigits (n : Nat) : IsWord (toString n) := by
  rw [IsWord, Nat.toString_eq_repr, Nat.toList_repr]
  exact ⟨Yaml.allowsPlain_of_digits fun _ ha => Yaml.digit?_of_mem_toDigits ha, Nat.toDigits_ne_nil⟩

theorem isWord_capacity (n : Option UInt64) : IsWord (capacityText n) := by
  cases n with
  | none => decide +kernel
  | some n => exact isWord_toDigits n.toNat

/-- What a text gives from the start of one of its lines on, and that it may stand there. -/
structure GivesLines (opened : Bool) (next : List Char) (ts : List Token) : Prop where
  content : Yaml.BeginsContent next
  printable : ∀ a ∈ next, Yaml.isPrintable a = true
  gives : Yaml.Gives opened next ts

variable {next : List Char} {ts : List Token}

/-- A key and its value on one line. -/
theorem gives_line {opened : Bool} {key value : String} (hkey : Yaml.Scanner.IsKey key.toList) (hvalue : IsWord value)
    (h : GivesLines true next ts) :
    GivesLines opened (writeLine key value ++ next)
      (Yaml.Scanner.opening opened ++ (entryTokens key value ++ ts)) := by
  have hline : writeLine key value ++ next = key.toList ++ ':' :: ' ' :: (value.toList ++ '\n' :: next) := by
    simp [writeLine]
  have hgives : Yaml.Gives opened _ _ := Yaml.gives_entry hkey hvalue.1 hvalue.2 h.content h.gives
  rw [String.ofList_toList, String.ofList_toList, List.append_assoc] at hgives
  rw [hline]
  refine ⟨Yaml.beginsContent_of_allowsPlain hkey.plain hkey.ne_nil _, fun a ha => ?_, hgives⟩
  simp only [List.mem_append, List.mem_cons] at ha
  rcases ha with ha | rfl | rfl | ha | rfl | ha
  · exact (Yaml.isPlainText_of_allowsPlain hkey.plain).1.printable a ha
  · decide
  · decide
  · exact (Yaml.isPlainText_of_allowsPlain hvalue.1).1.printable a ha
  · decide
  · exact h.printable a ha

/-- A line behind the first. -/
theorem gives_nextLine {key value : String} (hkey : Yaml.Scanner.IsKey key.toList) (hvalue : IsWord value)
    (h : GivesLines true next ts) : GivesLines true (writeLine key value ++ next) (entryTokens key value ++ ts) :=
  gives_line hkey hvalue h

theorem writeIgnored_nil : writeIgnored [] = ignoredKey.toList ++ [':', ' ', '[', ']', '\n'] := by
  decide +kernel

theorem writeIgnored_cons (item : String) (items : List String) :
    writeIgnored (item :: items) = ignoredKey.toList ++ ':' :: '\n' ::
      (item :: items).flatMap fun text => '-' :: ' ' :: Yaml.writeScalar text := by
  have hmark : "ignored_methods:\n".toList = ignoredKey.toList ++ [':', '\n'] := by decide +kernel
  have hcons : writeIgnored (item :: items) =
      "ignored_methods:\n".toList ++ (item :: items).flatMap fun text => '-' :: ' ' :: Yaml.writeScalar text := rfl
  rw [hcons, hmark, List.append_assoc]
  rfl

theorem isPrintable_of_mem_writeIgnored {items : List String} {a : Char} (h : a ∈ writeIgnored items) :
    Yaml.isPrintable a = true := by
  cases items with
  | nil => exact List.all_eq_true.mp (by decide +kernel) a h
  | cons item items =>
    have hkey : ignoredKey.toList.all Yaml.isPrintable = true := by decide +kernel
    rw [writeIgnored_cons] at h
    simp only [List.mem_append, List.mem_cons, List.mem_flatMap] at h
    rcases h with h | rfl | rfl | ⟨text, -, rfl | rfl | h⟩
    · exact List.all_eq_true.mp hkey a h
    · decide
    · decide
    · decide
    · decide
    · exact Yaml.isPrintable_of_mem_writeScalar h

theorem gives_ignored (items : List String) (h : GivesLines true next ts) :
    GivesLines true (writeIgnored items ++ next) (ignoredTokens items ++ ts) := by
  have hkey : Yaml.Scanner.IsKey ignoredKey.toList := by decide +kernel
  have hbegins := Yaml.beginsContent_of_allowsPlain hkey.plain hkey.ne_nil
  have hprint : ∀ a ∈ writeIgnored items ++ next, Yaml.isPrintable a = true := fun a ha =>
    (List.mem_append.mp ha).elim isPrintable_of_mem_writeIgnored (h.printable a)
  have hgives : ∀ {stop : List Char} {ts : List Token}, Yaml.endsWord stop = true → Yaml.GivesValue stop ts →
      Yaml.Gives true (ignoredKey.toList ++ ':' :: stop) ([.key, .scalar ignoredKey .plain, .value] ++ ts) := by
    intro stop ts hstop h
    have hgives : Yaml.Gives true _ _ := Yaml.gives_key hkey hstop h
    rwa [String.ofList_toList] at hgives
  cases items with
  | nil =>
    rw [writeIgnored_nil, List.append_assoc] at hprint ⊢
    exact ⟨hbegins _, hprint, hgives rfl (Yaml.givesValue_none h.content h.gives)⟩
  | cons item items =>
    obtain ⟨hcontent, hitems⟩ := Yaml.gives_items (item :: items) h.content h.gives
    rw [writeIgnored_cons, List.append_assoc] at hprint ⊢
    exact ⟨hbegins _, hprint, hgives rfl (Yaml.givesValue_below hcontent hitems)⟩

theorem gives_toYaml (c : Config) : GivesLines false c.toYaml.toList (.blockMapping :: yamlTokens c) := by
  have hend : GivesLines true [] [.blockEnd, .streamEnd] :=
    ⟨fun a ha => (by cases ha), fun a ha => (by cases ha), Yaml.gives_end⟩
  have htext : c.toYaml.toList = writeLine "strategy" c.strategy.name ++
      (writeLine "return_sites" c.returnSites.name ++
        (writeLine "disable_aliasing" (boolText c.disabled) ++
          (writeLine "query_cache" (boolText c.caching) ++
            (writeLine "query_cache_capacity" (capacityText c.capacity) ++
              (writeIgnored c.ignored ++
                (writeLine "access_path_length" (toString c.pathLength.toNat) ++ [])))))) := by
    simp only [toYaml, String.toList_ofList, List.append_assoc, List.append_nil]
    rfl
  rw [htext]
  refine gives_line (by decide +kernel) (isWord_strategy c.strategy) ?_
  refine gives_nextLine (by decide +kernel) (isWord_returnSites c.returnSites) ?_
  refine gives_nextLine (by decide +kernel) (isWord_bool c.disabled) ?_
  refine gives_nextLine (by decide +kernel) (isWord_bool c.caching) ?_
  refine gives_nextLine (by decide +kernel) (isWord_capacity c.capacity) ?_
  refine gives_ignored c.ignored ?_
  exact gives_nextLine (by decide +kernel) (isWord_toDigits c.pathLength.toNat) hend

theorem tokens_toYaml (c : Config) : Yaml.tokens c.toYaml.toList = .blockMapping :: yamlTokens c := by
  have h := gives_toYaml c
  exact Yaml.tokens_of_gives (fun a ha => Yaml.isAllowed_of_isPrintable (h.printable a ha)) h.content h.gives

/-! ## Entries -/

def plainNode (text : String) : Node := .scalar {} text .plain

/-- The node of the ignored fragments. -/
def ignoredNode (items : List String) : Node :=
  .sequence {} (items.map fun text => .scalar {} text (Yaml.styleOf text))

def yamlEntries (c : Config) : List (Node × Node) := [
  (plainNode "strategy", plainNode c.strategy.name),
  (plainNode "return_sites", plainNode c.returnSites.name),
  (plainNode "disable_aliasing", plainNode (boolText c.disabled)),
  (plainNode "query_cache", plainNode (boolText c.caching)),
  (plainNode "query_cache_capacity", plainNode (capacityText c.capacity)),
  (plainNode ignoredKey, ignoredNode c.ignored),
  (plainNode "access_path_length", plainNode (toString c.pathLength.toNat))]

theorem lists_line {key value : String} {entries : List (Node × Node)} (h : Yaml.Lists ts entries) :
    Yaml.Lists (entryTokens key value ++ ts) ((plainNode key, plainNode value) :: entries) :=
  Yaml.lists_scalar h

theorem lists_ignored (items : List String) {entries : List (Node × Node)} (h : Yaml.Lists (.key :: ts) entries) :
    Yaml.Lists (ignoredTokens items ++ .key :: ts) ((plainNode ignoredKey, ignoredNode items) :: entries) := by
  cases items with
  | nil => exact Yaml.lists_none h
  | cons item items => exact Yaml.lists_items Yaml.styleOf item items h

theorem lists_yamlTokens (c : Config) : Yaml.Lists (yamlTokens c) (yamlEntries c) := by
  refine lists_line ?_
  refine lists_line ?_
  refine lists_line ?_
  refine lists_line ?_
  refine lists_line ?_
  refine lists_ignored c.ignored ?_
  exact lists_line Yaml.lists_end

/-- The whole text is one mapping. -/
theorem ofText_toYaml (c : Config) : Yaml.Document.ofText c.toYaml = ⟨.mapping {} (yamlEntries c), true⟩ := by
  rw [Yaml.Document.ofText, tokens_toYaml]
  exact Yaml.ofTokens_of_lists (lists_yamlTokens c)

/-! ## Fields -/

/-- The spot of the value of a field. -/
def plainSpot (key value : String) : Spot := ⟨[.key key], plainNode value, false⟩

theorem choice_strategy (key : String) (a : Sparsification) : (plainSpot key a.name).choice = .ok a := by
  cases a <;> rfl

theorem choice_returnSites (key : String) (a : ReturnSites) : (plainSpot key a.name).choice = .ok a := by
  cases a <;> rfl

theorem bool_boolText (key : String) (b : Bool) : (plainSpot key (boolText b)).bool = .ok b := by
  cases b <;> rfl

theorem word_toString (key kind : String) (n : UInt64) : (plainSpot key (toString n.toNat)).word kind = .ok n := by
  have hlt : n.toNat < UInt64.size := n.toNat_lt_size
  simp [Spot.word, plainSpot, plainNode, Spot.bareText?, Yaml.natural?_toDigits, hlt]

theorem option_plainSpot {α : Type} (read : Spot → Except Yaml.Error α) (key : String) {text : String}
    (hempty : text ≠ "") (hnull : Yaml.isNull text = false) :
    (plainSpot key text).option read = (read (plainSpot key text)).map some := by
  simp [Spot.option, plainSpot, plainNode, hempty, hnull]

/-- No number looks like the absence of one. -/
theorem option_capacityText (key kind : String) (n : Option UInt64) :
    (plainSpot key (capacityText n)).option (Spot.word kind) = .ok n := by
  cases n with
  | none => rfl
  | some n =>
    have hdigits : ∀ a ∈ (toString n.toNat).toList, (digit? a).isSome = true := fun a ha => by
      rw [Nat.toString_eq_repr, Nat.toList_repr] at ha
      exact Yaml.digit?_of_mem_toDigits ha
    have hempty : toString n.toNat ≠ "" := fun h => (isWord_toDigits n.toNat).2 (by rw [h]; rfl)
    rw [capacityText, option_plainSpot _ _ hempty (Yaml.isNull_of_digits hdigits), word_toString]
    rfl

theorem list_ignoredNode (root : Node) (key : String) (items : List String) :
    Spot.list root (fun s => s.text "a string") ⟨[.key key], ignoredNode items, false⟩ = .ok items :=
  Spot.itemsFrom_text root "a string" Yaml.styleOf [.key key] 0 items

/-- Every field is read as it was written. -/
theorem read_yamlEntries (root : Node) (c : Config) :
    (yamlRecord root).read (Yaml.fields root (yamlEntries c)) = .ok c := by
  have hfields : Yaml.fields root (yamlEntries c) = [
      (.ok "strategy", plainSpot "strategy" c.strategy.name),
      (.ok "return_sites", plainSpot "return_sites" c.returnSites.name),
      (.ok "disable_aliasing", plainSpot "disable_aliasing" (boolText c.disabled)),
      (.ok "query_cache", plainSpot "query_cache" (boolText c.caching)),
      (.ok "query_cache_capacity", plainSpot "query_cache_capacity" (capacityText c.capacity)),
      (.ok "ignored_methods", ⟨[.key "ignored_methods"], ignoredNode c.ignored, false⟩),
      (.ok "access_path_length", plainSpot "access_path_length" (toString c.pathLength.toNat))] := rfl
  rw [hfields, Decode.Record.read]
  rw [Decode.Record.readFrom_cons rfl rfl (congrArg (Except.map _) (choice_strategy _ _)),
    Decode.Record.readFrom_cons rfl rfl (congrArg (Except.map _) (choice_returnSites _ _)),
    Decode.Record.readFrom_cons rfl rfl (congrArg (Except.map _) (bool_boolText _ _)),
    Decode.Record.readFrom_cons rfl rfl (congrArg (Except.map _) (bool_boolText _ _)),
    Decode.Record.readFrom_cons rfl rfl (congrArg (Except.map _) (option_capacityText _ _ _)),
    Decode.Record.readFrom_cons rfl rfl (congrArg (Except.map _) (list_ignoredNode _ _ _)),
    Decode.Record.readFrom_cons rfl rfl (congrArg (Except.map _) (word_toString _ _ _))]
  rfl

/-- A configuration that is written and read again is the same, if it is valid; otherwise
    reading says what is wrong with it. -/
theorem ofYaml_toYaml (c : Config) : ofYaml c.toYaml = c.validate.map fun _ => c := by
  have hread : ofDocument (.ofText c.toYaml) = .ok c := by
    rw [ofText_toYaml]
    simp only [ofDocument, ofNode, read_yamlEntries, if_true]
  simp only [ofYaml, hread]

end Config

end TaintAlias
