import Polish.StandIn.Yaml.Key
import Polish.StandIn.Yaml.Node

/-!
# A reader of documents

This and the modules beside it are a reader that can be handed to `Config.Settings.load`.  It stands
in for a library, and nothing about engines depends on it.

`Document.read` gives the value of a text.  The text is either in flow style, with brackets, braces
and commas, or in block style, where maps and lists are nested by indentation:

    constants:
      g: 9.81
    disabledFunctions:
      - sin

A key that comes twice takes its last value.  No key is a list or a map.

If several scalars have no value then the trouble of the one that is nested least deeply counts,
and of those the first: `Built` keeps the level together with the trouble.
-/

set_option autoImplicit false

namespace Polish.Yaml

open Config (Value)

/-- A value, or the trouble with the level at which it is. -/
abbrev Built (α : Type) := Except (Nat × Trouble) α

namespace Built

variable {α β γ : Type}

/-- Two parts side by side: the trouble at the lower level counts, the first one of the same. -/
def both (f : α → β → γ) : Built α → Built β → Built γ
  | .ok a, .ok b => .ok (f a b)
  | .ok _, .error e => .error e
  | .error e, .ok _ => .error e
  | .error e, .error e' => if e'.1 < e.1 then .error e' else .error e

def ofExcept (level : Nat) (r : Except Trouble α) : Built α := r.mapError fun t => (level, t)

end Built

namespace Node

open Built

/-- Whether a value may be a key. -/
def isKey : Value → Bool
  | .list _ | .map _ => false
  | _ => true

/-- The pairs of a list of maps with one entry each. -/
def pairs? : List Value → Option (List Value)
  | [] => some []
  | .map [(key, value)] :: rest => (pairs? rest).map (.list [key, value] :: ·)
  | _ => none

/-- The trouble with a part that is not what its tag says.  Whether a list or a map is one shows
only where its members are read. -/
def misfit (level : Nat) (tag : Tag) : Nat × Trouble :=
  (if tag ∈ [.list, .map, .set, .pairs] then level + 1 else level, .malformed)

/-- The value of a list by its tag. -/
def listValue (level : Nat) (tag : Tag) (items : List Value) : Built Value :=
  if tag = .list then .ok (.list items)
  else match pairs? items with
    | some items => .ok (.list items)
    | none => .error (misfit level tag)

/-- The value of a map by its tag. -/
def mapValue (tag : Tag) (entries : List (Value × Value)) : Value :=
  if tag = .map then .map (Value.entriesOf entries)
  else .list ((Value.entriesOf entries).map Prod.fst)

/-- The value of a text by its tag. -/
def scalarValue (level : Nat) (tag : Tag) (text : String) : Built Value :=
  if tag ∈ [.list, .map, .set, .pairs] then .error (misfit level tag)
  else ofExcept level (Scalar.value tag text)

mutual

/-- The value of a part at some level, given what links stand for. -/
def build (follow : String → Value) (level : Nat) : Node → Built Value
  | .scalar tag text => scalarValue level tag text
  | .list tag items =>
    if tag = .list ∨ tag = .pairs then
      (buildAll follow (level + 1) items).bind (listValue level tag)
    else .error (misfit level tag)
  | .map tag entries =>
    if tag = .map ∨ tag = .set then (buildEntries follow (level + 1) entries).map (mapValue tag)
    else .error (misfit level tag)
  | .named _ node => build follow level node
  | .link name => .ok (follow name)

def buildAll (follow : String → Value) (level : Nat) : List Node → Built (List Value)
  | [] => .ok []
  | node :: rest => both List.cons (build follow level node) (buildAll follow level rest)

def buildEntry (follow : String → Value) (level : Nat) : Node × Node → Built (Value × Value)
  | (key, value) =>
    let key := match build follow level key with
      | .ok k => if isKey k then .ok k else .error (level, .malformed)
      | .error e => .error e
    both Prod.mk key (build follow level value)

def buildEntries (follow : String → Value) (level : Nat) :
    List (Node × Node) → Built (List (Value × Value))
  | [] => .ok []
  | entry :: rest =>
    both List.cons (buildEntry follow level entry) (buildEntries follow level rest)

end

/-- What a name stands for when at most `links` links are followed on the way to any scalar. -/
def followed (parts : List (String × Node)) : Nat → String → Value
  | 0, _ => .null
  | links + 1, name => match parts.lookup name with
    | some node => ((node.build (followed parts links) 0).toOption).getD .null
    | none => .null

/-- The value of a tree.  A list or a map may contain itself, so links are followed only as far as
settings are nested. -/
def value (parts : List (String × Node)) (node : Node) : Except Trouble Value :=
  (node.build (followed parts 5) 0).mapError Prod.snd

end Node

namespace Document

/-- A text with a line feed at the end of each line. -/
def unifyLines : List Char → List Char
  | '\r' :: '\n' :: rest => '\n' :: unifyLines rest
  | '\r' :: rest => '\n' :: unifyLines rest
  | c :: rest => c :: unifyLines rest
  | [] => []

/-- The value of a document; one with nothing in it is null. -/
def read (content : String) : Except Trouble Value := do
  let (root, parts) ← Node.ofMarks (Mark.scan (unifyLines content.toList))
  match root with
  | some node => node.value parts
  | none => return .null

end Document

end Polish.Yaml
