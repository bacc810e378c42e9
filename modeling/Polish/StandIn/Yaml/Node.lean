import Polish.StandIn.Yaml.Mark.Scan
import Polish.StandIn.Yaml.Scalar

/-!
# The tree of a document

`Node` is a document as a tree of tagged parts, and `Node.ofMarks` makes it from the marks of a
text.  A part may have a name, and a link repeats the part of its name, which may be one that the
link itself is inside of.  The entries of a map under `<<` are merged into it: they come first, so
that the map's own entries override them.

The functions that read marks follow the grammar: `node` is any part, and each kind of list or map
has a function for what comes after its first mark.  What may be left out (a member after a dash, a
key, the value of a key) is null.
-/

set_option autoImplicit false

namespace Polish.Yaml

inductive Node where
  | scalar (tag : Tag) (text : String)
  | list (tag : Tag) (items : List Node)
  | map (tag : Tag) (entries : List (Node × Node))
  | named (name : String) (node : Node)
  | link (name : String)
deriving Inhabited

namespace Node

/-- What stands where something is left out. -/
def nothing : Node := .scalar .null ""

def tag? : Node → Option Tag
  | .scalar tag _ => some tag
  | .list tag _ => some tag
  | .map tag _ => some tag
  | .named _ node => node.tag?
  | .link _ => none

/-- A key; the key `=` is a text. -/
def asKey : Node → Node
  | .scalar .standard text => .scalar .text text
  | .named name node => .named name node.asKey
  | node => node

/-! ## Reading marks -/

structure Reading where
  marks : List Mark
  /-- The handles of tags and what they stand for. -/
  handles : List (String × String)
  /-- The names that are in use. -/
  names : List String
  /-- The parts with a name that are complete, the latest first. -/
  parts : List (String × Node)

abbrev Reader := StateT Reading (Except Trouble)

namespace Reader

def head : Reader (Option Mark) := return (← get).marks.head?

def drop : Reader Unit := modify fun r => { r with marks := r.marks.tail }

/-- The text makes no sense here, or it did not make sense before. -/
def fail {α : Type} : Reader α := do
  match (← get).marks with
  | .trouble t :: _ => throw t
  | _ => throw .malformed

/-- Takes a mark if it comes next. -/
def accept (m : Mark) : Reader Bool := do
  if (← head) = some m then
    drop
    return true
  else return false

/-- Whether one of some marks comes next. -/
def isNext (ms : List Mark) : Reader Bool := return (← head).any fun m => m ∈ ms

def useName (name : String) : Reader Unit := do
  if name ∈ (← get).names then throw .malformed
  else modify fun r => { r with names := name :: r.names }

def finishPart (name : String) (node : Node) : Reader Unit :=
  modify fun r => { r with parts := (name, node) :: r.parts }

/-- A part without its name, the target of a link instead of the link. -/
def target (node : Node) : Reader Node := do
  match node with
  | .link name => return ((← get).parts.lookup name).getD node
  | .named _ node => return node
  | node => return node

/-! ### Names and tags -/

/-- What stands before a part: a name and a tag. -/
structure Properties where
  name : Option String
  tag : Option String

def anchor? : Reader (Option String) := do
  match ← head with
  | some (.anchor name) =>
    drop
    return some name
  | _ => return none

/-- The full name of a tag, if one comes next. -/
def tagName? : Reader (Option String) := do
  match ← head with
  | some (.tag none suffix) =>
    drop
    return some suffix
  | some (.tag (some handle) suffix) =>
    drop
    match (← get).handles.lookup handle with
    | some expansion => return some (expansion ++ suffix)
    | none => throw .malformed
  | _ => return none

/-- The name and the tag of a part, in any order. -/
def properties : Reader Properties := do
  match ← anchor? with
  | some name => return ⟨some name, ← tagName?⟩
  | none =>
    let tag ← tagName?
    let name ← if tag.isSome then anchor? else pure none
    return ⟨name, tag⟩

/-- The tag of a list or a map. -/
def Properties.collection (p : Properties) (default : Tag) : Tag :=
  match p.tag with
  | none | some "!" => default
  | some name => Tag.ofName name

/-- A scalar.  The tag `!` says that the spelling decides, even in quotes. -/
def Properties.scalar (p : Properties) (text : String) (plain : Bool) : Node :=
  let tag := match p.tag with
    | none => if plain then Tag.ofPlain text else .text
    | some "!" => Tag.ofPlain text
    | some name => Tag.ofName name
  .scalar tag text

/-! ### Maps -/

/-- The entries that the value of the key `<<` adds to a map: those of a map, or of all maps of a
list, the last one first.  A map that is not complete adds nothing. -/
def merged (value : Node) : Reader (List (Node × Node)) := do
  match ← target value with
  | .map _ entries => return entries
  | .list _ items =>
    let maps ← items.mapM fun item => do
      match ← target item with
      | .map _ entries => return entries
      | .link _ => return []
      | _ => throw .malformed
    return maps.reverse.flatten
  | .link _ => return []
  | _ => throw .malformed

/-- A map of some entries; what is merged into it comes first. -/
def mapOf (tag : Tag) (entries : List (Node × Node)) : Reader Node := do
  let isMerge (entry : Node × Node) : Bool := entry.1.tag? == some .merge
  let maps ← (entries.filter isMerge).mapM fun (_, value) => merged value
  let own := (entries.filter (!isMerge ·)).map fun (key, value) => (key.asKey, value)
  return .map tag (maps.flatten ++ own)

/-! ### The grammar -/

/-- What ends a value in block style. -/
def blockStops : List Mark := [.key, .colon, .blockEnd]

/-- A part with nothing but its properties. -/
def leftOut (p : Properties) : Reader Node :=
  if p.name.isNone && p.tag.isNone then fail else return p.scalar "" true

/-- A complete part under its name. -/
def closing (p : Properties) (found : Node) : Reader Node := do
  match p.name with
  | none => return found
  | some name =>
    finishPart name found
    return .named name found

mutual

/-- A part.  Block style must be allowed, and so must a list whose dashes are not indented. -/
def node (inBlock looseDashes : Bool) : Nat → Reader Node
  | 0 => fail
  | fuel + 1 => do
    match ← head with
    | some (.link name) =>
      drop
      if name ∈ (← get).names then return .link name else throw .malformed
    | _ =>
      let p ← properties
      if let some name := p.name then useName name
      let found ← match ← head with
        | some (.scalar text plain) => do
          drop
          pure (p.scalar text plain)
        | some .openList => do
          drop
          pure (.list (p.collection .list) (← flowList fuel true []))
        | some .openMap => do
          drop
          mapOf (p.collection .map) (← flowMap fuel true [])
        | some .dash =>
          if looseDashes then do
            pure (.list (p.collection .list) (← dashes fuel []))
          else leftOut p
        | some .blockList =>
          if inBlock then do
            drop
            pure (.list (p.collection .list) (← blockList fuel []))
          else leftOut p
        | some .blockMap =>
          if inBlock then do
            drop
            mapOf (p.collection .map) (← blockMap fuel [])
          else leftOut p
        | _ => leftOut p
      closing p found

/-- A part, or null if one of some marks comes instead. -/
def nodeOr (stops : List Mark) (inBlock looseDashes : Bool) : Nat → Reader Node
  | 0 => fail
  | fuel + 1 => do
    if ← isNext stops then return nothing else node inBlock looseDashes fuel

/-- The value of a key, if there is a colon. -/
def valueOr (stops : List Mark) (inBlock : Bool) : Nat → Reader Node
  | 0 => fail
  | fuel + 1 => do
    if ← accept .colon then nodeOr stops inBlock inBlock fuel else return nothing

/-- The members of a list in block style. -/
def blockList : Nat → List Node → Reader (List Node)
  | 0, _ => fail
  | fuel + 1, found => do
    if ← accept .dash then
      let item ← nodeOr [.dash, .blockEnd] true false fuel
      blockList fuel (item :: found)
    else if ← accept .blockEnd then return found.reverse
    else fail

/-- The members of a list whose dashes are not indented. -/
def dashes : Nat → List Node → Reader (List Node)
  | 0, _ => fail
  | fuel + 1, found => do
    if ← accept .dash then
      let item ← nodeOr (.dash :: blockStops) true false fuel
      dashes fuel (item :: found)
    else return found.reverse

/-- The entries of a map in block style. -/
def blockMap : Nat → List (Node × Node) → Reader (List (Node × Node))
  | 0, _ => fail
  | fuel + 1, found => do
    if ← accept .key then
      let key ← nodeOr blockStops true true fuel
      let value ← valueOr blockStops true fuel
      blockMap fuel ((key, value) :: found)
    else if ← accept .blockEnd then return found.reverse
    else fail

/-- The members of a list between brackets.  A single entry of a map needs no braces. -/
def flowList : Nat → Bool → List Node → Reader (List Node)
  | 0, _, _ => fail
  | fuel + 1, first, found => do
    if ← accept .closeList then return found.reverse
    else if !first && !(← accept .comma) then fail
    else if ← accept .closeList then return found.reverse
    else if ← accept .key then
      let key ← nodeOr [.colon, .comma, .closeList] false false fuel
      let value ← valueOr [.comma, .closeList] false fuel
      flowList fuel false ((← mapOf .map [(key, value)]) :: found)
    else
      let item ← node false false fuel
      flowList fuel false (item :: found)

/-- The entries of a map between braces. -/
def flowMap : Nat → Bool → List (Node × Node) → Reader (List (Node × Node))
  | 0, _, _ => fail
  | fuel + 1, first, found => do
    if ← accept .closeMap then return found.reverse
    else if !first && !(← accept .comma) then fail
    else if ← accept .closeMap then return found.reverse
    else if ← accept .key then
      let key ← nodeOr [.colon, .comma, .closeMap] false false fuel
      let value ← valueOr [.comma, .closeMap] false fuel
      flowMap fuel false ((key, value) :: found)
    else
      let key ← node false false fuel
      flowMap fuel false ((key, nothing) :: found)

end

/-! ### Documents -/

/-- Reads the lines with `%` before a document. -/
def directives : Nat → Bool → Reader Unit
  | 0, _ => fail
  | fuel + 1, versionSeen => do
    match ← head with
    | some (.version major) =>
      drop
      if versionSeen || major != 1 then throw .malformed else directives fuel true
    | some (.handle name expansion) =>
      drop
      if ((← get).handles.lookup name).isSome then throw .malformed
      modify fun r => { r with handles := (name, expansion) :: r.handles }
      directives fuel versionSeen
    | some .remark =>
      drop
      directives fuel versionSeen
    | _ => return

/-- The handles that need no `%TAG` line. -/
def standardHandles : List (String × String) := [("!", "!"), ("!!", Tag.core)]

/-- The only document of a text; `none` if there is nothing at all. -/
def document (fuel : Nat) : Reader (Option Node) := do
  match ← head with
  | none => return none
  | some first =>
    let explicit := match first with
      | .version _ | .handle _ _ | .remark | .documentStart => true
      | _ => false
    if explicit then
      directives fuel false
      if !(← accept .documentStart) then fail
    modify fun r => { r with handles := r.handles ++ standardHandles }
    let isOver := match ← head with
      | none | some (.version _) | some (.handle _ _) | some .remark | some .documentStart
      | some .documentEnd => true
      | _ => false
    if explicit && isOver then return some nothing
    else return some (← node true false fuel)

/-- Nothing but ends of documents. -/
def ending : Reader Unit := do
  modify fun r => { r with marks := r.marks.dropWhile (· == .documentEnd) }
  if !(← get).marks.isEmpty then fail

end Reader

/-- The tree of a text and its parts with a name. -/
def ofMarks (marks : List Mark) : Except Trouble (Option Node × List (String × Node)) := do
  let read : Reader (Option Node) := do
    let root ← Reader.document (3 * marks.length + 4)
    Reader.ending
    return root
  let (root, reading) ← read.run ⟨marks, [], [], []⟩
  return (root, reading.parts)

end Node

end Polish.Yaml
