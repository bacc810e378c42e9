import Polish.StandIn.Yaml.Cursor
import Polish.StandIn.Yaml.Trouble

/-!
# The marks of a document

A document is read in two steps.  The first makes a list of marks of its text: indicators such as
a dash or a bracket, names and tags, and the texts of its scalars.  Where block style shows its
structure by indentation alone, the list has marks for it (`blockList`, `blockMap`, `blockEnd`),
and every key of a map has the mark `key` before it, which the text has only in the form of the
colon that comes after.  The second step is in `Polish.StandIn.Yaml.Node`.
-/

set_option autoImplicit false

namespace Polish.Yaml

inductive Mark where
  /-- A `%YAML` line with the number before the point. -/
  | version (major : Nat)
  /-- A `%TAG` line: a handle and what it stands for. -/
  | handle (name expansion : String)
  /-- Any other line that begins with `%`. -/
  | remark
  | documentStart
  | documentEnd
  | blockList
  | blockMap
  | blockEnd
  | openList
  | closeList
  | openMap
  | closeMap
  | comma
  /-- The dash before a member of a list. -/
  | dash
  /-- What comes next is a key. -/
  | key
  /-- The colon before the value of a key. -/
  | colon
  /-- `*name`, which repeats a part of the document. -/
  | link (name : String)
  /-- `&name`, which gives a part of the document a name. -/
  | anchor (name : String)
  /-- `!tag`; without a handle the suffix is the whole tag. -/
  | tag (handle : Option String) (suffix : String)
  /-- A text, in quotes or block style unless it is `plain`. -/
  | scalar (text : String) (plain : Bool)
  /-- Here the text stopped making sense. -/
  | trouble (t : Trouble)
deriving Repr, DecidableEq

end Polish.Yaml
