/-!
# Documents

A configuration is handed to an engine as a document: a scalar, a list, or a map whose entries keep
their order.  Keys are values too, since a document may use a number or a truth value as a key.

How a text becomes a document and what is accepted in one are questions for libraries, not for this
one; see `Polish.Config.Settings` and `Polish.Config.File`.
-/

set_option autoImplicit false

namespace Polish.Config

inductive Value where
  | null
  | bool (b : Bool)
  | int (n : Int)
  | real (x : Float)
  | text (s : String)
  /-- A date or a time, which no setting takes, by the way it is shown. -/
  | moment (shown : String)
  | list (items : List Value)
  | map (entries : List (Value × Value))
deriving Inhabited

namespace Value

/-- The value under a name in a map. -/
def entry? (name : String) : List (Value × Value) → Option Value
  | [] => none
  | (text key, value) :: rest => if key = name then some value else entry? name rest
  | _ :: rest => entry? name rest

/-- Whether a value counts as nothing at all: null, false, zero, and what is empty. -/
def isVoid : Value → Bool
  | null => true
  | bool b => !b
  | int n => n == 0
  | real x => x == 0
  | text s => s.isEmpty
  | moment _ => false
  | list items => items.isEmpty
  | map entries => entries.isEmpty

end Value

end Polish.Config
