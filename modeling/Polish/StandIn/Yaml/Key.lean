import Polish.Config.Value
import Polish.Number.Binary64

/-!
# Keys of a map

Two scalars are the same key if they are equal as values: `1`, `1.0` and `true` are one key.  A map
is filled entry by entry, and a key that comes again keeps its place and takes the new value.
-/

set_option autoImplicit false

namespace Polish.Config.Value

/-- The number that a value is; truth values count as zero and one. -/
inductive Numeric where
  | whole (n : Int)
  | fractional (x : Float)

def numeric? : Value → Option Numeric
  | bool b => some (.whole (if b then 1 else 0))
  | int n => some (.whole n)
  | real x =>
    if x.isFinite && x.floor == x then some (.whole (Binary64.truncate x))
    else some (.fractional x)
  | _ => none

/-- Whether two numbers are the same key; what is no number is the same as itself. -/
def Numeric.same : Numeric → Numeric → Bool
  | whole a, whole b => a == b
  | fractional a, fractional b => a == b || (a.isNaN && b.isNaN)
  | _, _ => false

/-- Whether two scalars are the same key.  Numbers are compared by value, whatever their kind. -/
def sameKey (a b : Value) : Bool :=
  match a, b with
  | null, null => true
  | text a, text b => a == b
  | moment a, moment b => a == b
  | a, b => match a.numeric?, b.numeric? with
    | some a, some b => a.same b
    | _, _ => false

/-- Adds an entry to a map; a key that is there keeps its place and takes the new value. -/
def putEntry (key value : Value) : List (Value × Value) → List (Value × Value)
  | [] => [(key, value)]
  | (k, old) :: rest =>
    if k.sameKey key then (k, value) :: rest else (k, old) :: putEntry key value rest

/-- The entries of a map that is filled one entry after the other. -/
def entriesOf (entries : List (Value × Value)) : List (Value × Value) :=
  entries.foldl (fun found (key, value) => putEntry key value found) []

end Polish.Config.Value
