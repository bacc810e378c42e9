import Polish.Function.Standard

/-!
# Registries

The tables that give symbols and names their meaning: operators with their level and grouping,
functions, and constants.  An operator binds tighter the higher its level.  Operators of one level
group to the left unless they are registered as grouping to the right.

`Registries.registerOperator` and its two companions are the methods `register_operator`,
`register_function` and `register_constant` of the tables; those of an engine, which also teach the
grammar a new symbol, are in `Polish.Engine`.  What the methods write to a log is left out.
-/

set_option autoImplicit false

namespace Polish

/-- A binary operator. -/
structure Operator where
  level : Int
  function : Function
  rightAssociative : Bool

structure Registries where
  operators : Table Operator
  functions : Table Function
  constants : Table Float

namespace Registries

/-! ## The standard tables -/

/-- The standard operators, loosest level first: symbols with the names of their functions. -/
def standardLevels : List (List (String × String)) := [
  [("&", "and"), ("|", "or")],
  [("<<", "shl"), (">>", "shr")],
  [("+", "add"), ("-", "sub")],
  [("*", "mul"), ("×", "mul"), ("/", "div"), ("÷", "div"), ("%", "mod")],
  [("^", "pow")]]

/-- The standard operators; only the power groups to the right. -/
def standardOperators : Table Operator :=
  Table.ofList <| standardLevels.zipIdx.flatMap fun (symbols, level) =>
    symbols.filterMap fun (symbol, name) => (Binary.table.find? name).map fun function =>
      (symbol, ⟨level, function, symbol == "^"⟩)

def standardConstants : Table Float := Table.ofList [
  ("e", 2.718281828459045),
  ("pi", 3.141592653589793),
  ("phi", (1 + Float.sqrt 5) / 2),
  ("epsilon", Binary64.ofRatio false 1 Binary64.hiddenBit),
  ("inf", Binary64.infinity),
  ("minInf", Binary64.negInfinity)]

def standard : Registries := ⟨standardOperators, Standard.table, standardConstants⟩

/-! ## Registration -/

/-- Adds an operator or replaces the one of that symbol. -/
def registerOperator (r : Registries) (symbol : String) (operator : Operator) : Registries :=
  { r with operators := r.operators.insert symbol operator }

/-- Adds a function or replaces the one of that name. -/
def registerFunction (r : Registries) (name : String) (function : Function) : Registries :=
  { r with functions := r.functions.insert name function }

/-- Adds a constant or replaces the one of that name. -/
def registerConstant (r : Registries) (name : String) (value : Float) : Registries :=
  { r with constants := r.constants.insert name value }

end Registries

end Polish
