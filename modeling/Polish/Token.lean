/-!
# Tokens

A token is one lexeme of a text with its kind and its place.  The seven kinds of the arithmetic
grammar are constructors; a grammar may use any other name, which stays as it is in `Kind.other`.

The `handle` of a token is its number in the list that it came in.  Tokens of one list are told
apart by it, whatever their texts are.

## What this follows

`Token` is the class of that name, and `Kind` is `TokenKind` with the texts of its members as
`Kind.name`.  Tokens there are objects that are compared by identity and carry their `params`.  Here
the handle is that identity: two tokens with one handle are one object that stands at two places.
The `params` are not part of a token, since they come later and are seen at all places at once; they
are on a `Sheet`, under the handle.  The `match` that a token remembers is left out: nothing but a
hook reads it, and a `Hook` is given the same information.
-/

set_option autoImplicit false

namespace Polish

/-! ## Kinds -/

/-- What a token is in an expression. -/
inductive Kind where
  | number
  | constant
  | call
  | operator
  | openBracket
  | closeBracket
  | separator
  | other (name : String)
deriving Repr, DecidableEq

namespace Kind

/-- The written name of a kind. -/
def name : Kind → String
  | number => "number"
  | constant => "variable"
  | call => "funcCall"
  | operator => "operator"
  | openBracket => "openBracket"
  | closeBracket => "closeBracket"
  | separator => "argumentSeparator"
  | other name => name

/-- The kind with a written name. -/
def ofName (name : String) : Kind :=
  if name = "number" then number
  else if name = "variable" then constant
  else if name = "funcCall" then call
  else if name = "operator" then operator
  else if name = "openBracket" then openBracket
  else if name = "closeBracket" then closeBracket
  else if name = "argumentSeparator" then separator
  else other name

theorem name_ofName (s : String) : (ofName s).name = s := by
  unfold ofName
  repeat' split
  all_goals simp_all [name]

/-- A number or a named constant stands for a value by itself. -/
def isValue : Kind → Bool
  | number | constant => true
  | _ => false

end Kind

/-! ## Tokens -/

structure Token where
  kind : Kind
  text : String
  /-- Where the lexeme begins, in characters from the start of the text. -/
  pos : Int
  /-- The number of the token in its list. -/
  handle : Nat
deriving Repr, DecidableEq

end Polish
