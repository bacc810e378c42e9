import Polish.Token
import Polish.Text.Blank

/-!
# Listings and their arguments

A compiled expression is a listing: a list of tokens in which a call is a single token.  The
arguments of a call are listings themselves; which ones they are is written on a `Sheet`, under the
call's handle.  All listings made from one token list share its sheet, so attaching arguments to a
token is seen wherever the token stands.  In the program the arguments are the `params` of the token
object, which all these lists share; the sheet is the `params` of all objects that belong together.

`Sheet.expand` reads a listing with all arguments in place, as a list of `Item`s, and
`Item.sheetOf` writes items down again.  `Item.render` is `notation_to_string`: the text of a
listing, with calls as `f(a b +, c)`.

A sheet may say that a call is among its own arguments, and then there is no end to reading it.
`Sheet.expandTo` goes down as many levels as it is told, and `Sheet.expand` goes as deep as a sheet
without such a circle can lead.
-/

set_option autoImplicit false

namespace Polish

/-! ## Sheets -/

/-- Which arguments are attached to which token; a later entry counts before an earlier one. -/
structure Sheet where
  entries : List (Nat × List (List Token))
deriving Repr, DecidableEq

namespace Sheet

def empty : Sheet := ⟨[]⟩

/-- The arguments attached to a token, if any have been. -/
def args? (s : Sheet) (handle : Nat) : Option (List (List Token)) := s.entries.lookup handle

/-- Attaches arguments to a token. -/
def attach (s : Sheet) (handle : Nat) (args : List (List Token)) : Sheet :=
  ⟨(handle, args) :: s.entries⟩

/-- Attaches arguments to several tokens, one after another. -/
def attachAll (s : Sheet) (entries : List (Nat × List (List Token))) : Sheet :=
  entries.foldl (fun s entry => s.attach entry.1 entry.2) s

@[simp] theorem args?_empty (handle : Nat) : empty.args? handle = none := rfl

theorem args?_attach (s : Sheet) (handle other : Nat) (args : List (List Token)) :
    (s.attach handle args).args? other = if handle = other then some args else s.args? other := by
  by_cases h : handle = other
  · simp [args?, attach, h]
  · have : (other == handle) = false := by simpa using Ne.symm h
    simp [args?, attach, List.lookup_cons, this, h]

end Sheet

/-! ## Items -/

/-- A token with the arguments attached to it, all the way down. -/
inductive Item where
  | mk (token : Token) (args : Option (List (List Item)))

namespace Item

def token : Item → Token
  | mk token _ => token

def args : Item → Option (List (List Item))
  | mk _ args => args

/-! ### Writing items down -/

mutual

/-- The sheet entries of an item and of all items inside it. -/
def entries : Item → List (Nat × List (List Token))
  | mk _ none => []
  | mk token (some args) => (token.handle, tokensOfAll args) :: entriesOfAll args

/-- The sheet entries of a list of argument lists. -/
def entriesOfAll : List (List Item) → List (Nat × List (List Token))
  | [] => []
  | items :: rest => entriesOf items ++ entriesOfAll rest

/-- The sheet entries of a list of items. -/
def entriesOf : List Item → List (Nat × List (List Token))
  | [] => []
  | item :: rest => item.entries ++ entriesOf rest

/-- The tokens of each of several lists of items. -/
def tokensOfAll : List (List Item) → List (List Token)
  | [] => []
  | items :: rest => tokensOf items :: tokensOfAll rest

/-- The tokens of a list of items. -/
def tokensOf : List Item → List Token
  | [] => []
  | mk token _ :: rest => token :: tokensOf rest

end

/-- The sheet on which the arguments of all items stand. -/
def sheetOf (items : List Item) : Sheet := ⟨entriesOf items⟩

/-! ### The text of items -/

mutual

/-- The text of an item: the lexeme without surrounding blanks, and the arguments of a call. -/
def text : Item → String
  | mk token none => Text.strip token.text
  | mk token (some args) =>
    if token.kind = .call then
      Text.strip token.text ++ "(" ++ ", ".intercalate (textOfAll args) ++ ")"
    else Text.strip token.text

/-- The texts of several argument lists. -/
def textOfAll : List (List Item) → List String
  | [] => []
  | items :: rest => " ".intercalate (textOf items) :: textOfAll rest

/-- The texts of the items of a list. -/
def textOf : List Item → List String
  | [] => []
  | item :: rest => item.text :: textOf rest

end

/-- The text of a listing. -/
def render (items : List Item) : String := " ".intercalate (textOf items)

end Item

/-! ## Reading a listing with its arguments -/

namespace Sheet

/-- A listing with its arguments in place, down to a given depth. -/
def expandTo (s : Sheet) : Nat → List Token → List Item
  | 0, tokens => tokens.map fun token => ⟨token, none⟩
  | depth + 1, tokens => tokens.map fun token =>
    ⟨token, (s.args? token.handle).map fun args => args.map (expandTo s depth)⟩

/-- A listing with its arguments in place.  Every level of nesting takes an entry of the sheet, so
no deeper one has to be looked at. -/
def expand (s : Sheet) (tokens : List Token) : List Item := s.expandTo (s.entries.length + 1) tokens

end Sheet

end Polish
