import Polish.Table
import Polish.Token
import Polish.Text.Quoted
import Polish.Pattern.Reader

/-!
# Grammars

A grammar is a table of rules and a table of next sets.  A rule has a pattern for its lexemes and
the names of what may follow it: rules, or next sets, which stand for their members in order.  The
entry is the name of the rule or next set that a text begins with.

## What this follows

A `Rule` is a `SyntaxRule`, and a `Grammar` is what a `Tokenizer` holds.  Its methods `add_syntax`
and `add_next_set` are `Grammar.addRule` and `Grammar.addNextSet`, with `Rule.readPattern` for what
`_compile_pattern` does to the text of a pattern: it is refused if it cannot be read, or if it could
match at the start of a text only.

`_build_graph` resolves all names into rules before a text is looked at.  Here the names stay names
and are resolved where they are needed, which comes to the same, since a grammar does not change
during a scan.  `Grammar.followers` resolves the names that a rule lists, each rule once and in the
order of its first mention, and `Grammar.entryRules` does the same for the entry, where repetitions
are kept (`_resolve_entry`).  `Grammar.check` finds a name that stands for nothing: in the next sets
first, then in the rules, each in the order in which they came in.

A `Hook` is the function `on_match` of a rule.  It is given the match and the tokens so far and
gives back the token as it would have it and, maybe, another offset to go on from.  It is a function
in the strict sense: a hook that raises, that keeps a state from match to match or that changes the
tokens before its own is not described.
-/

set_option autoImplicit false

namespace Polish

/-! ## Rules -/

/-- What a rule's hook is told: the text, where the match ends in it, the tokens emitted so far,
newest first, and the token made from the match. -/
structure Hit where
  source : List Char
  stop : Nat
  emitted : List Token
  token : Token

/-- A hook may change the token and may set another place for the scan to go on from. -/
abbrev Hook := Hit → Token × Option Int

structure Rule where
  name : String
  pattern : Matcher
  /-- The names of the rules and next sets that may follow. -/
  next : List String
  hook : Option Hook
  /-- Whether the lexemes of the rule are left out of the result. -/
  ignore : Bool
  /-- The name of the kind of its tokens, if it is not the name of the rule. -/
  label : Option String
  /-- Whether a text may end after this rule. -/
  final : Bool

/-- The name of the kind of a rule's tokens; an empty label counts as none. -/
def Rule.kindName (r : Rule) : String :=
  match r.label with
  | none => r.name
  | some label => if label.isEmpty then r.name else label

def Rule.kind (r : Rule) : Kind := Kind.ofName r.kindName

/-! ## Grammar defects -/

/-- What is wrong with a grammar. -/
inductive GrammarDefect where
  | pattern (rule : String)
  | noPattern (rule : String)
  | boundPattern (rule text : String)
  | danglingMember (set member : String)
  | danglingNext (rule name : String)
  | unknownEntry (name : String)
  | stalled (rule : String) (limit index : Int)
deriving Repr, DecidableEq

def GrammarDefect.message : GrammarDefect → String
  | .pattern rule => s!"Pattern of rule {Text.quoted rule} is invalid"
  | .noPattern rule => s!"Pattern of rule {Text.quoted rule} does not support anchored matching"
  | .boundPattern rule text =>
    s!"Pattern of rule {Text.quoted rule} ({text}) is bound to the start of input "
      ++ "and cannot match at an arbitrary offset"
  | .danglingMember set member =>
    s!"Next set {Text.quoted set} refers to nonexistent rule {Text.quoted member}"
  | .danglingNext rule name =>
    s!"Rule {Text.quoted rule} refers to nonexistent rule {Text.quoted name}"
  | .unknownEntry name => s!"Unknown syntax entry {Text.quoted name}"
  | .stalled rule limit index =>
    s!"Rule {Text.quoted rule} made no progress after {limit} matches at index {index}"

/-- The pattern of the named rule from its text. -/
def Rule.readPattern (rule text : String) (ignoreCase : Bool) : Except GrammarDefect Pattern :=
  match Pattern.ofText text ignoreCase with
  | .ok pattern => .ok pattern
  | .error .unreadable => .error (.pattern rule)
  | .error .boundToStart => .error (.boundPattern rule text)

/-! ## Grammars -/

structure Grammar where
  rules : Table Rule
  nextSets : Table (List String)
  entry : String

namespace Grammar

/-- The grammar of the given rules and next sets; of two with one name the later one counts. -/
def ofLists (rules : List Rule) (nextSets : List (String × List String)) (entry : String) :
    Grammar :=
  ⟨Table.ofList (rules.map fun rule => (rule.name, rule)), Table.ofList nextSets, entry⟩

/-- Adds a rule or replaces the one of its name. -/
def addRule (g : Grammar) (rule : Rule) : Grammar :=
  { g with rules := g.rules.insert rule.name rule }

/-- Adds a next set or replaces the one of its name. -/
def addNextSet (g : Grammar) (name : String) (members : List String) : Grammar :=
  { g with nextSets := g.nextSets.insert name members }

/-- Lets one more name follow a rule, if there is that rule. -/
def appendNext? (g : Grammar) (rule name : String) : Option Grammar :=
  (g.rules.find? rule).map fun r =>
    { g with rules := g.rules.insert rule { r with next := r.next ++ [name] } }

/-- Adds a member to a next set, if there is that set. -/
def appendMember? (g : Grammar) (set name : String) : Option Grammar :=
  (g.nextSets.find? set).map fun members =>
    { g with nextSets := g.nextSets.insert set (members ++ [name]) }

/-! ### Names resolved -/

/-- The rules of a list of names, unknown ones passed over. -/
def ruleNames (g : Grammar) (names : List String) : List Rule := names.filterMap g.rules.find?

/-- What a name stands for: the rule of that name, then the members of the next set of that
name. -/
def candidates (g : Grammar) (name : String) : List Rule :=
  (g.rules.find? name).toList ++ g.ruleNames ((g.nextSets.find? name).getD [])

/-- Adds a rule at the end of a list unless one of its name is there. -/
def addOnce (found : List Rule) (rule : Rule) : List Rule :=
  if found.any (·.name == rule.name) then found else found ++ [rule]

/-- The rules that may follow a rule, in the order in which they are tried. -/
def followers (g : Grammar) (rule : Rule) : List Rule :=
  (rule.next.flatMap g.candidates).foldl addOnce []

/-- The rules that a text may begin with. -/
def entryRules (g : Grammar) : Except GrammarDefect (List Rule) :=
  match g.rules.find? g.entry with
  | some rule => .ok [rule]
  | none => match g.nextSets.find? g.entry with
    | some members => .ok (g.ruleNames members)
    | none => .error (.unknownEntry g.entry)

/-! ### Names that stand for nothing -/

/-- The first member of a next set that is no rule. -/
def setDefect? (g : Grammar) (set : String × List String) : Option GrammarDefect :=
  (set.2.find? fun member => !g.rules.contains member).map (.danglingMember set.1)

/-- The first name that a rule lists and that stands for no rule. -/
def ruleDefect? (g : Grammar) (rule : Rule) : Option GrammarDefect :=
  (rule.next.find? fun name => (g.candidates name).isEmpty).map (.danglingNext rule.name)

/-- Finds the first name that stands for nothing. -/
def check (g : Grammar) : Except GrammarDefect Unit :=
  match g.nextSets.entries.findSome? g.setDefect? with
  | some defect => .error defect
  | none => match g.rules.values.findSome? g.ruleDefect? with
    | some defect => .error defect
    | none => .ok ()

end Grammar

end Polish
