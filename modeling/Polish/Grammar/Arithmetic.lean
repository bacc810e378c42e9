import Polish.Grammar.Basic

/-!
# The arithmetic grammar

Flat arithmetic expressions with calls: `1 + 2 * f(x, 3)`.  A text is in one of two states, each a
rule that skips blanks.  In the `value` state a number, a name, a call or a bracket may come; after
a value the `operator` state lets an operator, a separator or a closing bracket follow.  A name
directly before an opening bracket is a call.  An operator right after another one is not accepted,
but a number may carry its own sign.

A closing bracket may come in the `value` state too, so the grammar accepts more than expressions:
`f()` needs that, and what else it lets through is for the compiler to refuse.

This is the grammar that `create_math_tokenizer` builds, rule by rule in the order in which it adds
them.  The patterns are given as they are after reading, with the text that they are read from in
their docstrings; `operator` is `OPERATOR_PATTERN`, the only one that an engine ever replaces.
-/

set_option autoImplicit false

namespace Polish.Arithmetic

open Regex

/-! ## Patterns -/

/-- A number: digits with an optional sign, fraction and signed exponent,
`[-+]?\d+(\.\d*)?(e[-+]\d+)?`. -/
def number : Regex :=
  let sign := oneOfChars ['-', '+']
  let digit := category .digit
  sequence [
    optional sign,
    atLeastOne digit,
    optional (sequence [char '.', many digit]),
    optional (sequence [char 'e', sign, atLeastOne digit])]

/-- A name: an ASCII letter and then word characters, `[a-z]\w*` in either case. -/
def name : Regex := sequence [.oneOf false [.range 'a' 'z'], many (category .word)]

/-- A name before an opening bracket, `[a-z]\w*(?=\s*\()`. -/
def callName : Regex :=
  sequence [.oneOf false [.range 'a' 'z'], many (category .word),
    .ahead (sequence [many (category .blank), char '('])]

/-- A bracket with the blanks around it. -/
def bracket (c : Char) : Regex :=
  sequence [many (category .blank), char c, many (category .blank)]

/-- The operator symbols that the grammar knows to begin with. -/
def operator : Regex :=
  choice [literal ['<', '<'], literal ['>', '>'],
    oneOfChars ['-', '+', '*', '/', '%', '&', '|', '×', '÷', '^']]

def blanks : Regex := many (category .blank)

/-! ## Rules -/

/-- The name of the rule for operator symbols. -/
def operatorRule : String := "operatorToken"

/-- The name of the rule before a value. -/
def valueState : String := "value"

/-- The name of the rule after a value. -/
def operatorState : String := "operator"

/-- A rule without a hook whose tokens are kept. -/
def rule (name : String) (regex : Regex) (next : List String) (final : Bool) : Rule where
  name
  pattern := Pattern.mk regex false
  next
  hook := none
  ignore := false
  label := none
  final

def numberRule : Rule := rule "number" number [operatorState] true

def nameRule : Rule :=
  { rule "variable" name [operatorState] true with pattern := Pattern.mk name true }

def callRule : Rule :=
  { rule "funcCall" callName ["openBracket"] false with pattern := Pattern.mk callName true }

def openRule : Rule := rule "openBracket" (bracket '(') [valueState] false

def closeRule : Rule := rule "closeBracket" (bracket ')') [operatorState] true

def separatorRule : Rule := rule "argumentSeparator" (char ',') [valueState] false

def symbolRule : Rule :=
  { rule operatorRule operator [valueState] false with label := some "operator" }

def valueRule : Rule :=
  { rule valueState blanks ["openBracket", "closeBracket", "number", "funcCall", "variable"] false
    with ignore := true }

def afterValueRule : Rule :=
  { rule operatorState blanks ["closeBracket", "argumentSeparator", operatorRule] true
    with ignore := true }

/-- The grammar of arithmetic expressions. -/
def grammar : Grammar :=
  Grammar.ofLists
    [numberRule, nameRule, callRule, openRule, closeRule, separatorRule, symbolRule, valueRule,
      afterValueRule]
    [] valueState

theorem check_grammar : grammar.check = .ok () := by rfl

end Polish.Arithmetic
