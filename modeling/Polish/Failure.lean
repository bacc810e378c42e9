import Polish.Grammar.Scan
import Polish.Limits
import Polish.Function.Basic

/-!
# Failures

Everything that can go wrong between a text and its value, by cause, with the place where it did.
The wording is in one function per cause.  A failure that knows both the text and an offset in it
can be shown with the text below the message and a mark under the offset: `Failure.context`, which
is `format_with_context`.

## What this follows

A `Failure` is what one of the stages raises or puts into its result: `LexError`, `NotationError`
(`CompileError`), `EvalError` and `LimitExceededError` (`LimitExceeded`), a `ConfigError` from the
grammar (`GrammarDefect`), and the refusal of a notation that does not exist.  The messages are kept
as causes with what they mention, `Defect` and `EvalCause`, so that a theorem can say which failure
it means; `Defect.message` and `EvalCause.message` are the texts.  `Failure.position` is the
position that the first two take from their token and the others are given.

`Failure.endless` is the one failure that has no counterpart: it is the answer for a scan that hooks
send back again and again, where the program would not answer.
-/

set_option autoImplicit false

namespace Polish

/-! ## Compiling -/

/-- What is wrong with a list of tokens. -/
inductive Defect where
  | noBracketAfterCall
  | unknownKind (text : String)
  | unmatchedOpen
  | unmatchedClose
  | unmatchedSeparator
  | separatorOutside
  | emptyArgument
  | emptyBrackets
  | unknownOperator (symbol : String)
  | alreadyCompiled
deriving Repr, DecidableEq

def Defect.message : Defect → String
  | .noBracketAfterCall => "Expecting \"(\" for function call"
  | .unknownKind text => s!"Unknown token {Text.quoted text}"
  | .unmatchedOpen => "Unmatched opening bracket"
  | .unmatchedClose => "Unmatched closing bracket"
  | .unmatchedSeparator => "Unmatched argument separator"
  | .separatorOutside => "Operator \",\" cannot be used outside function argument list"
  | .emptyArgument => "Empty function argument"
  | .emptyBrackets => "Empty brackets"
  | .unknownOperator symbol => s!"Invalid operator \"{symbol}\""
  | .alreadyCompiled => "Tokens are already compiled"

/-- A token list that cannot be compiled; `index` is the place of the token in the list. -/
structure CompileError where
  defect : Defect
  index : Nat
  token : Token
  source : Option String
deriving Repr, DecidableEq

/-! ## Evaluating -/

/-- Why a token cannot be evaluated. -/
inductive EvalCause where
  | invalidNumber (text : String)
  | unknownConstant (name : String)
  | unknownFunction (name : String)
  | noArguments (name : String)
  | missingOperands (symbol : String)
  | unknownOperator (symbol : String)
  | unexpectedToken (text : String)
  | fault (text : String) (reason : Fault)
  | stackLength

def EvalCause.message : EvalCause → String
  | .invalidNumber text => s!"Invalid number {Text.quoted text}"
  | .unknownConstant name => s!"Unknown constant {name}"
  | .unknownFunction name => s!"Unknown function {name}"
  | .noArguments name => s!"Function {name} has no compiled parameters"
  | .missingOperands symbol => s!"Missing lvalue and rvalue for operator \"{symbol}\""
  | .unknownOperator symbol => s!"Unknown operator \"{symbol}\""
  | .unexpectedToken text => s!"Unexpected token {Text.quoted text} in notation"
  | .fault text reason => s!"{Text.strip text}: {reason.message}"
  | .stackLength => "Invalid result stack length"

/-- An evaluation that came to a stop, with the values on the stack, newest first. -/
structure EvalError where
  cause : EvalCause
  token : Option Token
  stack : List Float
  source : Option String

/-! ## All together -/

inductive Failure where
  | grammar (e : GrammarDefect)
  | endless
  | lex (e : LexError)
  | compile (e : CompileError)
  | eval (e : EvalError)
  | limit (e : LimitExceeded)
  | mode (name : String)

namespace Failure

def ofScan : ScanError → Failure
  | .lex e => lex e
  | .grammar e => grammar e
  | .endless => endless

def message : Failure → String
  | grammar e => e.message
  | endless => "The rules' hooks keep the scan from ending"
  | lex e => e.message
  | compile e => e.defect.message
  | eval e => e.cause.message
  | limit e => e.message
  | mode name => s!"{Text.quoted name} is not a valid NotationMode"

/-- The offset that a failure points at. -/
def position : Failure → Option Int
  | lex e => some e.index
  | compile e => some e.token.pos
  | eval e => e.token.map (·.pos)
  | limit e => e.position
  | grammar _ | endless | mode _ => none

/-- The text that a failure is about. -/
def source : Failure → Option String
  | lex e => some e.source
  | compile e => e.source
  | eval e => e.source
  | limit _ | grammar _ | endless | mode _ => none

/-- The message, with the text and a mark under the offset if both are known. -/
def context (f : Failure) : String :=
  match f.source, f.position with
  | some source, some position =>
    let mark := String.ofList (List.replicate position.toNat ' ') ++ "^"
    f.message ++ "\n  " ++ source ++ "\n  " ++ mark
  | _, _ => f.message

end Failure

end Polish
