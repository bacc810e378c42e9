import Polish.Grammar.Basic

/-!
# Scanning a text

A scan goes over a text from left to right.  At every offset the rules that may come next are tried
in order; the first whose pattern matches makes a token and decides what may come after it.  A text
is accepted if a rule after which it may end was the last one.

A match that leaves the offset where it was is no progress.  More than `limit` of them in a row
stop the scan with a grammar defect; any other match starts the count again.

## What this follows

`Grammar.parse` is the method `parse`, `Grammar.scan` is its loop and `Scan.turn` is one round of
the loop, with the variables that it carries in a `Scan`.  What stands before the loop is the check
of the grammar, and what stands behind it is `Scan.finish`.

A rule's hook may send the scan to any offset, so the loop need not end.  The rounds are counted
down from a number given beforehand, and `none` says that they did not suffice.  Without hooks every
round either moves on or counts as no progress, so `Grammar.rounds` are enough, as
`Grammar.Hookless.parse_ne_endless` says; hooks get an allowance beyond that.  The allowance is a
number that no machine will ever count down to, and theorems about hooks speak about `Grammar.scan`
with any number of rounds.
-/

set_option autoImplicit false

namespace Polish

/-! ## Failures -/

inductive LexCause where
  | expecting (rules : List String)
  | expectingEnd
  | unexpectedEnd (rules : List String)
deriving Repr, DecidableEq

/-- A text that the grammar does not accept, with the offset at which it went wrong. -/
structure LexError where
  cause : LexCause
  index : Int
  source : String
deriving Repr, DecidableEq

namespace LexError

def message (e : LexError) : String :=
  match e.cause with
  | .expecting rules => "Expecting " ++ ", ".intercalate rules
  | .expectingEnd => "Expecting end of input"
  | .unexpectedEnd _ => "Unexpected end of input"

/-- The names of the rules that could have matched. -/
def expected (e : LexError) : List String :=
  match e.cause with
  | .expecting rules | .unexpectedEnd rules => rules
  | .expectingEnd => []

end LexError

inductive ScanError where
  | lex (e : LexError)
  | grammar (e : GrammarDefect)
  /-- Hooks kept the scan from coming to an end. -/
  | endless
deriving Repr, DecidableEq

/-! ## One round -/

/-- What a scan is made over. -/
structure ScanTask where
  grammar : Grammar
  source : String
  limit : Int
  keepIgnored : Bool

/-- How far a scan has come. -/
structure Scan where
  index : Int
  /-- The number of matches without progress just before. -/
  stalled : Nat
  /-- The rules that may come next. -/
  reachable : List Rule
  last : Option Rule
  /-- The tokens so far, newest first. -/
  emitted : List Token

namespace Scan

/-- The first of the rules that matches at an offset of a text, with the length of its match. -/
def firstMatch (rules : List Rule) (source : List Char) (offset : Nat) : Option (Rule × Nat) :=
  rules.findSome? fun rule => (rule.pattern.width? source offset).map fun width => (rule, width)

/-- The token that a match makes and the offset after it, as the rule's hook would have them. -/
def hit (source rest : List Char) (s : Scan) (rule : Rule) (width : Nat) : Token × Int :=
  let stop := s.index.toNat + width
  let token : Token :=
    ⟨rule.kind, String.ofList (rest.take width), s.index, s.emitted.length⟩
  match rule.hook with
  | none => (token, stop)
  | some hook =>
    let (changed, goOn) := hook ⟨source, stop, s.emitted, token⟩
    ({ changed with handle := s.emitted.length }, goOn.getD stop)

/-- The scan after the end of the text. -/
def finish (task : ScanTask) (s : Scan) : Except ScanError (List Token) :=
  if s.last.any (!·.final) then
    .error (.lex ⟨.unexpectedEnd (s.reachable.map (·.name)), s.index, task.source⟩)
  else .ok s.emitted.reverse

/-- One round: the result if the scan is over, and the scan after the next match otherwise. -/
def turn (task : ScanTask) (s : Scan) : Except ScanError (List Token) ⊕ Scan :=
  let source := task.source.toList
  if s.index < source.length then
    if s.reachable.isEmpty then .inl (.error (.lex ⟨.expectingEnd, s.index, task.source⟩))
    else match firstMatch s.reachable source s.index.toNat with
      | none =>
        .inl (.error (.lex ⟨.expecting (s.reachable.map (·.name)), s.index, task.source⟩))
      | some (rule, width) =>
        let (token, stop) := hit source (source.drop s.index.toNat) s rule width
        let stalled := if stop = s.index then s.stalled + 1 else 0
        if stop = s.index ∧ task.limit < stalled then
          .inl (.error (.grammar (.stalled rule.name task.limit s.index)))
        else
          let keep := task.keepIgnored || !rule.ignore
          .inr {
            index := stop
            stalled
            reachable := task.grammar.followers rule
            last := some rule
            emitted := if keep then token :: s.emitted else s.emitted }
  else .inl (s.finish task)

end Scan

/-! ## The whole scan -/

namespace Grammar

/-- Goes on with a scan for a number of rounds. -/
def scan (task : ScanTask) : Nat → Scan → Option (Except ScanError (List Token))
  | 0, _ => none
  | rounds + 1, s => match s.turn task with
    | .inl result => some result
    | .inr s => scan task rounds s

/-- The extra rounds of a grammar with hooks, more than any machine can make. -/
def hookAllowance : Nat := 1000000000000000000

/-- Rounds enough for every scan in which no hook takes part. -/
def rounds (task : ScanTask) : Nat :=
  (task.source.toList.length + 1) * (task.limit.toNat + 2)
    + if task.grammar.rules.values.any (·.hook.isSome) then hookAllowance else 0

/-- The tokens of a text.  A defect of the grammar is found before the text is looked at. -/
def parse (g : Grammar) (source : String) (limit : Int) (keepIgnored : Bool) :
    Except ScanError (List Token) := do
  (g.check).mapError .grammar
  let start ← g.entryRules.mapError .grammar
  let task : ScanTask := ⟨g, source, limit, keepIgnored⟩
  (scan task (rounds task) ⟨0, 0, start, none, []⟩).getD (.error .endless)

end Grammar

end Polish
