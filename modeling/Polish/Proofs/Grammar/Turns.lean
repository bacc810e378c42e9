import Polish.Grammar.Arithmetic
import Polish.Proofs.Grammar.Round

/-!
# Values and operators take turns

The arithmetic grammar knows no nesting: all that it looks at is what came just before.  A `Turn`
is what it waits for, `Turn.next` what it waits for afterwards, and `TakesTurns` says that a list of
tokens goes on from turn to turn.

`Arithmetic.scan_ok` — every token list that the grammar lets through takes turns, its tokens are
numbered from zero, and after the last one an operator might follow.  The operator symbols can be
any: `Arithmetic.reading` is the grammar with a given pattern for them.

The two states of the grammar are rules of their own, so a scan is either before such a rule or
after it, and `Turn.ruleSets` lists both.

## How the proof goes

`Scan.InTurn` is the invariant of a scan, and one round keeps it (`InTurn.turn`): the rule that has
matched is one of those tried, so it is a state, whose token is dropped and which leaves the turn as
it is, or a word, which is kept and passes the turn on as `Turn.next` does (`Turn.followers_mem`).
That the rule may be the last one is carried along, because it is asked at the end of the text, of a
rule that came earlier.
-/

set_option autoImplicit false

namespace Polish

/-! ## Turns -/

/-- What may come next. -/
inductive Turn where
  /-- A value, or something that begins or ends with a bracket. -/
  | value
  /-- An operator, a separator or a closing bracket. -/
  | operator
  /-- The bracket that belongs to a name. -/
  | bracket

namespace Turn

/-- What may come after a token of a kind, if that kind may come at all. -/
def next : Turn → Kind → Option Turn
  | value, .number => some operator
  | value, .constant => some operator
  | value, .call => some bracket
  | value, .openBracket => some value
  | value, .closeBracket => some operator
  | operator, .closeBracket => some operator
  | operator, .separator => some value
  | operator, .operator => some value
  | bracket, .openBracket => some value
  | _, _ => none

/-- What may come after several tokens. -/
def after : Turn → List Token → Option Turn
  | turn, [] => some turn
  | turn, token :: rest => (turn.next token.kind).bind fun turn => turn.after rest

theorem after_append (turn : Turn) (xs ys : List Token) :
    turn.after (xs ++ ys) = (turn.after xs).bind fun turn => turn.after ys := by
  induction xs generalizing turn with
  | nil => rfl
  | cons t xs ih =>
    rw [List.cons_append, after, after, Option.bind_assoc]
    simp only [ih]

end Turn

/-- Each token of a list may come where it comes. -/
def TakesTurns (tokens : List Token) : Prop := ∃ turn, Turn.value.after tokens = some turn

/-! ## The arithmetic grammar -/

namespace Arithmetic

/-- The rule for operators of a given pattern. -/
def symbols (pattern : Pattern) : Rule := { symbolRule with pattern }

/-- The arithmetic grammar with a given pattern for operators. -/
def reading (pattern : Pattern) : Grammar := grammar.addRule (symbols pattern)

theorem reading_operator : reading ⟨operator, false⟩ = grammar := by
  have hrule : grammar.rules.find? operatorRule = some (symbols ⟨operator, false⟩) := rfl
  rw [reading, Grammar.addRule]
  exact congrArg (fun rules => Grammar.mk rules _ _) (Table.insert_find? hrule)

theorem check_reading (pattern : Pattern) : (reading pattern).check = .ok () := rfl

theorem entryRules_reading (pattern : Pattern) : (reading pattern).entryRules = .ok [valueRule] :=
  rfl

theorem values_reading (pattern : Pattern) : (reading pattern).rules.values = [numberRule, nameRule,
    callRule, openRule, closeRule, separatorRule, symbols pattern, valueRule, afterValueRule] := rfl

theorem hookless_reading (pattern : Pattern) : (reading pattern).Hookless := by
  rw [Grammar.Hookless, values_reading]
  intro rule hrule
  simp only [List.mem_cons, List.not_mem_nil, or_false] at hrule
  rcases hrule with rfl | rfl | rfl | rfl | rfl | rfl | rfl | rfl | rfl <;> rfl

end Arithmetic

open Arithmetic

namespace Turn

/-- The rule that comes first when it is this turn: a state, or the bracket of a call. -/
def entry : Turn → Rule
  | value => valueRule
  | operator => afterValueRule
  | bracket => openRule

/-- The rules that are tried when it is this turn: the state alone, or what comes after it. -/
def ruleSets (pattern : Pattern) : Turn → List (List Rule)
  | value => [[valueRule], [openRule, closeRule, numberRule, callRule, nameRule]]
  | operator => [[afterValueRule], [closeRule, separatorRule, symbols pattern]]
  | bracket => [[openRule]]

/-- The rules for words when it is this turn. -/
def words (pattern : Pattern) : Turn → List Rule
  | value => [openRule, closeRule, numberRule, callRule, nameRule]
  | operator => [closeRule, separatorRule, symbols pattern]
  | bracket => [openRule]

theorem mem_ruleSets {pattern : Pattern} {turn : Turn} {rules : List Rule} :
    rules ∈ turn.ruleSets pattern ↔ rules = [turn.entry] ∨ rules = turn.words pattern := by
  cases turn <;> simp [ruleSets, words, entry]

/-- The rule may be the last one of a text only if an operator might follow. -/
def Closes (turn : Turn) (rule : Rule) : Prop := rule.final = true → turn = operator

theorem closes_of_inner {turn : Turn} {rule : Rule} (h : rule.final = false) :
    turn.Closes rule := by
  simp [Closes, h]

theorem operator_closes (rule : Rule) : operator.Closes rule := fun _ => rfl

variable {pattern : Pattern} {turn : Turn} {rule : Rule}

/-- A word is kept and passes the turn on, to what comes first when it is the next turn. -/
theorem followers_word (h : rule ∈ turn.words pattern) :
    rule.hook = none ∧ rule.ignore = false ∧ ∃ turn' : Turn, turn'.Closes rule ∧
      (reading pattern).followers rule = [turn'.entry] ∧ turn.next rule.kind = some turn' := by
  cases turn with
  | value =>
    simp only [words, List.mem_cons, List.not_mem_nil, or_false] at h
    rcases h with rfl | rfl | rfl | rfl | rfl
    · exact ⟨rfl, rfl, value, closes_of_inner rfl, rfl, rfl⟩
    · exact ⟨rfl, rfl, operator, operator_closes _, rfl, rfl⟩
    · exact ⟨rfl, rfl, operator, operator_closes _, rfl, rfl⟩
    · exact ⟨rfl, rfl, bracket, closes_of_inner rfl, rfl, rfl⟩
    · exact ⟨rfl, rfl, operator, operator_closes _, rfl, rfl⟩
  | operator =>
    simp only [words, List.mem_cons, List.not_mem_nil, or_false] at h
    rcases h with rfl | rfl | rfl
    · exact ⟨rfl, rfl, operator, operator_closes _, rfl, rfl⟩
    · exact ⟨rfl, rfl, value, closes_of_inner rfl, rfl, rfl⟩
    · exact ⟨rfl, rfl, value, closes_of_inner rfl, rfl, rfl⟩
  | bracket =>
    obtain rfl := List.mem_singleton.1 h
    exact ⟨rfl, rfl, value, closes_of_inner rfl, rfl, rfl⟩

/-- A rule keeps the turn if its tokens are left out, and otherwise passes it on. -/
theorem followers_mem {rules : List Rule} (hrules : rules ∈ turn.ruleSets pattern)
    (hrule : rule ∈ rules) :
    rule.hook = none ∧ ∃ turn' : Turn, turn'.Closes rule ∧
      (reading pattern).followers rule ∈ turn'.ruleSets pattern ∧
      ((rule.ignore = true ∧ turn' = turn) ∨
        (rule.ignore = false ∧ turn.next rule.kind = some turn')) := by
  have word (h : rule ∈ turn.words pattern) : rule.hook = none ∧ ∃ turn' : Turn,
      turn'.Closes rule ∧ (reading pattern).followers rule ∈ turn'.ruleSets pattern ∧
      ((rule.ignore = true ∧ turn' = turn) ∨
        (rule.ignore = false ∧ turn.next rule.kind = some turn')) := by
    obtain ⟨hhook, hkept, turn', hcloses, hfollowers, hnext⟩ := followers_word h
    exact ⟨hhook, turn', hcloses, mem_ruleSets.2 (.inl hfollowers), .inr ⟨hkept, hnext⟩⟩
  rcases mem_ruleSets.1 hrules with rfl | rfl
  · obtain rfl := List.mem_singleton.1 hrule
    cases turn with
    | value =>
      exact ⟨rfl, value, closes_of_inner rfl, mem_ruleSets.2 (.inr rfl), .inl ⟨rfl, rfl⟩⟩
    | operator =>
      exact ⟨rfl, operator, operator_closes _, mem_ruleSets.2 (.inr rfl), .inl ⟨rfl, rfl⟩⟩
    | bracket => exact word List.mem_cons_self
  · exact word hrule

end Turn

/-! ## Scans -/

namespace Scan

variable {pattern : Pattern} {task : ScanTask} {s s' : Scan}

/-- What holds at any time of a scan: the tokens so far took turns, the rules that are tried are
those of the turn, and the tokens are numbered. -/
def InTurn (pattern : Pattern) (s : Scan) : Prop :=
  (∃ turn, Turn.value.after s.emitted.reverse = some turn ∧
      s.reachable ∈ turn.ruleSets pattern ∧ ∀ rule ∈ s.last, turn.Closes rule) ∧
    s.emitted.reverse.map Token.handle = List.range s.emitted.length

/-- **A round keeps to the turns.** -/
theorem InTurn.turn (hgrammar : task.grammar = reading pattern) (hkeep : task.keepIgnored = false)
    (h : s.InTurn pattern) (hturn : s.turn task = .inr s') : s'.InTurn pattern := by
  obtain ⟨⟨turn, hafter, hrules, -⟩, hhandles⟩ := h
  obtain ⟨-, rule, width, hmatch, rfl⟩ := turn_eq_inr hturn
  obtain ⟨hhook, turn', hcloses, hmem, hnext⟩ :=
    Turn.followers_mem hrules (firstMatch_mem hmatch).1
  rw [InTurn, next_of_hook_eq_none hhook, hkeep, hgrammar]
  have hclosed : ∀ r ∈ some rule, turn'.Closes r := by simpa using hcloses
  rcases hnext with ⟨hignore, rfl⟩ | ⟨hignore, hnext⟩
  · exact ⟨⟨turn', by simpa [hignore] using hafter, hmem, hclosed⟩,
      by simpa [hignore] using hhandles⟩
  · refine ⟨⟨turn', ?_, hmem, hclosed⟩, ?_⟩
    · simp [hignore, Turn.after_append, hafter, Turn.after, hnext]
    · rw [List.map_reverse] at hhandles
      simp [hignore, hhandles, List.range_succ]

end Scan

namespace Arithmetic

/-- **What the arithmetic grammar lets through** takes turns and is numbered, and it ends where an
operator might follow, unless the text was over before the scan began. -/
theorem scan_ok {pattern : Pattern} {task : ScanTask} (hgrammar : task.grammar = reading pattern)
    (hkeep : task.keepIgnored = false) {rounds : Nat} {s : Scan} (h : s.InTurn pattern)
    {tokens : List Token} (hscan : Grammar.scan task rounds s = some (.ok tokens)) :
    TakesTurns tokens ∧ tokens.map Token.handle = List.range tokens.length ∧
      ((s.last = none → s.index < task.source.toList.length) →
        Turn.value.after tokens = some .operator) := by
  induction rounds generalizing s with
  | zero => cases hscan
  | succ rounds ih =>
    rw [Grammar.scan] at hscan
    cases hturn : s.turn task with
    | inr s' =>
      rw [hturn] at hscan
      obtain ⟨hturns, hhandles, hends⟩ := ih (h.turn hgrammar hkeep hturn) hscan
      obtain ⟨-, rule, width, -, rfl⟩ := Scan.turn_eq_inr hturn
      exact ⟨hturns, hhandles, fun _ => hends (by simp [Scan.next])⟩
    | inl result =>
      rw [hturn] at hscan
      obtain ⟨⟨turn, hafter, -, hcloses⟩, hhandles⟩ := h
      obtain rfl := Option.some.inj hscan
      obtain ⟨rfl, hfinal, hend⟩ := Scan.turn_eq_ok hturn
      rw [List.length_reverse]
      refine ⟨⟨turn, hafter⟩, hhandles, fun hbegun => ?_⟩
      cases hlast : s.last with
      | none => exact absurd (hbegun hlast) hend
      | some rule => rw [hafter, hcloses rule hlast (hfinal rule hlast)]

theorem parse_ok {pattern : Pattern} {source : String} {limit : Int} {tokens : List Token}
    (h : (reading pattern).parse source limit false = .ok tokens) :
    TakesTurns tokens ∧ tokens.map Token.handle = List.range tokens.length ∧
      (source ≠ "" → Turn.value.after tokens = some .operator) := by
  rw [Grammar.parse_eq (check_reading pattern) (entryRules_reading pattern)] at h
  let task : ScanTask := ⟨reading pattern, source, limit, false⟩
  let start : Scan := ⟨0, 0, [valueRule], none, []⟩
  have hscan : (Grammar.scan task (Grammar.rounds task) start).getD (.error .endless)
      = .ok tokens := h
  have hstart : start.InTurn pattern :=
    ⟨⟨.value, rfl, List.mem_cons_self, by simp [start]⟩, rfl⟩
  cases hresult : Grammar.scan task (Grammar.rounds task) start with
  | none =>
    rw [hresult] at hscan
    cases hscan
  | some result =>
    rw [hresult] at hscan
    obtain rfl : result = .ok tokens := hscan
    obtain ⟨hturns, hhandles, hends⟩ := scan_ok rfl rfl hstart hresult
    refine ⟨hturns, hhandles, fun hsource => hends fun _ => ?_⟩
    have hlength : source.toList ≠ [] := by simpa using hsource
    exact Int.natCast_pos.2 (List.length_pos_iff.2 hlength)

end Arithmetic

end Polish
