import Polish.Proofs.Phrase.Acceptable
import Polish.Proofs.Tree.Basic

/-!
# Expressions

The grammar of expressions, as the trees of its derivations:

* an `Expression` is a term, or a term, an operator and an expression;
* a `Term` is a value, an expression in brackets, or a call;
* `Arguments` are expressions with separators between them.

`Expression.tokens` is the token list that a derivation derives, and `Expression.Proper` says that
its tokens are of the kinds that the grammar asks for.  `Expression.tree` is the tree that the
expression means under some precedence, and `Expression.grouped_tree` says that it is the grouped
one.

`Expression.toPhrase` is the same derivation as a phrase, the shape that the compiler works on.

## Why there are three kinds of trees

A derivation knows where brackets are and what is between the operators, but not which operator goes
first; a `Tree` knows that but has lost the text; a `Phrase` is what the compiler sees and need not
be that of an expression.  The derivation is in the middle, and everything about expressions is
proved by induction on it.
-/

set_option autoImplicit false

namespace Polish

open Compile (isKind)

mutual

/-- Terms with operators between them. -/
inductive Expression where
  | single (term : Term)
  | chain (term : Term) (operator : Token) (rest : Expression)

/-- What can be an operand. -/
inductive Term where
  | value (token : Token)
  | group (opening : Token) (inner : Expression) (closing : Token)
  /-- A call without arguments. -/
  | bare (name opening closing : Token)
  | call (name opening : Token) (args : Arguments) (closing : Token)

/-- Expressions with separators between them. -/
inductive Arguments where
  | last (arg : Expression)
  | more (arg : Expression) (separator : Token) (rest : Arguments)

end

/-- How many they are. -/
def Arguments.count : Arguments → Nat
  | .last _ => 1
  | .more _ _ rest => rest.count + 1

/-! ## Tokens -/

mutual

/-- The token list that is derived. -/
def Expression.tokens : Expression → List Token
  | .single term => term.tokens
  | .chain term operator rest => term.tokens ++ operator :: rest.tokens

/-- The tokens of a term. -/
def Term.tokens : Term → List Token
  | .value token => [token]
  | .group opening inner closing => opening :: (inner.tokens ++ [closing])
  | .bare name opening closing => [name, opening, closing]
  | .call name opening args closing => name :: opening :: (args.tokens ++ [closing])

/-- The tokens of arguments. -/
def Arguments.tokens : Arguments → List Token
  | .last arg => arg.tokens
  | .more arg separator rest => arg.tokens ++ separator :: rest.tokens

end

mutual

/-- All tokens are of the kinds that the grammar asks for. -/
def Expression.Proper : Expression → Prop
  | .single term => term.Proper
  | .chain term operator rest => term.Proper ∧ operator.kind = .operator ∧ rest.Proper

/-- The same of a term. -/
def Term.Proper : Term → Prop
  | .value token => token.kind.isValue = true
  | .group opening inner closing =>
    opening.kind = .openBracket ∧ inner.Proper ∧ closing.kind = .closeBracket
  | .bare name opening closing =>
    name.kind = .call ∧ opening.kind = .openBracket ∧ closing.kind = .closeBracket
  | .call name opening args closing =>
    name.kind = .call ∧ opening.kind = .openBracket ∧ args.Proper ∧ closing.kind = .closeBracket

/-- The same of arguments. -/
def Arguments.Proper : Arguments → Prop
  | .last arg => arg.Proper
  | .more arg separator rest => arg.Proper ∧ separator.kind = .separator ∧ rest.Proper

end

section

variable (operators : Table Operator) (limit : Int)

mutual

/-- All operators are registered, and no call has too many arguments. -/
def Expression.Valid : Expression → Prop
  | .single term => term.Valid
  | .chain term operator rest =>
    term.Valid ∧ operators.contains operator.text = true ∧ rest.Valid

/-- The same of a term. -/
def Term.Valid : Term → Prop
  | .value _ => True
  | .group _ inner _ => inner.Valid
  | .bare .. => 0 ≤ limit
  | .call _ _ args _ => (args.count : Int) ≤ limit ∧ args.Valid

/-- The same of arguments. -/
def Arguments.Valid : Arguments → Prop
  | .last arg => arg.Valid
  | .more arg _ rest => arg.Valid ∧ rest.Valid

end

end

/-- A token list is an expression. -/
def IsExpression (tokens : List Token) : Prop := ∃ x : Expression, x.Proper ∧ x.tokens = tokens

/-! ## Trees -/

section

variable (before : Token → Token → Bool)

mutual

/-- What an expression means, if `before` says which of two operators takes what is between
them. -/
def Expression.tree : Expression → Tree
  | .single term => term.tree
  | .chain term operator rest => .prepend before term.tree operator rest.tree

/-- What a term means. -/
def Term.tree : Term → Tree
  | .value token => .value token
  | .group _ inner _ => .group inner.tree
  | .bare name _ _ => .call name []
  | .call name _ args _ => .call name args.trees

/-- What each of the arguments means. -/
def Arguments.trees : Arguments → List Tree
  | .last arg => [arg.tree]
  | .more arg _ rest => arg.tree :: rest.trees

end

theorem Term.operators_tree (t : Term) : (t.tree before).operators = [] := by
  cases t <;> simp [Term.tree, Tree.operators]

theorem Term.grouped_tree (t : Term) : (t.tree before).Grouped before := by
  cases t <;> simp [Term.tree, Tree.Grouped]

/-- **The tree of an expression is grouped**, if `before` orders operators as levels would. -/
theorem Expression.grouped_tree
    (trans : ∀ p q r, before p q = true → before q r = true → before p r = true)
    (negTrans : ∀ p q r, before p q = false → before q r = false → before p r = false) :
    (x : Expression) → (x.tree before).Grouped before
  | .single t => t.grouped_tree before
  | .chain t _ rest => Tree.grouped_prepend trans negTrans (t.operators_tree before)
      (t.grouped_tree before) (rest.grouped_tree trans negTrans)

end

/-! ## Expressions as phrases -/

mutual

/-- A phrase that begins with a term. -/
def Term.then (rest : Phrase) : Term → Phrase
  | .value token => .plain token rest
  | .group opening inner closing => .bracket none opening (.last inner.toPhrase) closing rest
  | .bare name opening closing => .bracket (some name) opening (.last .nil) closing rest
  | .call name opening args closing =>
    .bracket (some name) opening args.toPhrases closing rest

/-- An expression as a phrase. -/
def Expression.toPhrase : Expression → Phrase
  | .single term => term.then .nil
  | .chain term operator rest => term.then (.plain operator rest.toPhrase)

/-- Arguments as phrases. -/
def Arguments.toPhrases : Arguments → Phrases
  | .last arg => .last arg.toPhrase
  | .more arg separator rest => .more arg.toPhrase separator rest.toPhrases

end

mutual

theorem Term.tokens_then (rest : Phrase) :
    (t : Term) → (t.then rest).tokens = t.tokens ++ rest.tokens
  | .value token => rfl
  | .group o inner c => by
    simp [Term.then, Term.tokens, Phrase.tokens, Phrases.tokens, inner.tokens_toPhrase]
  | .bare name o c => by simp [Term.then, Term.tokens, Phrase.tokens, Phrases.tokens]
  | .call name o args c => by simp [Term.then, Term.tokens, Phrase.tokens, args.tokens_toPhrases]

theorem Expression.tokens_toPhrase : (x : Expression) → x.toPhrase.tokens = x.tokens
  | .single t => by simp [Expression.toPhrase, Expression.tokens, t.tokens_then, Phrase.tokens]
  | .chain t o rest => by
    simp [Expression.toPhrase, Expression.tokens, t.tokens_then, Phrase.tokens,
      rest.tokens_toPhrase]

theorem Arguments.tokens_toPhrases : (as : Arguments) → as.toPhrases.tokens = as.tokens
  | .last x => x.tokens_toPhrase
  | .more x s rest => by
    simp [Arguments.toPhrases, Arguments.tokens, Phrases.tokens, x.tokens_toPhrase,
      rest.tokens_toPhrases]

end

theorem Term.then_ne_nil (t : Term) (rest : Phrase) : t.then rest ≠ .nil := by
  cases t <;> simp [Term.then]

theorem Expression.toPhrase_ne_nil (x : Expression) : x.toPhrase ≠ .nil := by
  cases x <;> simp [Expression.toPhrase, Term.then_ne_nil]

theorem Arguments.toPhrases_ne_nil (as : Arguments) : as.toPhrases ≠ .last .nil := by
  cases as <;> simp [Arguments.toPhrases, Expression.toPhrase_ne_nil]

mutual

theorem Term.Proper.matched {rest : Phrase} (hrest : rest.Matched) :
    {t : Term} → t.Proper → (t.then rest).Matched
  | .value token, h => by
    refine ⟨?_, ?_, ?_, hrest⟩ <;> cases hk : token.kind <;>
      simp_all [Term.Proper, Kind.isValue, Kind.weight]
  | .group o inner c, ⟨ho, hi, hc⟩ => ⟨by simp, ho, hi.matched, hc, hrest⟩
  | .bare name o c, ⟨hn, ho, hc⟩ => ⟨by simpa using hn, ho, trivial, hc, hrest⟩
  | .call name o args c, ⟨hn, ho, ha, hc⟩ => ⟨by simpa using hn, ho, ha.matched, hc, hrest⟩

theorem Expression.Proper.matched : {x : Expression} → x.Proper → x.toPhrase.Matched
  | .single _, h => Term.Proper.matched (show Phrase.nil.Matched from trivial) h
  | .chain t o rest, ⟨ht, ho, hr⟩ => by
    have hrest : (Phrase.plain o rest.toPhrase).Matched :=
      ⟨by simp [ho, Kind.weight], by simp [ho], by simp [ho], hr.matched⟩
    exact Term.Proper.matched hrest ht

theorem Arguments.Proper.matched : {as : Arguments} → as.Proper → as.toPhrases.Matched
  | .last _, h => Expression.Proper.matched h
  | .more _ _ _, ⟨hx, hs, hr⟩ => ⟨hx.matched, hs, hr.matched⟩

end

@[simp] theorem Arguments.arguments_last (x : Expression) :
    (Arguments.last x).toPhrases.arguments = [x.toPhrase] :=
  Phrases.arguments_of_ne (Arguments.last x).toPhrases_ne_nil

@[simp] theorem Arguments.arguments_more (x : Expression) (separator : Token) (rest : Arguments) :
    (Arguments.more x separator rest).toPhrases.arguments
      = x.toPhrase :: rest.toPhrases.arguments := by
  rw [Phrases.arguments_of_ne rest.toPhrases_ne_nil]
  exact Phrases.arguments_of_ne (Arguments.more x separator rest).toPhrases_ne_nil

theorem Arguments.ne_nil_of_mem : (as : Arguments) → ∀ p ∈ as.toPhrases.arguments, p ≠ .nil
  | .last x => by simpa using x.toPhrase_ne_nil
  | .more x s rest => by simpa [x.toPhrase_ne_nil] using rest.ne_nil_of_mem

theorem Arguments.length_arguments : (as : Arguments) →
    as.toPhrases.arguments.length = as.count
  | .last x => by simp [Arguments.count]
  | .more x s rest => by simp [Arguments.count, rest.length_arguments]

section

variable {operators : Table Operator} {limit : Int}

mutual

theorem Term.sound {rest : Phrase} (hrest : rest.Sound operators limit) :
    (t : Term) → t.Proper → t.Valid operators limit → (t.then rest).Sound operators limit
  | .value _, hp, _ => ⟨.inl hp, hrest⟩
  | .group _ inner _, ⟨_, hi, _⟩, hv =>
    ⟨⟨_, rfl, inner.toPhrase_ne_nil⟩, inner.sound hi hv, hrest⟩
  | .bare _ _ _, _, _ => ⟨⟨by simp [Phrases.arguments], .inl rfl⟩, trivial, hrest⟩
  | .call _ _ args _, ⟨_, _, ha, _⟩, ⟨hcount, hv⟩ =>
    ⟨⟨args.ne_nil_of_mem, .inr (by rwa [args.length_arguments])⟩, args.sound ha hv, hrest⟩

theorem Expression.sound : (x : Expression) → x.Proper → x.Valid operators limit →
    x.toPhrase.Sound operators limit
  | .single t, hp, hv => Term.sound (show Phrase.nil.Sound operators limit from trivial) t hp hv
  | .chain t o rest, ⟨ht, ho, hr⟩, ⟨hvt, hvo, hvr⟩ => by
    have hrest : (Phrase.plain o rest.toPhrase).Sound operators limit :=
      ⟨.inr ⟨ho, hvo⟩, rest.sound hr hvr⟩
    exact Term.sound hrest t ht hvt

theorem Arguments.sound : (as : Arguments) → as.Proper → as.Valid operators limit →
    as.toPhrases.Sound operators limit
  | .last x, hp, hv => x.sound hp hv
  | .more x _ rest, ⟨hx, _, hr⟩, ⟨hvx, hvr⟩ => ⟨x.sound hx hvx, rest.sound hr hvr⟩

end

end

end Polish
