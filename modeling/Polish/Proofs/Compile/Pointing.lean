import Polish.Proofs.Compile.Acceptance
import Polish.Proofs.Compile.Nesting

/-!
# Where a compilation points

A compilation that fails names a token and its number.  The token is the one with that number, and
a bracket that is called unmatched has no partner: `Partners` says which brackets belong together,
for brackets that match or not.

From the left, an opening bracket turns out to be unmatched at the end of a scan, and from the right
when it is scanned; for closing brackets it is the other way round.  Each time it is the last
opening bracket without a partner or the first such closing bracket, so the two notations agree on
the bracket unless there are some of both kinds.

* `IsOpen.partnerless` and `ClosesNothing.partnerless` — what is blamed has no partner;
* `Engine.compile_points` — where a compilation points, and that both notations point at the same
  bracket.

## How the proof goes

What is known of a blamed bracket comes from the scan that found it: everything behind it matches,
or everything before it does (`Points`).  That it has no partner follows, since a partner would
leave one bracket more on that side than match.  The same argument shows that there is only one
opening bracket of this sort and only one closing one, and so two scans that blame brackets of one
kind blame the same one.

The messages come into it because the theorem speaks about what a user sees.  Two defects with one
message would make it false, so `eq_of_message` looks at all of them, and at names that may contain
anything: an unknown token is quoted and an unknown operator named, and neither can read like the
message about an unmatched bracket.
-/

set_option autoImplicit false

namespace Polish

/-! ## Messages -/

namespace Defect

theorem ne_of_beginning {beginning rest text : String}
    (h : ¬ beginning.toList <+: text.toList) : beginning ++ rest ≠ text := by
  rintro rfl
  rw [String.toList_append] at h
  exact h (List.prefix_append _ _)

theorem message_unknownKind (text : String) :
    (unknownKind text).message = "Unknown token " ++ Text.quoted text := by
  unfold message
  dsimp only
  rfl

theorem message_unknownOperator (symbol : String) :
    (unknownOperator symbol).message = "Invalid operator \"" ++ (symbol ++ "\"") := by
  unfold message
  dsimp only
  rw [String.append_assoc]
  rfl

/-- Only an unmatched bracket is called one. -/
theorem eq_of_message {d e : Defect} (he : e = .unmatchedOpen ∨ e = .unmatchedClose)
    (h : d.message = e.message) : d = e := by
  have hbegins : ¬ "Unknown token ".toList <+: e.message.toList ∧
      ¬ "Invalid operator \"".toList <+: e.message.toList := by
    rcases he with rfl | rfl <;> decide
  cases d with
  | unknownKind text =>
    rw [message_unknownKind] at h
    exact absurd h (ne_of_beginning hbegins.1)
  | unknownOperator symbol =>
    rw [message_unknownOperator] at h
    exact absurd h (ne_of_beginning hbegins.2)
  | _ => rcases he with rfl | rfl <;> revert h <;> decide

end Defect

/-! ## Partners -/

/-- The opening bracket with the number `i` and the closing one with the number `j` belong together:
between them, all brackets match. -/
def Partners (tokens : List Token) (i j : Nat) : Prop :=
  ∃ (before : List Token) (o : Token) (inner : List Token) (c : Token) (after : List Token),
    tokens = before ++ o :: (inner ++ c :: after) ∧ before.length = i ∧
      (before ++ o :: inner).length = j ∧ o.kind = .openBracket ∧ c.kind = .closeBracket ∧
      Balanced inner

/-- A bracket that belongs together with no other one. -/
def Partnerless (tokens : List Token) (i : Nat) (t : Token) : Prop :=
  tokens[i]? = some t ∧ (t.kind = .openBracket ∨ t.kind = .closeBracket) ∧
    ∀ j, ¬ Partners tokens i j ∧ ¬ Partners tokens j i

theorem Partners.kinds {tokens : List Token} {i j : Nat} (h : Partners tokens i j) :
    (∃ o, tokens[i]? = some o ∧ o.kind = .openBracket) ∧
      ∃ c, tokens[j]? = some c ∧ c.kind = .closeBracket := by
  obtain ⟨before, o, inner, c, after, rfl, rfl, rfl, ho, hc, -⟩ := h
  refine ⟨⟨o, by simp, ho⟩, c, ?_, hc⟩
  rw [← List.cons_append, ← List.append_assoc]
  simp

namespace Compile

variable {tokens : List Token} {i i' : Nat} {t t' : Token}

theorem IsOpen.kind_eq (h : IsOpen tokens i t) : t.kind = .openBracket := by
  obtain ⟨-, -, -, -, hk, -⟩ := h
  exact hk

theorem ClosesNothing.kind_eq (h : ClosesNothing tokens i t) : t.kind = .closeBracket := by
  obtain ⟨-, -, -, -, hk, -⟩ := h
  exact hk

theorem IsOpen.partnerless (h : IsOpen tokens i t) : Partnerless tokens i t := by
  obtain ⟨before, after, rfl, rfl, ht, hafter⟩ := h
  refine ⟨by simp, .inl ht, fun j => ⟨fun hpartner => ?_, fun hpartner => ?_⟩⟩
  · obtain ⟨before', o, inner, c, rest, heq, hlength, -, -, hc, hinner⟩ := hpartner
    obtain ⟨-, heq⟩ := List.append_inj heq hlength.symm
    rw [List.cons.injEq] at heq
    exact (heq.2 ▸ hafter).not_closer hinner hc
  · obtain ⟨c, hget, hc⟩ := hpartner.kinds.2
    have heq : t = c := by simpa using hget
    rw [← heq, ht] at hc
    cases hc

theorem ClosesNothing.partnerless (h : ClosesNothing tokens i t) : Partnerless tokens i t := by
  obtain ⟨before, after, rfl, rfl, ht, hbefore⟩ := h
  refine ⟨by simp, .inr ht, fun j => ⟨fun hpartner => ?_, fun hpartner => ?_⟩⟩
  · obtain ⟨o, hget, ho⟩ := hpartner.kinds.1
    have heq : t = o := by simpa using hget
    rw [← heq, ht] at ho
    cases ho
  · obtain ⟨before', o, inner, c, rest, heq, -, hlength, ho, -, hinner⟩ := hpartner
    rw [← List.cons_append, ← List.append_assoc] at heq
    obtain ⟨heq, -⟩ := List.append_inj heq hlength.symm
    exact (heq ▸ hbefore).not_opener hinner ho

/-- There is only one opening bracket after which all brackets match. -/
theorem IsOpen.unique (h : IsOpen tokens i t) (h' : IsOpen tokens i' t') : i = i' ∧ t = t' := by
  obtain ⟨before, after, rfl, rfl, ht, hafter⟩ := h
  obtain ⟨before', after', heq, rfl, ht', hafter'⟩ := h'
  obtain ⟨rfl, rfl, -⟩ := Balanced.opener_unique heq hafter hafter' ht ht'
  exact ⟨rfl, rfl⟩

/-- There is only one closing bracket before which all brackets match. -/
theorem ClosesNothing.unique (h : ClosesNothing tokens i t) (h' : ClosesNothing tokens i' t') :
    i = i' ∧ t = t' := by
  obtain ⟨before, after, rfl, rfl, ht, hbefore⟩ := h
  obtain ⟨before', after', heq, rfl, ht', hbefore'⟩ := h'
  obtain ⟨rfl, rfl, -⟩ := Balanced.partner_unique heq hbefore hbefore' ht ht'
  exact ⟨rfl, rfl⟩

/-- What is called an unmatched bracket is one. -/
theorem Points.unmatched {e : CompileError} (h : Points tokens e)
    (he : e.defect = .unmatchedOpen ∨ e.defect = .unmatchedClose) :
    IsOpen tokens e.index e.token ∨ ClosesNothing tokens e.index e.token :=
  he.imp h.unmatchedOpen h.unmatchedClose

end Compile

/-! ## Compilations -/

namespace Engine

open Compile

variable {e : Engine} {sheet : Sheet} {tokens : List Token}

theorem points_of_compile {m : Mode} {source : Option String} {error : CompileError}
    (h : e.compile sheet tokens m.name source = .error (.compile error)) : Points tokens error := by
  rw [compile_name] at h
  exact Job.run_points error h

/-- **A compilation points at the defect.**  The token that it names is the one with the number that
it names, and the position is that of the token.  What it calls an unmatched bracket is a bracket of
that kind without a partner.  And if all brackets without a partner are of one kind, compilations
that call a bracket unmatched name the same one, whatever the notations. -/
theorem compile_points (e : Engine) (sheet : Sheet) (tokens : List Token) :
    (∀ (m : Mode) (source : Option String) (error : CompileError),
      e.compile sheet tokens m.name source = .error (.compile error) →
        error.index < tokens.length ∧ tokens[error.index]? = some error.token ∧
        (Failure.compile error).position = some error.token.pos ∧
        ((Failure.compile error).message = "Unmatched opening bracket" →
          error.token.kind = .openBracket ∧ Partnerless tokens error.index error.token) ∧
        ((Failure.compile error).message = "Unmatched closing bracket" →
          error.token.kind = .closeBracket ∧ Partnerless tokens error.index error.token)) ∧
    ((∀ i j t u, Partnerless tokens i t → Partnerless tokens j u → t.kind = u.kind) →
      ∀ (m m' : Mode) (source source' : Option String) (error error' : CompileError),
        e.compile sheet tokens m.name source = .error (.compile error) →
        e.compile sheet tokens m'.name source' = .error (.compile error') →
        (Failure.compile error).message ∈
          ["Unmatched opening bracket", "Unmatched closing bracket"] →
        (Failure.compile error').message ∈
          ["Unmatched opening bracket", "Unmatched closing bracket"] →
        error.index = error'.index ∧ error.token = error'.token) := by
  have hopen {error : CompileError}
      (h : (Failure.compile error).message = "Unmatched opening bracket") :
      error.defect = .unmatchedOpen := Defect.eq_of_message (.inl rfl) h
  have hclose {error : CompileError}
      (h : (Failure.compile error).message = "Unmatched closing bracket") :
      error.defect = .unmatchedClose := Defect.eq_of_message (.inr rfl) h
  refine ⟨fun m source error h => ?_, fun hkind m m' source source' error error' h h' hm hm' => ?_⟩
  · have hpoints := points_of_compile h
    refine ⟨(List.getElem?_eq_some_iff.1 hpoints.located).1, hpoints.located, rfl,
      fun hmessage => ?_, fun hmessage => ?_⟩
    · have hisOpen := hpoints.unmatchedOpen (hopen hmessage)
      exact ⟨hisOpen.kind_eq, hisOpen.partnerless⟩
    · have hcloses := hpoints.unmatchedClose (hclose hmessage)
      exact ⟨hcloses.kind_eq, hcloses.partnerless⟩
  · simp only [List.mem_cons, List.not_mem_nil, or_false] at hm hm'
    -- If the brackets without a partner are of one kind, the modes cannot blame different ones.
    have hnever {i j : Nat} {t u : Token} (ht : IsOpen tokens i t) (hu : ClosesNothing tokens j u) :
        False := by
      have heq := hkind i j t u ht.partnerless hu.partnerless
      rw [ht.kind_eq, hu.kind_eq] at heq
      cases heq
    have hfirst := (points_of_compile h).unmatched (hm.imp hopen hclose)
    have hsecond := (points_of_compile h').unmatched (hm'.imp hopen hclose)
    rcases hfirst with ht | ht
    · rcases hsecond with hu | hu
      · exact ht.unique hu
      · exact (hnever ht hu).elim
    · rcases hsecond with hu | hu
      · exact (hnever hu ht).elim
      · exact ht.unique hu

/-- In `((1+(2)` two brackets are not closed.  Both notations name the inner one of them, which has
no partner. -/
theorem compile_points_inner : ∃ (tokens : List Token) (error error' : CompileError),
    tokens.map Token.text = ["(", "(", "1", "+", "(", "2", ")"] ∧
      standard.compile .empty tokens Mode.rpn.name none = .error (.compile error) ∧
      standard.compile .empty tokens Mode.pn.name none = .error (.compile error') ∧
      Partnerless tokens error.index error.token ∧ error.index = 1 ∧
      error.index = error'.index ∧ error.token = error'.token := by
  let tokens : List Token := [⟨.openBracket, "(", 0, 0⟩, ⟨.openBracket, "(", 1, 1⟩,
    ⟨.number, "1", 2, 2⟩, ⟨.operator, "+", 3, 3⟩, ⟨.openBracket, "(", 4, 4⟩, ⟨.number, "2", 5, 5⟩,
    ⟨.closeBracket, ")", 6, 6⟩]
  let error : CompileError := ⟨.unmatchedOpen, 1, ⟨.openBracket, "(", 1, 1⟩, none⟩
  have hrpn : standard.compile .empty tokens Mode.rpn.name none = .error (.compile error) := rfl
  have hpn : standard.compile .empty tokens Mode.pn.name none = .error (.compile error) := rfl
  -- The one closing bracket has a partner, so what has none is an opening bracket.
  have hpartners : Partners tokens 4 6 :=
    ⟨tokens.take 4, tokens[4], [tokens[5]], tokens[6], [], rfl, rfl, rfl, rfl, rfl, .singleton rfl⟩
  have honly : ∀ k : Fin tokens.length, tokens[k].kind = .closeBracket → k.val = 6 := by decide
  have hkind (i : Nat) (t : Token) (h : Partnerless tokens i t) : t.kind = .openBracket := by
    refine h.2.1.resolve_right fun hclosed => ?_
    obtain ⟨hi, rfl⟩ := List.getElem?_eq_some_iff.1 h.1
    obtain rfl := honly ⟨i, hi⟩ hclosed
    exact (h.2.2 4).2 hpartners
  have hpoints := compile_points standard .empty tokens
  obtain ⟨hindex, htoken⟩ := hpoints.2
    (fun i j t u ht hu => (hkind i t ht).trans (hkind j u hu).symm) .rpn .pn none none error error
    hrpn hpn List.mem_cons_self List.mem_cons_self
  exact ⟨tokens, error, error, rfl, hrpn, hpn,
    ((hpoints.1 .rpn none error hrpn).2.2.2.1 rfl).2, rfl, hindex, htoken⟩

end Engine

end Polish
