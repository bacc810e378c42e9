import Polish.Proofs.Compile.Contents
import Polish.Proofs.Compile.Steady
import Polish.Proofs.Evaluate.Expression
import Polish.Proofs.Evaluate.Run
import Polish.Proofs.Function.Draws

/-!
# What an evaluation looks up

An evaluation looks up what its tokens stand for: those of its listing and, when it comes to a
call, those of the arguments on the sheet.  A compilation puts no other tokens there than those that
it was given.  So an engine whose registries agree with those of another one on the tokens of a
text, as `Registries.AgreeOn` says, finds the same value or fails in the same way, as long as the
same numbers come up for the tokens whose functions draw any.

Two evaluations are compared here at once that differ in both, in the registries that they look
things up in and in the numbers that come up.  What they have to have in common is said token by
token, `Alike`, and each of the functions that make up an evaluation is gone through once.

* `Job.evaluate_names` — an evaluation depends on no more than what the tokens that it meets name,
  and on what is drawn for them;
* `Engine.evaluate_of_alike` — two engines that read a text alike and find the same behind its
  tokens;
* `Engine.evaluate_draws` — so a text that draws nothing has one value, whatever comes up.
-/

set_option autoImplicit false

namespace Polish

namespace Evaluate

/-- Two evaluations find the same behind a token: the registries give its name the same meaning, and
the same numbers come up for it, unless nothing is drawn on its behalf. -/
structure Alike (r r' : Registries) (draws draws' : Draws) (t : Token) : Prop where
  agree : r.AgreeOn r' t.text
  drawn : draws t.handle = draws' t.handle ∨ r'.DrawsNothing t.text

namespace Job

/-- The same evaluation when other numbers come up. -/
def drawing (job : Job) (draws : Draws) : Job := { job with draws }

variable {job : Job} {draws' : Draws} {frame : Frame} {r r' : Registries} {sheet : Sheet}
  {listed : Token → Prop}

/-- All arguments on the sheet are made of listed tokens. -/
def SheetOf (listed : Token → Prop) (sheet : Sheet) : Prop :=
  ∀ handle args, sheet.args? handle = some args → ∀ list ∈ args, ∀ t ∈ list, listed t

/-- Two ways to evaluate arguments do the same, each with its own registries. -/
def Indifferent (sheet : Sheet) (r r' : Registries) (listed : Token → Prop) :
    Option Argument → Option Argument → Prop :=
  Option.Rel fun argument argument' => ∀ caller list, (∀ t ∈ list, listed t) →
    (argument caller list).eager ⟨r, sheet⟩ = (argument' caller list).eager ⟨r', sheet⟩

variable {deeper deeper' : Option Argument}

theorem argumentValues_names {argument argument' : List Token → Run Float}
    {args : List (List Token)}
    (h : ∀ list ∈ args, (argument list).eager ⟨r, sheet⟩ = (argument' list).eager ⟨r', sheet⟩) :
    (argumentValues argument args).eager ⟨r, sheet⟩
      = (argumentValues argument' args).eager ⟨r', sheet⟩ := by
  induction args with
  | nil => rfl
  | cons list rest ih =>
    have hrest := ih fun other hother => h other (List.mem_cons_of_mem list hother)
    simp only [argumentValues, Stepwise.bind_eq, Stepwise.eager_bind, h list List.mem_cons_self,
      hrest]
    rfl

/-- The functions of the registries are not asked for anything else, and numbers come up only for
the token that a function is applied for. -/
theorem apply_names {function : Function} {token : Token}
    (h : job.draws token.handle = draws' token.handle ∨ function.DrawsNothing)
    (now now' : Surroundings) (args : List Float) (stack : List Float) :
    (job.apply function args token stack).eager now
      = ((job.drawing draws').apply function args token stack).eager now' := by
  have hresult : function (job.draws token.handle) args
      = function ((job.drawing draws').draws token.handle) args := by
    rcases h with hsame | hnothing
    · rw [hsame]
      rfl
    · exact hnothing ..
  rw [apply, apply, hresult]
  cases function ((job.drawing draws').draws token.handle) args <;> rfl

theorem call_names {token : Token} (htoken : Alike r r' job.draws draws' token)
    (hsheet : SheetOf listed sheet) (hdeeper : Indifferent sheet r r' listed deeper deeper')
    (index : Nat) (stack : List Float) :
    (job.call frame deeper token index stack).eager ⟨r, sheet⟩
      = ((job.drawing draws').call frame deeper' token index stack).eager ⟨r', sheet⟩ := by
  rw [call, call, Stepwise.eager_look, Stepwise.eager_look]
  simp only [htoken.agree.functions]
  cases hfunction : r'.functions.find? token.text with
  | none => rfl
  | some function =>
    dsimp only
    cases hargs : sheet.args? token.handle with
    | none => rfl
    | some args =>
      dsimp only
      cases hdeeper with
      | none => rfl
      | @some argument argument' hargument =>
        have hvalues : (argumentValues (argument token) args).eager ⟨r, sheet⟩
            = (argumentValues (argument' token) args).eager ⟨r', sheet⟩ :=
          argumentValues_names fun list hlist =>
            hargument token list (hsheet _ args hargs list hlist)
        have hdrawn := htoken.drawn.imp_right fun h => h.functions function hfunction
        have happly (values : List Float) :=
          apply_names hdrawn ⟨r, sheet⟩ ⟨r', sheet⟩ values stack
        simp only [Stepwise.bind_eq, Stepwise.eager_bind, hvalues, happly]
        rfl

theorem single_names {token : Token} (htoken : Alike r r' job.draws draws' token)
    (hsheet : SheetOf listed sheet) (hdeeper : Indifferent sheet r r' listed deeper deeper')
    (index : Nat) (stack : List Float) :
    (job.single frame deeper token index stack).eager ⟨r, sheet⟩
      = ((job.drawing draws').single frame deeper' token index stack).eager ⟨r', sheet⟩ := by
  rw [single, single]
  cases token.kind with
  | number =>
    dsimp only [number]
    cases Literal.read? token.text <;> rfl
  | constant =>
    dsimp only [constant]
    rw [Stepwise.eager_look, Stepwise.eager_look]
    simp only [htoken.agree.constants]
    cases r'.constants.find? token.text <;> rfl
  | call => exact call_names htoken hsheet hdeeper index stack
  | operator =>
    dsimp only [operator]
    rw [show (job.drawing draws').operands? stack = job.operands? stack from rfl]
    cases job.operands? stack with
    | none => rfl
    | some found =>
      obtain ⟨left, right, below⟩ := found
      rw [Stepwise.eager_look, Stepwise.eager_look]
      simp only [htoken.agree.operators]
      cases hoperator : r'.operators.find? token.text with
      | none => rfl
      | some op =>
        -- The same numbers come up at this token, or its operator does not draw.
        have hdrawn := htoken.drawn.imp_right fun h => h.operators op hoperator
        have happly := apply_names hdrawn ⟨r, sheet⟩ ⟨r', sheet⟩ [left, right] below
        simp only [Stepwise.bind_eq, Stepwise.eager_bind, happly]
        rfl
  | openBracket | closeBracket | separator | other => rfl

theorem tokens_names (h : ∀ t, listed t → Alike r r' job.draws draws' t)
    (hsheet : SheetOf listed sheet) (hdeeper : Indifferent sheet r r' listed deeper deeper')
    (list : List (Token × Nat)) (hlist : ∀ entry ∈ list, listed entry.1) (stack : List Float) :
    (job.tokens frame deeper list stack).eager ⟨r, sheet⟩
      = ((job.drawing draws').tokens frame deeper' list stack).eager ⟨r', sheet⟩ := by
  induction list generalizing stack with
  | nil => rfl
  | cons entry rest ih =>
    obtain ⟨token, index⟩ := entry
    obtain ⟨hentry, hrest⟩ := List.forall_mem_cons.1 hlist
    simp only [tokens_cons, Stepwise.eager_bind, single_names (h _ hentry) hsheet hdeeper, ih hrest]

theorem listing_names (h : ∀ t, listed t → Alike r r' job.draws draws' t)
    (hsheet : SheetOf listed sheet) (hdeeper : Indifferent sheet r r' listed deeper deeper')
    (list : List Token) (hlist : ∀ t ∈ list, listed t) :
    (job.listing frame deeper list).eager ⟨r, sheet⟩
      = ((job.drawing draws').listing frame deeper' list).eager ⟨r', sheet⟩ := by
  have hentries : ∀ entry ∈ job.mode.scanOrder list.zipIdx, listed entry.1 := by
    intro entry hentry
    have hmem := (job.mode.scanOrder_perm list.zipIdx).mem_iff.1 hentry
    exact hlist _ (List.fst_mem_of_mem_zipIdx hmem)
  show ((job.tokens frame deeper _ []).bind _).eager _
    = (((job.drawing draws').tokens frame deeper' _ []).bind _).eager _
  rw [Stepwise.eager_bind, Stepwise.eager_bind, tokens_names h hsheet hdeeper _ hentries]
  congr 1
  funext stack
  split <;> rfl

/-- **An evaluation looks up no more than what the tokens that it meets name**, and draws for no
others. -/
theorem evaluate_names (h : ∀ t, listed t → Alike r r' job.draws draws' t)
    (hsheet : SheetOf listed sheet) (levels : Nat) (frame : Frame) (list : List Token)
    (hlist : ∀ t ∈ list, listed t) :
    (job.evaluate levels frame list).eager ⟨r, sheet⟩
      = ((job.drawing draws').evaluate levels frame list).eager ⟨r', sheet⟩ := by
  induction levels generalizing frame list with
  | zero => exact listing_names h hsheet .none list hlist
  | succ levels ih =>
    refine listing_names h hsheet (.some fun caller list hlist => ?_) list hlist
    exact ih _ list hlist

theorem run_names (h : ∀ t, listed t → Alike r r' job.draws draws' t)
    (hsheet : SheetOf listed sheet) (list : List Token) (hlist : ∀ t ∈ list, listed t) :
    (job.run list).eager ⟨r, sheet⟩ = ((job.drawing draws').run list).eager ⟨r', sheet⟩ := by
  show ((job.evaluate _ _ list).bind _).eager _
    = (((job.drawing draws').evaluate _ _ list).bind _).eager _
  rw [Stepwise.eager_bind, Stepwise.eager_bind, evaluate_names h hsheet _ _ list hlist]
  rfl

end Job

end Evaluate

/-! ## Engines that find the same -/

namespace Engine

open Evaluate (Draws Alike)

variable {e e' : Engine} {draws draws' : Draws}

/-- Engines that agree on some tokens compile them alike. -/
theorem compile_of_agree (hlimits : e.limits = e'.limits) {tokens : List Token}
    (h : ∀ t ∈ tokens, e.registries.AgreeOn e'.registries t.text) (sheet : Sheet) (mode : String)
    (source : Option String) :
    e.compile sheet tokens mode source = e'.compile sheet tokens mode source := by
  rw [compile, compile, compilation, compilation]
  cases modeNamed mode with
  | error failure => rfl
  | ok m =>
    rw [hlimits]
    exact Compile.Job.run_names ⟨m, e'.limits, source, tokens⟩ h

/-- Engines that find the same behind the tokens of a listing and of its arguments evaluate it
alike. -/
theorem evaluateListing_of_alike (hlimits : e.limits = e'.limits) {listed : Token → Prop}
    (h : ∀ t, listed t → Alike e.registries e'.registries draws draws' t) {sheet : Sheet}
    (hsheet : Evaluate.Job.SheetOf listed sheet) {listing : List Token}
    (hlisting : ∀ t ∈ listing, listed t) (mode : String) (source : Option String) :
    e.evaluateListing draws sheet listing mode source
      = e'.evaluateListing draws' sheet listing mode source := by
  rw [evaluateListing, evaluateListing, evaluation, evaluation]
  cases modeNamed mode with
  | error failure => rfl
  | ok m =>
    dsimp only
    rw [hlimits, Stepwise.eager_attempt, Stepwise.eager_attempt]
    let job : Evaluate.Job := ⟨m, e'.limits, source, draws⟩
    exact job.run_names h hsheet listing hlisting

/-- **Engines that read a text alike and find the same behind its tokens** find the same value or
fail in the same way. -/
theorem evaluate_of_alike (hlimits : e.limits = e'.limits) {text : String}
    (htokenize : e.tokenize text = e'.tokenize text)
    (h : ∀ tokens, e.tokenize text = .ok tokens → ∀ t ∈ tokens,
      Alike e.registries e'.registries draws draws' t) (mode : String) :
    e.evaluate draws text mode = e'.evaluate draws' text mode := by
  rw [evaluate, evaluate, ← htokenize]
  cases htokens : e.tokenize text with
  | error failure => rfl
  | ok tokens =>
    have halike := h tokens htokens
    have hagree : ∀ t ∈ tokens, e.registries.AgreeOn e'.registries t.text :=
      fun t ht => (halike t ht).agree
    -- The tokens that are evaluated are among those of the text, so the two agree on them.
    have hvalue (c : Compile.Compiled) (hc : e'.compile .empty tokens mode (some text) = .ok c) :
        e.evaluateListing draws (Sheet.empty.attachAll c.attached) c.listing mode (some text)
          = e'.evaluateListing draws' (Sheet.empty.attachAll c.attached) c.listing mode
              (some text) := by
      obtain ⟨hlisting, hattached⟩ := compile_subset hc
      refine evaluateListing_of_alike hlimits halike (fun handle args hargs list hlist t ht => ?_)
        (fun t ht => hlisting ht) mode (some text)
      rcases Sheet.mem_of_args?_attachAll hargs with hentry | hempty
      · exact hattached _ hentry list hlist ht
      · cases hempty
    show ((e.compile .empty tokens mode (some text)).bind _)
      = ((e'.compile .empty tokens mode (some text)).bind _)
    rw [compile_of_agree hlimits hagree, Registries.firstUnknown?_congr hagree]
    cases hcompile : e'.compile .empty tokens mode (some text) with
    | error failure => rfl
    | ok c => simp only [Except.bind, hvalue c hcompile]

/-! ## Texts that draw nothing -/

/-- No token of a text stands for a function or an operator that draws. -/
def DrawsNothing (e : Engine) (text : String) : Prop :=
  ∀ tokens, e.tokenize text = .ok tokens → ∀ t ∈ tokens, e.registries.DrawsNothing t.text

/-- **A text that draws nothing has one value**, or fails in one way, whatever comes up. -/
theorem evaluate_draws {text : String} (h : e.DrawsNothing text) (draws draws' : Draws)
    (mode : String) : e.evaluate draws text mode = e.evaluate draws' text mode :=
  evaluate_of_alike rfl rfl
    (fun tokens htokens t ht => ⟨⟨rfl, rfl, rfl⟩, .inr (h tokens htokens t ht)⟩) mode

end Engine

end Polish
