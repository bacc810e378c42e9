import Polish.Proofs.Compile.Blame

/-!
# Brackets in a scan

Whatever has been scanned, the groups of the state are the brackets that are open in it, and the
brackets on the stack are those of the groups.  So a bracket that finds no group has nothing but
matching brackets before it in the scan, and the innermost group that is left has nothing but
matching brackets after it.

* `Nested` — scanned tokens and the groups that are open in them;
* `State.Fits` — a state that has come of scanning some tokens: of its groups, and of everything
  else that is remembered with its number, the token with that number is the one remembered;
* `Leads` — a computation whose answers are such and that blames only what is to blame;
* `Job.run_points` — what is blamed is where it is said to be, and of unmatched brackets either
  everything after it matches or everything before it.

## How the proof goes

Both directions are treated at once.  What differs between them is put into four definitions, the
kind of bracket that is met first, the kind that is met afterwards, and what each of them is blamed
for, and a list is always looked at in the order of its scan.

`Nested` is an inductive relation, because that is how groups come about: something with matching
brackets, then a bracket that opens a group, then something with matching brackets, and so on.  A
closing bracket takes the last two parts together.  `State.Fits` adds to it that numbers are right:
every token that a state remembers with a number stands there.  Then a defect has its place by
construction, and that an unmatched bracket really has no partner follows from the shape of
`Nested`: what is around it is balanced on the side that has been scanned.
-/

set_option autoImplicit false

namespace Polish

/-! ## The order of a scan -/

namespace Mode

/-- The kind of the bracket that a scan meets first. -/
def opener : Mode → Kind
  | rpn => .openBracket
  | pn => .closeBracket

/-- The kind of the bracket that a scan meets afterwards. -/
def closer : Mode → Kind
  | rpn => .closeBracket
  | pn => .openBracket

/-- The number of the token that is next when `k` of `n` tokens have been scanned. -/
def number (m : Mode) (n k : Nat) : Nat :=
  match m with
  | rpn => k
  | pn => n - 1 - k

/-- What is wrong with a bracket that a scan meets first, if there is no other one for it. -/
def strayOpener : Mode → Defect
  | rpn => .unmatchedOpen
  | pn => .unmatchedClose

/-- What is wrong with a bracket that a scan meets afterwards, if there is no other one for it. -/
def strayCloser : Mode → Defect
  | rpn => .unmatchedClose
  | pn => .unmatchedOpen

variable {m : Mode}

theorem opener_ne_operator : m.opener ≠ .operator := by cases m <;> decide

theorem length_scanOrder {α : Type} (xs : List α) : (m.scanOrder xs).length = xs.length :=
  (m.scanOrder_perm xs).length_eq

theorem getElem?_number {α : Type} {xs : List α} {k : Nat} (h : k < xs.length) :
    xs[m.number xs.length k]? = (m.scanOrder xs)[k]? := by
  cases m with
  | rpn => rfl
  | pn => exact (List.getElem?_reverse h).symm

end Mode

namespace Balanced

variable {m : Mode} {xs ys : List Token}

theorem scanOrder_append (hx : Balanced (m.scanOrder xs)) (hy : Balanced (m.scanOrder ys)) :
    Balanced (m.scanOrder (xs ++ ys)) := by
  cases m with
  | rpn => exact hx.append hy
  | pn =>
    rw [Mode.scanOrder, List.reverse_append]
    exact hy.append hx

theorem scanOrder_nil : Balanced (m.scanOrder []) := by cases m <;> exact nil

theorem scanOrder_singleton {t : Token} (ht : t.kind.weight = 0) : Balanced (m.scanOrder [t]) := by
  cases m <;> exact singleton ht

theorem scanOrder_enclose {b c : Token} (hb : b.kind = m.opener) (hx : Balanced (m.scanOrder xs))
    (hc : c.kind = m.closer) : Balanced (m.scanOrder (b :: (xs ++ [c]))) := by
  cases m with
  | rpn => exact hx.enclose hb hc
  | pn =>
    rw [Mode.scanOrder, List.reverse_cons, List.reverse_append]
    exact hx.enclose hc hb

end Balanced

namespace Compile

/-! ## Open brackets -/

/-- Tokens in the order in which they were scanned, `n` being the number of all of them, and the
groups that are open in them, the innermost one first. -/
inductive Nested (m : Mode) (n : Nat) : List Token → List Group → Prop
  | flat {scanned : List Token} (h : Balanced (m.scanOrder scanned)) : Nested m n scanned []
  | inside {outer inner : List Token} {group : Group} {around : List Group}
      (houter : Nested m n outer around) (hkind : group.bracket.kind = m.opener)
      (hindex : group.index = m.number n outer.length) (hinner : Balanced (m.scanOrder inner)) :
      Nested m n (outer ++ group.bracket :: inner) (group :: around)

namespace Nested

variable {m : Mode} {n : Nat} {scanned : List Token} {group : Group} {groups around : List Group}

/-- What has matching brackets may come next. -/
theorem append (h : Nested m n scanned groups) {more : List Token}
    (hmore : Balanced (m.scanOrder more)) : Nested m n (scanned ++ more) groups := by
  cases h with
  | flat h => exact .flat (h.scanOrder_append hmore)
  | inside houter hkind hindex hinner =>
    rw [List.append_assoc, List.cons_append]
    exact .inside houter hkind hindex (hinner.scanOrder_append hmore)

/-- A bracket opens a group. -/
theorem opened (h : Nested m n scanned around) (group : Group)
    (hkind : group.bracket.kind = m.opener) (hindex : group.index = m.number n scanned.length) :
    Nested m n (scanned ++ [group.bracket]) (group :: around) :=
  .inside h hkind hindex .scanOrder_nil

/-- The other bracket closes the innermost group. -/
theorem closed (h : Nested m n scanned (group :: around)) {c : Token} (hc : c.kind = m.closer) :
    Nested m n (scanned ++ [c]) around := by
  cases h with
  | inside houter hkind hindex hinner =>
    rw [List.append_assoc]
    exact houter.append (hinner.scanOrder_enclose hkind hc)

/-- The place of a group is all that counts. -/
theorem congr (h : Nested m n scanned (group :: around)) {group' : Group}
    (hbracket : group'.bracket = group.bracket) (hindex : group'.index = group.index) :
    Nested m n scanned (group' :: around) := by
  cases h with
  | inside houter hk hi hinner =>
    rw [← hbracket]
    exact .inside houter (hbracket ▸ hk) (hindex.trans hi) hinner

theorem kind_eq (h : Nested m n scanned groups) : ∀ g ∈ groups, g.bracket.kind = m.opener := by
  induction h with
  | flat => exact fun _ hg => absurd hg List.not_mem_nil
  | inside _ hkind _ _ ih => exact List.forall_mem_cons.2 ⟨hkind, ih⟩

/-- The bracket of a group is the token with the number of the group. -/
theorem located {tokens ahead : List Token} (h : Nested m tokens.length scanned groups)
    (htokens : m.scanOrder tokens = scanned ++ ahead) :
    ∀ g ∈ groups, tokens[g.index]? = some g.bracket := by
  induction h generalizing ahead with
  | flat => exact fun _ hg => absurd hg List.not_mem_nil
  | @inside outer inner group around houter hkind hindex hinner ih =>
    rw [List.append_assoc, List.cons_append] at htokens
    refine List.forall_mem_cons.2 ⟨?_, ih htokens⟩
    have hlength := congrArg List.length htokens
    rw [Mode.length_scanOrder, List.length_append, List.length_cons] at hlength
    rw [hindex, Mode.getElem?_number (by omega), htokens]
    simp

end Nested

/-! ## Tokens at their numbers -/

theorem getElem?_placesIn {before after : Option Token} {index : Nat} {tokens : List Token}
    {k : Nat} {place : Place} (h : (placesIn before index tokens after)[k]? = some place) :
    place.index = index + k ∧ tokens[k]? = some place.token := by
  induction tokens generalizing before index k with
  | nil => simp [placesIn] at h
  | cons t rest ih =>
    cases k with
    | zero =>
      obtain rfl := Option.some.inj h
      exact ⟨rfl, rfl⟩
    | succ k =>
      obtain ⟨hindex, htoken⟩ := ih h
      exact ⟨by omega, htoken⟩

theorem getElem?_of_mem_places {tokens : List Token} {place : Place} (h : place ∈ places tokens) :
    tokens[place.index]? = some place.token := by
  rw [places, placesFrom_eq] at h
  obtain ⟨k, hk⟩ := List.getElem?_of_mem h
  obtain ⟨hindex, htoken⟩ := getElem?_placesIn hk
  rwa [hindex, Nat.zero_add]

theorem map_token_places (m : Mode) (tokens : List Token) :
    (m.scanOrder (places tokens)).map Place.token = m.scanOrder tokens := by
  rw [Mode.map_scanOrder, places, placesFrom_eq, map_token_placesIn]

/-- A place that is next when some tokens have been scanned. -/
structure Place.Next (job : Job) (scanned : List Token) (place : Place) : Prop where
  index : place.index = job.mode.number job.tokens.length scanned.length
  token : ∃ ahead, job.mode.scanOrder job.tokens = scanned ++ place.token :: ahead

namespace Place.Next

variable {job : Job} {scanned : List Token} {place : Place}

theorem located (h : place.Next job scanned) : job.tokens[place.index]? = some place.token := by
  obtain ⟨ahead, hahead⟩ := h.token
  have hlength := congrArg List.length hahead
  rw [Mode.length_scanOrder, List.length_append, List.length_cons] at hlength
  rw [h.index, Mode.getElem?_number (by omega), hahead]
  simp

theorem of_split {visited rest : List Place}
    (h : job.mode.scanOrder (places job.tokens) = visited ++ place :: rest) :
    place.Next job (visited.map Place.token) := by
  have htokens := map_token_places job.mode job.tokens
  rw [h, List.map_append, List.map_cons] at htokens
  refine ⟨?_, _, htokens.symm⟩
  have hlength : (places job.tokens).length = job.tokens.length := by
    rw [places, placesFrom_eq, ← List.length_map Place.token, map_token_placesIn]
  have hsplit := congrArg List.length h
  rw [Mode.length_scanOrder, List.length_append, List.length_cons] at hsplit
  have hk : (places job.tokens)[job.mode.number (places job.tokens).length visited.length]?
      = some place := by
    rw [Mode.getElem?_number (by omega), h]
    simp
  rw [hlength, places, placesFrom_eq] at hk
  rw [List.length_map, (getElem?_placesIn hk).1, Nat.zero_add]

end Place.Next

/-! ## What a state knows -/

/-- The brackets on a stack, on which all other tokens are operators. -/
def brackets (stack : List Token) : List Token := stack.filter (·.kind ≠ .operator)

theorem brackets_operator {t : Token} {stack : List Token} (h : t.kind = .operator) :
    brackets (t :: stack) = brackets stack := List.filter_cons_of_neg (by simp [h])

theorem brackets_opener {m : Mode} {t : Token} {stack : List Token} (h : t.kind = m.opener) :
    brackets (t :: stack) = t :: brackets stack :=
  List.filter_cons_of_pos (by simp [h, Mode.opener_ne_operator])

/-- A state that has come of scanning some tokens. -/
structure State.Fits (job : Job) (scanned : List Token) (s : State) : Prop where
  nested : Nested job.mode job.tokens.length scanned s.groups
  stack : brackets s.operators = s.groups.map Group.bracket
  separators : ∀ g ∈ s.groups, ∀ separator ∈ g.separator,
    job.tokens[separator.2]? = some separator.1
  pending : ∀ g ∈ s.pending, job.tokens[g.index]? = some g.bracket

namespace State.Fits

variable {job : Job} {scanned : List Token} {s : State} {group : Group} {around : List Group}

theorem start : State.start.Fits job [] :=
  ⟨.flat .scanOrder_nil, rfl, fun _ hg => absurd hg List.not_mem_nil, fun _ hg => by cases hg⟩

/-- Above the bracket of the innermost group, there are only operators. -/
theorem split (h : s.Fits job scanned) (hg : s.groups = group :: around) :
    ∃ inside below, s.operators = inside ++ group.bracket :: below ∧
      group.bracket.kind = job.mode.opener ∧ (∀ t ∈ inside, t.kind ≠ job.mode.opener) ∧
      brackets below = around.map Group.bracket := by
  have hstack := h.stack
  rw [hg, List.map_cons, brackets, List.filter_eq_cons_iff] at hstack
  obtain ⟨inside, below, hops, hinside, -, hbelow⟩ := hstack
  refine ⟨inside, below, hops, h.nested.kind_eq group (by simp [hg]), fun t ht => ?_, hbelow⟩
  rw [show t.kind = .operator by simpa using hinside t ht]
  exact Mode.opener_ne_operator.symm

/-- A token that is put out or goes on the stack as an operator changes nothing that is open. -/
theorem plain (h : s.Fits job scanned) {t : Token} (ht : t.kind.weight = 0) {output : List Token}
    {operators : List Token} {attached : List (Nat × List (List Token))}
    (hops : brackets operators = brackets s.operators) :
    State.Fits job (scanned ++ [t]) { s with output, operators, attached } :=
  ⟨h.nested.append (.scanOrder_singleton ht), hops.trans h.stack, h.separators, h.pending⟩

/-- A bracket opens a group. -/
theorem opened (h : s.Fits job scanned) {place : Place} (hnext : place.Next job scanned)
    (hk : place.token.kind = job.mode.opener) (start : Nat) (owner : Option Token) :
    State.Fits job (scanned ++ [place.token])
      { s with
        operators := place.token :: s.operators
        groups := ⟨place.token, place.index, start, owner, [], none⟩ :: s.groups } where
  nested := h.nested.opened ⟨place.token, place.index, start, owner, [], none⟩ hk hnext.index
  stack := by
    rw [brackets_opener hk, h.stack]
    rfl
  separators := List.forall_mem_cons.2 ⟨fun _ hnone => (Option.not_mem_none _ hnone).elim,
    h.separators⟩
  pending := h.pending

/-- Something between brackets ends an argument of the innermost group. -/
theorem separated (h : s.Fits job scanned) (hg : s.groups = group :: around) {t : Token}
    (ht : t.kind.weight = 0) {group' : Group} (hbracket : group'.bracket = group.bracket)
    (hindex : group'.index = group.index)
    (hseparator : ∀ separator ∈ group'.separator, job.tokens[separator.2]? = some separator.1)
    {output operators : List Token} (hops : brackets operators = brackets s.operators) :
    State.Fits job (scanned ++ [t]) { s with output, operators, groups := group' :: around } := by
  have hnested := h.nested
  have hseparators := h.separators
  rw [hg] at hnested hseparators
  refine ⟨(hnested.congr hbracket hindex).append (.scanOrder_singleton ht), ?_, ?_, h.pending⟩
  · rw [hops, h.stack, hg, List.map_cons, List.map_cons, hbracket]
  · exact List.forall_mem_cons.2 ⟨hseparator, fun g hin =>
      hseparators g (List.mem_cons_of_mem _ hin)⟩

end State.Fits

/-! ## What is blamed -/

/-- A bracket after which all brackets match is open. -/
def IsOpen (tokens : List Token) (index : Nat) (t : Token) : Prop :=
  ∃ before after, tokens = before ++ t :: after ∧ before.length = index ∧
    t.kind = .openBracket ∧ Balanced after

/-- A bracket before which all brackets match closes nothing. -/
def ClosesNothing (tokens : List Token) (index : Nat) (t : Token) : Prop :=
  ∃ before after, tokens = before ++ t :: after ∧ before.length = index ∧
    t.kind = .closeBracket ∧ Balanced before

/-- The token that is blamed stands where it is said to stand, and if it is blamed for being an
unmatched bracket it is one. -/
structure Points (tokens : List Token) (e : CompileError) : Prop where
  located : tokens[e.index]? = some e.token
  unmatchedOpen : e.defect = .unmatchedOpen → IsOpen tokens e.index e.token
  unmatchedClose : e.defect = .unmatchedClose → ClosesNothing tokens e.index e.token

section

variable {m : Mode} {tokens xs ys : List Token} {index : Nat} {t : Token} {source : Option String}

/-- Whatever is not called an unmatched bracket only has to be where it is said to be. -/
theorem Points.of_located {e : CompileError} (h : tokens[e.index]? = some e.token)
    (hdefect : e.defect ≠ .unmatchedOpen ∧ e.defect ≠ .unmatchedClose) : Points tokens e :=
  ⟨h, fun heq => (hdefect.1 heq).elim, fun heq => (hdefect.2 heq).elim⟩

theorem IsOpen.points (h : IsOpen tokens index t) :
    Points tokens ⟨.unmatchedOpen, index, t, source⟩ := by
  refine ⟨?_, fun _ => h, fun heq => (by cases heq)⟩
  obtain ⟨before, after, rfl, rfl, -⟩ := h
  simp

theorem ClosesNothing.points (h : ClosesNothing tokens index t) :
    Points tokens ⟨.unmatchedClose, index, t, source⟩ := by
  refine ⟨?_, fun heq => (by cases heq), fun _ => h⟩
  obtain ⟨before, after, rfl, rfl, -⟩ := h
  simp

/-- A bracket that closes a group is to blame if nothing is open in what was scanned before. -/
theorem points_closer (h : m.scanOrder tokens = xs ++ t :: ys) (hk : t.kind = m.closer)
    (hx : Balanced (m.scanOrder xs)) :
    Points tokens ⟨m.strayCloser, m.number tokens.length xs.length, t, source⟩ := by
  cases m with
  | rpn => exact ClosesNothing.points ⟨xs, ys, h, rfl, hk, hx⟩
  | pn =>
    obtain rfl := List.reverse_eq_iff.1 h
    refine IsOpen.points ⟨ys.reverse, xs.reverse, by simp, ?_, hk, hx⟩
    simp only [Mode.number, List.length_reverse, List.length_append, List.length_cons]
    omega

/-- A bracket that opens a group is to blame if nothing that was scanned afterwards closes it. -/
theorem points_opener (h : m.scanOrder tokens = xs ++ t :: ys) (hk : t.kind = m.opener)
    (hy : Balanced (m.scanOrder ys)) :
    Points tokens ⟨m.strayOpener, m.number tokens.length xs.length, t, source⟩ := by
  cases m with
  | rpn => exact IsOpen.points ⟨xs, ys, h, rfl, hk, hy⟩
  | pn =>
    obtain rfl := List.reverse_eq_iff.1 h
    refine ClosesNothing.points ⟨ys.reverse, xs.reverse, by simp, ?_, hk, hy⟩
    simp only [Mode.number, List.length_reverse, List.length_append, List.length_cons]
    omega

end

variable {α β : Type} {job : Job} {now : Surroundings} {blame : CompileError → Prop}
  {post : α → Prop} {post' : β → Prop} {place : Place} {scanned : List Token} {s : State}
  {group : Group} {around : List Group}

theorem State.Fits.points_next (h : s.Fits job scanned) (hnext : place.Next job scanned)
    (hk : place.token.kind = job.mode.closer) (hg : s.groups = []) :
    Points job.tokens ⟨job.mode.strayCloser, place.index, place.token, job.source⟩ := by
  have hnested := h.nested
  rw [hg] at hnested
  obtain ⟨hbalanced⟩ := hnested
  obtain ⟨ahead, htokens⟩ := hnext.token
  rw [hnext.index]
  exact points_closer htokens hk hbalanced

theorem State.Fits.points_group (h : s.Fits job (job.mode.scanOrder job.tokens))
    (hg : s.groups = group :: around) :
    Points job.tokens ⟨job.mode.strayOpener, group.index, group.bracket, job.source⟩ := by
  have hnested := h.nested
  rw [hg] at hnested
  generalize htokens : job.mode.scanOrder job.tokens = scanned at hnested
  cases hnested with
  | inside houter hkind hindex hinner =>
    rw [hindex]
    exact points_opener htokens hkind hinner

/-! ## Computations -/

/-- The answers of the computation are such, and whatever it blames is to blame. -/
def Leads (now : Surroundings) (post : α → Prop) (blame : CompileError → Prop) (c : Run α) :
    Prop :=
  (∀ a, c.eager now = .ok a → post a) ∧ Blames now blame c

namespace Leads

theorem of_ok {c : Run α} {a : α} (h : c.eager now = .ok a) (hpost : post a) :
    Leads now post blame c := by
  refine ⟨fun b hb => ?_, .of_ok h⟩
  rw [h] at hb
  exact Except.ok.inj hb ▸ hpost

theorem of_stop {defect : Defect} {index : Nat} {token : Token}
    (h : blame ⟨defect, index, token, job.source⟩) :
    Leads now post blame (job.stop defect index token : Run α) :=
  ⟨fun _ h => (stop_eager.1 h).elim, .of_stop h⟩

theorem of_blames {c : Run α} (h : Blames now blame c) : Leads now (fun _ => True) blame c :=
  ⟨fun _ _ => trivial, h⟩

theorem bind {c : Run α} {f : α → Run β} (hc : Leads now post blame c)
    (hf : ∀ a, post a → Leads now post' blame (f a)) : Leads now post' blame (c.bind f) := by
  refine ⟨fun b hb => ?_, hc.2.bind fun a ha => (hf a (hc.1 a ha)).2⟩
  obtain ⟨a, ha, hb⟩ := Stepwise.eager_bind_ok.1 hb
  exact (hf a (hc.1 a ha)).1 b hb

end Leads

/-! ## Operations -/

namespace Job

/-- The token that is being scanned is where it is said to be. -/
theorem leads_stopAt (hnext : place.Next job scanned) {defect : Defect}
    (hdefect : defect ≠ .unmatchedOpen ∧ defect ≠ .unmatchedClose) :
    Leads now post (Points job.tokens) (job.stopAt defect place) :=
  .of_stop (.of_located hnext.located hdefect)

/-- The operators that leave the stack for another one are no brackets. -/
theorem brackets_dropWhile (m : Mode) (operators : Table Operator) (operator : Operator)
    (stack : List Token) :
    brackets (stack.dropWhile (gives m operators operator)) = brackets stack := by
  induction stack with
  | nil => rfl
  | cons top below ih =>
    rw [List.dropWhile_cons]
    split
    · next hgives =>
      rw [gives, Bool.and_eq_true] at hgives
      rw [ih, brackets_operator (of_decide_eq_true hgives.1)]
    · rfl

theorem leads_pushOperator (h : s.Fits job scanned) (hnext : place.Next job scanned)
    (hk : place.token.kind = .operator) :
    Leads now (State.Fits job (scanned ++ [place.token])) (Points job.tokens)
      (job.pushOperator s place) := by
  refine ⟨fun s' hs' => ?_, blames_pushOperator fun _ => .of_located hnext.located (by simp)⟩
  obtain ⟨operator, -, rfl⟩ := pushOperator_ok.1 hs'
  refine h.plain (by rw [hk]; rfl) ?_
  rw [brackets_operator hk, brackets_dropWhile]

/-- A bracket closes the innermost group, and there is none only if it is to blame. -/
theorem leads_closeGroup (h : s.Fits job scanned) (hnext : place.Next job scanned)
    (hk : place.token.kind = job.mode.closer) :
    Leads now (fun result : Group × State => s.groups = result.1 :: result.2.groups ∧
        result.2.Fits job (scanned ++ [place.token]))
      (Points job.tokens) (job.closeGroup s place job.mode.opener job.mode.strayCloser) := by
  cases hg : s.groups with
  | nil =>
    refine ⟨fun result hresult => ?_, blames_closeGroup (h.points_next hnext hk hg)⟩
    rw [closeGroup_groups hresult] at hg
    cases hg
  | cons group around =>
    obtain ⟨inside, below, hops, hbracket, hinside, hbelow⟩ := h.split hg
    have hnested := h.nested
    have hseparators := h.separators
    rw [hg] at hnested hseparators
    exact .of_ok (closeGroup_eager hops hg hbracket hinside) ⟨rfl, hnested.closed hk, hbelow,
      fun g hin => hseparators g (List.mem_cons_of_mem _ hin), h.pending⟩

/-- While a group is open, there is a bracket to move operators out down to. -/
theorem leads_popUntil (h : s.Fits job scanned) (hg : s.groups = group :: around)
    (place : Place) (unmatched : Defect) :
    Leads now (fun result : List Token × List Token => brackets result.2 = brackets s.operators)
      blame (job.popUntil place job.mode.opener unmatched s.operators s.output) := by
  obtain ⟨inside, below, hops, hbracket, hinside, hbelow⟩ := h.split hg
  rw [hops]
  refine .of_ok (popUntil_eager hbracket below inside s.output hinside) ?_
  rw [← hops, h.stack, hg, List.map_cons, ← hbelow, brackets_opener hbracket]

theorem leads_endArgument (hm : job.mode = .rpn) (h : s.Fits job scanned)
    (hnext : place.Next job scanned) (hk : place.token.kind = .separator)
    (hg : s.groups = group :: around) (owner : Token) :
    Leads now (State.Fits job (scanned ++ [place.token])) (Points job.tokens)
      (job.endArgument s place group around owner) := by
  have hpop : Leads now _ (Points job.tokens) _ := leads_popUntil h hg place .unmatchedSeparator
  rw [hm] at hpop
  refine hpop.bind fun result hbrackets => ?_
  obtain ⟨output, operators⟩ := result
  dsimp only [takeArgument]
  split
  · exact leads_stopAt hnext (by simp)
  · refine (Leads.of_blames (blames_checkCount owner _)).bind fun _ _ => .of_ok rfl ?_
    refine h.separated hg (by rw [hk]; rfl) ?_ ?_ ?_ hbrackets
    · rfl
    · rfl
    · exact h.separators group (by simp [hg])

theorem leads_endSegment (hm : job.mode = .pn) (h : s.Fits job scanned)
    (hnext : place.Next job scanned) (hk : place.token.kind = .separator)
    (hg : s.groups = group :: around) :
    Leads now (State.Fits job (scanned ++ [place.token])) (Points job.tokens)
      (job.endSegment s place group around) := by
  have hpop : Leads now _ (Points job.tokens) _ := leads_popUntil h hg place .unmatchedSeparator
  rw [hm] at hpop
  refine hpop.bind fun result hbrackets => ?_
  obtain ⟨output, operators⟩ := result
  dsimp only [takeArgument]
  split
  · exact leads_stopAt hnext (by simp)
  · refine .of_ok rfl (h.separated hg (by rw [hk]; rfl) ?_ ?_ ?_ hbrackets)
    · rfl
    · rfl
    · intro separator hseparator
      obtain rfl := Option.mem_some_iff.1 hseparator
      exact hnext.located

/-- From the right, a group is complete when its bracket comes, and it may be to blame for what was
in it. -/
theorem leads_completeGroup (hm : job.mode = .pn) (h : s.Fits job scanned)
    (hnext : place.Next job scanned) (hk : place.token.kind = .openBracket) :
    Leads now (State.Fits job (scanned ++ [place.token])) (Points job.tokens)
      (job.completeGroup s place) := by
  have hclose : Leads now _ _ _ := leads_closeGroup h hnext (by rw [hk, hm]; rfl)
  rw [hm] at hclose
  refine hclose.bind fun result hresult => ?_
  obtain ⟨group, t⟩ := result
  obtain ⟨hg, ht⟩ := hresult
  have hseparator := h.separators group (by simp [hg])
  dsimp only
  split
  · refine .of_ok rfl ⟨ht.nested, ht.stack, ht.separators, fun g hpending => ?_⟩
    obtain rfl := Option.mem_some_iff.1 hpending
    exact hnext.located
  · split
    · next separator index heq =>
      exact .of_stop (.of_located (hseparator (separator, index) heq) (by simp))
    · have hempty : Points job.tokens ⟨.emptyBrackets, place.index, place.token, job.source⟩ :=
        .of_located hnext.located (by simp)
      refine (Leads.of_blames (blames_checkNotEmpty hempty)).bind
        fun _ _ => .of_ok rfl ⟨ht.nested, ht.stack, ht.separators, ?_⟩
      exact fun _ hnone => (Option.not_mem_none _ hnone).elim

/-! ## Single tokens -/

theorem visitForward_fits (hm : job.mode = .rpn) (h : s.Fits job scanned)
    (hnext : place.Next job scanned) :
    Leads now (State.Fits job (scanned ++ [place.token])) (Points job.tokens)
      (job.visitForward s place) := by
  rw [visitForward]
  cases hk : place.token.kind with
  | number | constant => exact .of_ok rfl (h.plain (by rw [hk]; rfl) rfl)
  | call =>
    have hput : Leads now (State.Fits job (scanned ++ [place.token])) (Points job.tokens)
        ((s.putOut place.token).report place .insertValue place.token .nothing) :=
      .of_ok rfl (h.plain (by rw [hk]; rfl) rfl)
    refine hput.bind fun s hs => ?_
    split
    · exact .of_ok rfl hs
    · exact leads_stopAt hnext (by simp)
  | operator => exact leads_pushOperator h hnext hk
  | openBracket => exact .of_ok rfl (h.opened hnext (by rw [hk, hm]; rfl) _ _)
  | closeBracket =>
    have hclose : Leads now _ _ _ := leads_closeGroup h hnext (by rw [hk, hm]; rfl)
    rw [hm] at hclose
    refine hclose.bind fun result hresult => ?_
    obtain ⟨group, t⟩ := result
    obtain ⟨hg, ht⟩ := hresult
    obtain ⟨ahead, hahead⟩ := hnext.token
    -- The frame that is closed knows where its bracket stands, and a complaint is about that place.
    have hlocated := h.nested.located hahead group (by simp [hg])
    dsimp only
    split
    · have hempty : Points job.tokens ⟨.emptyBrackets, group.index, group.bracket, job.source⟩ :=
        .of_located hlocated (by simp)
      exact (Leads.of_blames (blames_checkNotEmpty hempty)).bind fun _ _ => .of_ok rfl ht
    · refine ⟨fun s' hs' => ?_, blames_closeCall _ (.of_located hnext.located (by simp))⟩
      obtain ⟨_, _, rfl⟩ := closeCall_frame hs'
      exact ⟨ht.nested, ht.stack, ht.separators, ht.pending⟩
  | separator =>
    dsimp only
    split
    · exact leads_stopAt hnext (by simp)
    · next group around hg =>
      split
      · exact leads_stopAt hnext (by simp)
      · exact leads_endArgument hm h hnext hk hg _
  | other => exact leads_stopAt hnext (by simp)

theorem visitBackward_fits (hm : job.mode = .pn) (h : s.Fits job scanned)
    (hnext : place.Next job scanned) :
    Leads now (State.Fits job (scanned ++ [place.token])) (Points job.tokens)
      (job.visitBackward s place) := by
  rw [visitBackward]
  cases hk : place.token.kind with
  | number | constant => exact .of_ok rfl (h.plain (by rw [hk]; rfl) rfl)
  | call =>
    dsimp only
    split
    · exact leads_stopAt hnext (by simp)
    · next group hpending =>
      have hlocated := h.pending group hpending
      have hcollect : Leads now (State.Fits job (scanned ++ [place.token])) (Points job.tokens)
          (job.collectArguments s place group) := by
        refine ⟨fun s' hs' => ?_, blames_collectArguments (.of_located hlocated (by simp))⟩
        obtain ⟨_, _, rfl⟩ := collectArguments_frame hs'
        exact h.plain (by rw [hk]; rfl) rfl
      refine hcollect.bind fun t ht => .of_ok rfl ⟨ht.nested, ht.stack, ht.separators, ?_⟩
      exact fun _ hnone => (Option.not_mem_none _ hnone).elim
  | operator => exact leads_pushOperator h hnext hk
  | closeBracket => exact .of_ok rfl (h.opened hnext (by rw [hk, hm]; rfl) _ _)
  | openBracket => exact leads_completeGroup hm h hnext hk
  | separator =>
    dsimp only
    split
    · exact leads_stopAt hnext (by simp)
    · next group around hg => exact leads_endSegment hm h hnext hk hg
  | other => exact leads_stopAt hnext (by simp)

/-- **A step of a scan**: the state fits what has been scanned, or what is blamed is to blame. -/
theorem visit_fits (h : s.Fits job scanned) (hnext : place.Next job scanned) :
    Leads now (State.Fits job (scanned ++ [place.token])) (Points job.tokens)
      (job.visit s place) := by
  rw [visit]
  split
  · next hm => exact visitForward_fits hm h hnext
  · next hm => exact visitBackward_fits hm h hnext

/-! ## Whole scans -/

/-- The rest of a scan, whatever has been scanned before. -/
theorem scan_fits (visited rest : List Place)
    (hsplit : job.mode.scanOrder (places job.tokens) = visited ++ rest)
    (h : s.Fits job (visited.map Place.token)) :
    Leads now (State.Fits job (job.mode.scanOrder job.tokens)) (Points job.tokens)
      (job.scan rest s) := by
  induction rest generalizing visited s with
  | nil =>
    rw [List.append_nil] at hsplit
    rw [← hsplit, map_token_places] at h
    exact .of_ok rfl h
  | cons place rest ih =>
    refine (visit_fits h (.of_split hsplit)).bind fun t ht => ?_
    refine ih (visited ++ [place]) (by rw [hsplit]; simp) ?_
    rwa [List.map_append]

/-- **What a compilation blames is where it is said to be**, and an unmatched bracket is one. -/
theorem run_points : Blames now (Points job.tokens) job.run := by
  have hscan : Leads now (State.Fits job (job.mode.scanOrder job.tokens)) (Points job.tokens)
      (job.scan (job.mode.scanOrder (places job.tokens)) .start) :=
    scan_fits [] _ rfl .start
  refine Blames.bind ?_ fun _ _ => hscan.2.bind fun s hs => Blames.bind ?_ fun _ _ =>
    (Blames.of_ok (flush_eager _ _)).bind fun _ _ => .of_ok rfl
  · rw [checkFresh]
    intro e he
    rw [Stepwise.eager_look] at he
    split at he
    · next place hplace =>
      have hlocated := getElem?_of_mem_places (List.mem_of_find?_eq_some hplace)
      exact Blames.of_stop (.of_located hlocated (by simp)) e he
    · cases he
  · rw [checkClosed]
    split
    · exact .of_ok rfl
    · next group around hg =>
      have hpoints := (hscan.1 s hs).points_group hg
      cases hm : job.mode with rw [hm] at hpoints
      | rpn | pn => exact .of_stop hpoints

end Job

end Compile

end Polish
