import Mathlib.Data.List.Forall2
import Polish.Proofs.Grammar.Firsts
import Polish.Proofs.Grammar.Lossless
import Polish.Proofs.Grammar.Spacing
import Polish.Proofs.Grammar.Stall

/-!
# A text with more blanks is read in step

A walk through a text and a walk through the text with blanks put in come to the same rules.  Where
a state skips blanks it skips those that have been put in as well; so when it is a word's turn, both
texts stand at the word.

* `Scan.Place` — how far two scans have come that keep step, and `Scan.Place.step`: what the one
  does next, the other does as well;
* `Arithmetic.Echo` — two walks that keep step, and `Arithmetic.exists_echo`: there always is a
  second one;
* `Arithmetic.parse_spaced` — so the changed text has tokens of the same kinds and, without the
  blanks at the ends, the same texts.

## How the proof goes

A round of the one scan decides what a round of the other does, and `Scan.Place` is the invariant.
There are blanks in the second text that the first one does not have, but only at places where a
scan has just taken a lexeme.  The rule for brackets takes the blanks around it, a state takes those
that are left, and the rules for words take none at all, so at a word the rest of the second text is
the rest of the first one with blanks behind it somewhere (`Spacing.behind`).

Whether a rule matches and what it takes is then a question about one pattern in two texts, and this
has been answered for patterns that cannot take blanks (`Solid`) and for those of brackets.
-/

set_option autoImplicit false

namespace Polish

open Arithmetic
open Lexeme (covered standing)
open Regex (Solid)
open Text (isBlank)

/-! ## The rules at a word -/

namespace Scan

variable {s : Spacing} {source source' : List Char} {i j : Nat}

/-- The rule takes the same of both texts, but for blanks. -/
def EchoesAt (s : Spacing) (source source' : List Char) (i j : Nat) (rule : Rule) : Prop :=
  ∃ p : Pattern, rule.pattern = p.matcher ∧ s.Echoes p i (source.drop i) (source'.drop j)

/-- **The same rule is the first that matches** in both texts, and what it takes is the same but for
blanks. -/
theorem firstMatch_echo {rules : List Rule} (hrules : ∀ r ∈ rules, EchoesAt s source source' i j r)
    {rule : Rule} {width : Nat} (h : firstMatch rules source i = some (rule, width))
    (hwhole : s.Whole i ((source.drop i).take width)) :
    ∃ width', firstMatch rules source' j = some (rule, width') ∧ width ≤ width' ∧
      Text.strip (String.ofList ((source'.drop j).take width'))
        = Text.strip (String.ofList ((source.drop i).take width)) ∧
      s.Follows (i + width) (source.drop (i + width)) (source'.drop (j + width')) := by
  obtain ⟨before, first, after, rfl, hfirst, hbefore⟩ := List.findSome?_eq_some_iff.1 h
  obtain ⟨width, hwidth, heq⟩ := Option.map_eq_some_iff.1 hfirst
  obtain ⟨rfl, rfl⟩ := Prod.mk.inj heq
  obtain ⟨p, hp, hechoes⟩ := hrules first (by simp)
  rw [hp] at hwidth
  obtain ⟨w, u, hw, hu, rfl⟩ := width?_eq_some_iff.1 hwidth
  rw [hw, List.take_left] at hwhole
  obtain ⟨w', u', hw', hu', hle, hstrip, hfollows⟩ := hechoes.takes hw hu hwhole
  refine ⟨w'.length, firstMatch_of before (fun r hr => ?_) ?_, hle, ?_, ?_⟩
  · obtain ⟨q, hq, hfails⟩ := hrules r (by simp [hr])
    have hnone : r.pattern.width? source i = none := by simpa using hbefore r hr
    rw [hq] at hnone ⊢
    exact width?_eq_none_iff.2 (hfails.fails (width?_eq_none_iff.1 hnone))
  · rw [hp]
    exact width?_eq_some_iff.2 ⟨w', u', hw', hu', rfl⟩
  · rw [hw, hw', List.take_left, List.take_left, hstrip]
  · rw [← List.drop_drop, ← List.drop_drop, hw, hw', List.drop_left, List.drop_left]
    exact hfollows

theorem echoesAt_bracket {c : Char} {rule : Rule} (hc : isBlank c = false)
    (hrule : rule.pattern = (Pattern.mk (Arithmetic.bracket c) false).matcher)
    (h : s.Follows i (source.drop i) (source'.drop j)) : EchoesAt s source source' i j rule :=
  ⟨_, hrule, echoes_bracket hc h⟩

/-- Where the second text has no blanks before a word, each rule for words takes the same. -/
theorem echoesAt_word {pattern : Pattern} (hpattern : Solid pattern.ignoreCase pattern.regex)
    (h : source'.drop j = s.behind i (source.drop i)) {turn : Turn} :
    ∀ rule ∈ turn.words pattern, EchoesAt s source source' i j rule := by
  have solid {rule : Rule} {p : Pattern} (hp : Solid p.ignoreCase p.regex)
      (hrule : rule.pattern = p.matcher) : EchoesAt s source source' i j rule :=
    ⟨p, hrule, h ▸ Spacing.echoes_of_solid hp⟩
  have hfollows : s.Follows i (source.drop i) (source'.drop j) := h ▸ Spacing.follows_behind
  have hopen : EchoesAt s source source' i j openRule :=
    echoesAt_bracket (by decide) rfl hfollows
  have hclose : EchoesAt s source source' i j closeRule :=
    echoesAt_bracket (by decide) rfl hfollows
  intro rule hrule
  cases turn with
  | value =>
    simp only [Turn.words, List.mem_cons, List.not_mem_nil, or_false] at hrule
    rcases hrule with rfl | rfl | rfl | rfl | rfl
    · exact hopen
    · exact hclose
    · exact solid solid_number rfl
    · exact solid solid_callName rfl
    · exact solid solid_name rfl
  | operator =>
    simp only [Turn.words, List.mem_cons, List.not_mem_nil, or_false] at hrule
    rcases hrule with rfl | rfl | rfl
    · exact hclose
    · exact solid solid_separator rfl
    · exact solid hpattern rfl
  | bracket =>
    obtain rfl := List.mem_singleton.1 hrule
    exact hopen

/-- A state skips the blanks of both texts and leaves them at the next word. -/
theorem firstMatch_state {rule : Rule} (hrule : rule.pattern = (Pattern.mk blanks false).matcher)
    (h : s.Follows i (source.drop i) (source'.drop j)) :
    ∃ width width', firstMatch [rule] source i = some (rule, width) ∧
      firstMatch [rule] source' j = some (rule, width') ∧ width ≤ width' ∧
      source'.drop (j + width') = s.behind (i + width) (source.drop (i + width)) := by
  refine ⟨_, _, first_state hrule source i, first_state hrule source' j, ?_, ?_⟩
  · have hsplit : source'.drop j = (source'.drop j).takeWhile isBlank ++ s.behind
        (i + ((source.drop i).takeWhile isBlank).length) ((source.drop i).dropWhile isBlank) := by
      rw [← h.dropWhile, List.takeWhile_append_dropWhile]
    rw [← @List.takeWhile_append_dropWhile _ isBlank (source.drop i)] at h
    exact Spacing.length_le_of_behind h hsplit
  · rw [drop_blanks, drop_blanks, h.dropWhile]

/-! ## Scans that keep step -/

/-- How far two scans have come that keep step.  It is some turn, and either its state skips the
blanks that are left, or it comes next to a word in both texts. -/
inductive Place (s : Spacing) (pattern : Pattern) (source source' : List Char) (i j : Nat)
    (rules : List Rule) (turn : Turn) : Prop
  | state (hrules : rules = [turn.entry]) (h : s.Follows i (source.drop i) (source'.drop j))
  | word (hrules : rules = turn.words pattern) (h : source'.drop j = s.behind i (source.drop i))

/-- The rule that matches in the first text matches in the second one as well and takes the same but
for blanks; and then both scans keep step again. -/
structure Onward (s : Spacing) (pattern : Pattern) (source source' : List Char) (i j : Nat)
    (rules : List Rule) (rule : Rule) (width width' : Nat) (turn : Turn) : Prop where
  first : firstMatch rules source' j = some (rule, width')
  width_le : width ≤ width'
  strip : rule.ignore = false → Text.strip (String.ofList ((source'.drop j).take width'))
    = Text.strip (String.ofList ((source.drop i).take width))
  closes : turn.Closes rule
  place : Place s pattern source source' (i + width) (j + width')
    ((reading pattern).followers rule) turn

theorem Place.follows {pattern : Pattern} {rules : List Rule} {turn : Turn}
    (h : Place s pattern source source' i j rules turn) :
    s.Follows i (source.drop i) (source'.drop j) := by
  cases h with
  | state _ hfollows => exact hfollows
  | word _ hdrop => exact hdrop ▸ Spacing.follows_behind

/-- The changed text is not over before the text is. -/
theorem Place.inside {pattern : Pattern} {rules : List Rule} {turn : Turn}
    (h : Place s pattern source source' i j rules turn) (hinside : i < source.length) :
    j < source'.length := by
  obtain ⟨lead, -, hdrop⟩ := h.follows
  rw [List.drop_eq_getElem_cons hinside, Spacing.behind] at hdrop
  by_contra hend
  rw [List.drop_eq_nil_of_le (Nat.le_of_not_lt hend)] at hdrop
  simp at hdrop

/-- The rule is one for words, and both texts are at the word or at the blanks before it. -/
theorem Place.word_step {pattern : Pattern} (turn : Turn) {rule : Rule} {width : Nat}
    (hrules : ∀ r ∈ turn.words pattern, EchoesAt s source source' i j r)
    (h : firstMatch (turn.words pattern) source i = some (rule, width))
    (hwhole : rule.ignore = false → s.Whole i ((source.drop i).take width)) :
    ∃ width' turn',
      Onward s pattern source source' i j (turn.words pattern) rule width width' turn' := by
  obtain ⟨-, hkept, turn', hcloses, hfollowers, -⟩ := Turn.followers_word (firstMatch_mem h).1
  obtain ⟨width', hmatch, hle, hstrip, hfollows⟩ := firstMatch_echo hrules h (hwhole hkept)
  exact ⟨width', turn', hmatch, hle, fun _ => hstrip, hcloses, .state hfollowers hfollows⟩

/-- The state of a turn skips the blanks of both texts, and then the turn's words come next. -/
theorem Place.state_step {pattern : Pattern} (turn : Turn) {entry rule : Rule} {width : Nat}
    (hentry : entry.pattern = (Pattern.mk blanks false).matcher) (hignore : entry.ignore = true)
    (hcloses : turn.Closes entry)
    (hfollowers : (reading pattern).followers entry = turn.words pattern)
    (hplace : s.Follows i (source.drop i) (source'.drop j))
    (h : firstMatch [entry] source i = some (rule, width)) :
    ∃ width' turn', Onward s pattern source source' i j [entry] rule width width' turn' := by
  obtain ⟨skipped, width', hmatch, hmatch', hle, hdrop⟩ := firstMatch_state hentry hplace
  rw [hmatch] at h
  obtain ⟨rfl, rfl⟩ := Prod.mk.inj (Option.some.inj h)
  refine ⟨width', turn, hmatch', hle, fun hkept => ?_, hcloses, .word hfollowers hdrop⟩
  rw [hignore] at hkept
  cases hkept

/-- **What one scan does, the other does as well.** -/
theorem Place.step {pattern : Pattern} (hpattern : Solid pattern.ignoreCase pattern.regex)
    {rules : List Rule} {turn : Turn} (hplace : Place s pattern source source' i j rules turn)
    {rule : Rule} {width : Nat} (h : firstMatch rules source i = some (rule, width))
    (hwhole : rule.ignore = false → s.Whole i ((source.drop i).take width)) :
    ∃ width' turn', Onward s pattern source source' i j rules rule width width' turn' := by
  cases hplace with
  | word hrules hdrop =>
    subst hrules
    exact word_step turn (echoesAt_word hpattern hdrop) h hwhole
  | state hrules hfollows =>
    subst hrules
    cases turn with
    | value => exact state_step .value rfl rfl (Turn.closes_of_inner rfl) rfl hfollows h
    | operator => exact state_step .operator rfl rfl (Turn.operator_closes _) rfl hfollows h
    | bracket =>
      refine word_step .bracket (fun r hr => ?_) h hwhole
      obtain rfl := List.mem_singleton.1 hr
      exact echoesAt_bracket (by decide) rfl hfollows

end Scan

/-! ## Walks that keep step -/

/-- Two matches of one rule, of which the second has taken more blanks at most. -/
structure Lexeme.Echoes (source source' : List Char) (l l' : Lexeme) : Prop where
  rule : l'.rule = l.rule
  width_le : l.width ≤ l'.width
  strip : l.rule.ignore = false →
    Text.strip (String.ofList (l'.chars source')) = Text.strip (String.ofList (l.chars source))

namespace Lexeme

variable {source source' : List Char} {ls ls' : List Lexeme}

theorem Echoes.last (h : List.Forall₂ (Echoes source source') ls ls') :
    ls'.getLast?.map Lexeme.rule = ls.getLast?.map Lexeme.rule := by
  have hrules : ls'.map Lexeme.rule = ls.map Lexeme.rule := by
    induction h with
    | nil => rfl
    | cons hfirst _ ih => rw [List.map_cons, List.map_cons, hfirst.rule, ih]
  rw [← List.getLast?_map, ← List.getLast?_map, hrules]

/-- Where the second text stands still, so does the first one. -/
theorem Echoes.standing_le (h : List.Forall₂ (Echoes source source') ls ls') :
    standing ls' ≤ standing ls := by
  have hempty {xs xs' : List Lexeme} (h : List.Forall₂ (Echoes source source') xs xs') :
      (xs'.takeWhile (·.width = 0)).length ≤ (xs.takeWhile (·.width = 0)).length := by
    induction h with
    | nil => exact Nat.le_refl _
    | @cons l l' xs xs' hfirst _ ih =>
      rw [List.takeWhile_cons, List.takeWhile_cons]
      by_cases hwidth : l'.width = 0
      · have hwidth' : l.width = 0 := Nat.le_zero.1 (hwidth ▸ hfirst.width_le)
        simpa [hwidth, hwidth'] using ih
      · simp [hwidth]
  exact hempty (List.forall₂_reverse_iff.2 h)

theorem Echoes.within {limit : Int} (h : List.Forall₂ (Echoes source source') ls ls')
    (hwithin : Within limit ls) : Within limit ls' := by
  intro before hbefore
  rw [List.prefix_iff_eq_take.1 hbefore]
  have hle : standing (ls'.take before.length) ≤ standing (ls.take before.length) :=
    standing_le (List.forall₂_take _ h)
  rcases hwithin _ (List.take_prefix before.length ls) with hzero | hlimit
  · exact .inl (by omega)
  · exact .inr (by omega)

/-- What the kept tokens of both walks have in common. -/
theorem Echoes.map_kept {β : Type} {f f' : Lexeme → β}
    (hf : ∀ {l l'}, l.rule.ignore = false → Echoes source source' l l' → f' l' = f l)
    (h : List.Forall₂ (Echoes source source') ls ls') :
    (ls'.filter (Scan.keeps false)).map f' = (ls.filter (Scan.keeps false)).map f := by
  induction h with
  | nil => rfl
  | @cons l l' ls ls' hfirst _ ih =>
    have hkeeps : Scan.keeps false l' = Scan.keeps false l := by
      rw [Scan.keeps, Scan.keeps, hfirst.rule]
    rw [List.filter_cons, List.filter_cons, hkeeps]
    by_cases hkeep : Scan.keeps false l = true
    · have hignore : l.rule.ignore = false := by simpa [Scan.keeps] using hkeep
      rw [if_pos hkeep, if_pos hkeep, List.map_cons, List.map_cons, ih, hf hignore hfirst]
    · rw [if_neg hkeep, if_neg hkeep, ih]

end Lexeme

theorem Grammar.reached_eq (g : Grammar) (start : List Rule) (ls : List Lexeme) :
    g.reached start ls = ((ls.getLast?.map Lexeme.rule).map g.followers).getD start := by
  rw [reached]
  cases ls.getLast? <;> rfl

namespace Arithmetic

open Scan (Place)

variable {s : Spacing} {pattern : Pattern} {source source' : List Char} {ls ls' : List Lexeme}

/-- A walk through the second text that keeps step with one through the first. -/
structure Echo (s : Spacing) (pattern : Pattern) (source source' : List Char)
    (ls ls' : List Lexeme) : Prop where
  walk : (reading pattern).Walk source' [valueRule] ls'
  same : List.Forall₂ (Lexeme.Echoes source source') ls ls'
  place : ∃ turn : Turn, (∀ rule ∈ ls.getLast?.map Lexeme.rule, turn.Closes rule) ∧
    Place s pattern source source' (covered ls) (covered ls')
      ((reading pattern).reached [valueRule] ls) turn

theorem Echo.reached_eq (h : Echo s pattern source source' ls ls') :
    (reading pattern).reached [valueRule] ls' = (reading pattern).reached [valueRule] ls := by
  rw [Grammar.reached_eq, Grammar.reached_eq, Lexeme.Echoes.last h.same]

/-- **Each walk through a text has one through the changed text that keeps step with it**, if no
kept lexeme has been torn apart. -/
theorem exists_echo (hpattern : Solid pattern.ignoreCase pattern.regex)
    (hwalk : (reading pattern).Walk source [valueRule] ls)
    (hwhole : ∀ l ∈ ls, l.rule.ignore = false → s.Whole l.offset (l.chars source)) :
    ∃ ls', Echo s pattern source (s.insert 0 source) ls ls' := by
  induction hwalk with
  | nil =>
    exact ⟨[], .nil, .nil, .value, by simp, .state rfl Spacing.follows_insert⟩
  | @concat ls rule width before inside first ih =>
    obtain ⟨ls', hecho⟩ := ih fun l hl => hwhole l (List.mem_append_left _ hl)
    obtain ⟨turn, -, hplace⟩ := hecho.place
    obtain ⟨width', turn', honward⟩ :=
      hplace.step hpattern first (hwhole _ List.mem_concat_self)
    have hmatch := honward.first
    rw [← hecho.reached_eq] at hmatch
    refine ⟨ls' ++ [⟨rule, covered ls', width'⟩],
      hecho.walk.concat (hplace.inside inside) hmatch, ?_, turn', ?_, ?_⟩
    · exact List.rel_append hecho.same (.cons ⟨rfl, honward.width_le, honward.strip⟩ .nil)
    · rw [List.getLast?_concat]
      rintro _ ⟨⟩
      exact honward.closes
    · rw [Lexeme.covered_concat, Lexeme.covered_concat, Grammar.reached_concat]
      exact honward.place

/-- At the end of the text, the changed text is over as well, but for blanks after the last
lexeme. -/
theorem Echo.exists_end {limit : Int} (h : Echo s pattern source source' ls ls') (hne : ls ≠ [])
    (hend : source.length ≤ covered ls) (hfinal : ∀ l ∈ ls.getLast?, l.rule.final = true)
    (hwithin : Lexeme.Within limit ls) :
    ∃ all, (reading pattern).Walk source' [valueRule] all ∧ Lexeme.Within limit all ∧
      source'.length ≤ covered all ∧ (∀ rule ∈ all.getLast?.map Lexeme.rule, rule.final = true) ∧
      all.filter (Scan.keeps false) = ls'.filter (Scan.keeps false) := by
  have hwithin' : Lexeme.Within limit ls' := Lexeme.Echoes.within h.same hwithin
  have hlast : ∀ rule ∈ ls'.getLast?.map Lexeme.rule, rule.final = true := by
    rw [Lexeme.Echoes.last h.same]
    intro rule hrule
    obtain ⟨l, hl, rfl⟩ := Option.map_eq_some_iff.1 hrule
    exact hfinal l hl
  rcases Nat.lt_or_ge (covered ls') source'.length with hinside | hover
  · obtain ⟨turn, hcloses, hplace⟩ := h.place
    have hdrop : source.drop (covered ls) = [] := List.drop_eq_nil_of_le hend
    cases hplace with
    | word hrules hword =>
      rw [hdrop, Spacing.behind, List.drop_eq_nil_iff] at hword
      omega
    | state hrules hfollows =>
      -- Blanks behind the last lexeme are a lexeme of their own, taken by the state.
      obtain ⟨l, hl⟩ := Option.isSome_iff_exists.1 (List.getLast?_isSome.2 hne)
      obtain rfl : turn = .operator := hcloses l.rule (by rw [hl]; rfl) (hfinal l hl)
      obtain ⟨width, width', -, hmatch, -, hrest⟩ :=
        @Scan.firstMatch_state _ _ _ _ _ afterValueRule rfl hfollows
      have hover : source'.length ≤ covered ls' + width' := by
        have hdrop' : source.drop (covered ls + width) = [] :=
          List.drop_eq_nil_of_le (Nat.le_add_right_of_le hend)
        rwa [hdrop', Spacing.behind, List.drop_eq_nil_iff] at hrest
      have hreached : (reading pattern).reached [valueRule] ls' = [afterValueRule] :=
        h.reached_eq.trans hrules
      have hmoves : width' ≠ 0 := by omega
      refine ⟨ls' ++ [⟨afterValueRule, covered ls', width'⟩],
        h.walk.concat hinside (hreached ▸ hmatch),
        Lexeme.within_concat.2 ⟨hwithin', fun hstands => absurd hstands hmoves⟩, ?_, ?_, ?_⟩
      · rwa [Lexeme.covered_concat]
      · rw [List.getLast?_concat]
        rintro _ ⟨⟩
        rfl
      · rw [List.filter_append]
        exact List.append_nil _
  · exact ⟨ls', h.walk, hwithin', hover, hlast, rfl⟩

/-- **Blanks between tokens are of no importance.**  A text of which tokens have been read is still
read after blanks have been put in outside the tokens, and its tokens have the same kinds and,
without the blanks at their ends, the same texts. -/
theorem parse_spaced (hpattern : Solid pattern.ignoreCase pattern.regex) {text : String}
    {limit : Int} {tokens : List Token}
    (h : (reading pattern).parse text limit false = .ok tokens) (hne : tokens ≠ [])
    (hwhole : ∀ t ∈ tokens, s.Whole t.pos.toNat t.text.toList) :
    ∃ tokens', (reading pattern).parse (s.apply text) limit false = .ok tokens' ∧
      tokens'.map (fun t => (t.kind, Text.strip t.text))
        = tokens.map fun t => (t.kind, Text.strip t.text) := by
  have hg := hookless_reading pattern
  have hcheck := check_reading pattern
  have hentry := entryRules_reading pattern
  rcases Grammar.parse_eq_walk hg text limit with ⟨defect, hdefect⟩ | ⟨start, ls, result, hstart,
    hwalk, hresult, hparse⟩
  · rw [hdefect] at h
    cases h
  · obtain rfl : [valueRule] = start := Except.ok.inj (hentry.symm.trans hstart)
    rw [hparse false] at h
    cases result with
    | error failure => cases h
    | ok u =>
      obtain rfl := Except.ok.inj h
      obtain ⟨hend, hfinal⟩ := Scan.advance_eq_ok (hresult false)
      have hls : ls ≠ [] := by
        rintro rfl
        exact hne rfl
      have hkept : ∀ l ∈ ls, l.rule.ignore = false → s.Whole l.offset (l.chars text.toList) := by
        intro l hl hignore
        have hmem : l ∈ ls.filter (Scan.keeps false) :=
          List.mem_filter.2 ⟨hl, by simp [Scan.keeps, hignore]⟩
        obtain ⟨i, hi, rfl⟩ := List.getElem_of_mem hmem
        have hwhole' := hwhole _ (List.mem_mapIdx.2 ⟨i, hi, rfl⟩)
        simpa [Lexeme.token] using hwhole'
      -- The text has been read, so the guard has not stopped its walk anywhere.
      have hwithin : Lexeme.Within limit ls := by
        have hstalls : Lexeme.Within limit ls ∨ ∃ rule index,
            (reading pattern).parse text limit false
              = .error (.grammar (.stalled rule limit index)) :=
          hwalk.within_or_stalled hg hcheck hentry
        refine hstalls.resolve_right ?_
        rintro ⟨rule, index, hstalled⟩
        rw [hparse false] at hstalled
        cases hstalled
      obtain ⟨ls', hecho⟩ := exists_echo hpattern hwalk hkept
      obtain ⟨all, hall, hwithin', hover, hlast, hfilter⟩ :=
        hecho.exists_end hls hend hfinal hwithin
      have hsource : (s.apply text).toList = s.insert 0 text.toList := String.toList_ofList
      rw [← hsource] at hall hover
      refine ⟨_, hg.parse_of_walk hcheck hentry hall hwithin'
        (Scan.advance_of_end hover hlast), ?_⟩
      have hmap (source : List Char) (ls : List Lexeme) :
          (Lexeme.tokens source ls).map (fun t => (t.kind, Text.strip t.text))
            = ls.map fun l => (l.rule.kind, Text.strip (String.ofList (l.chars source))) :=
        Lexeme.map_tokens (fun _ _ => rfl) ls
      rw [hfilter, hmap, hmap, hsource]
      refine Lexeme.Echoes.map_kept (fun hignore hechoes => ?_) hecho.same
      rw [hechoes.rule, hechoes.strip hignore]

end Arithmetic

end Polish
