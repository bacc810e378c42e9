import Polish.Proofs.Grammar.Firsts
import Polish.Proofs.Grammar.Words

/-!
# Words are read back

Words that are written down one after another, with single spaces between them, are read back as
they were if their kinds make a sentence: `Arithmetic.parse_joined`.

The spaces are not all found in one place.  The states of the grammar take the space before a word,
and a bracket takes the spaces on both its sides; what is left of the text after each word is
`Word.spaced gap`, with the space or without it.  `Finds` says what a scan finds at a word, with one
lemma for each kind, and `Scan.Ready.step` leads from before one word to before the next.

## How the proof goes

A word is found by a rule of its turn, and the rules of the turn have been compared before
(`Scan.first_number`, …); what they need to know of the text behind the word is that it begins with
a space and a word that may follow.  So `Finds` has the words that are left as a parameter, and the
lemmas about a name, of a call or not, ask for them to make a sentence.

`Ready.step` is one round of the scan or two.  Before the bracket of a call there is no state, and
the bracket takes its gap by itself.  Before other words a state takes the gap, also one of no
characters, which is why at least one match without progress has to be allowed.
-/

set_option autoImplicit false

namespace Polish

open Arithmetic
open Text (isBlank isDigit)

/-- The rule has no hook, its tokens are kept, and it passes the turn on. -/
structure Rule.PassesTo (rule : Rule) (turn : Turn) : Prop where
  hook : rule.hook = none
  ignore : rule.ignore = false
  followers : grammar.followers rule = [turn.entry]
  final : turn = .operator → rule.final = true

/-! ## Words -/

/-- At a word with other words behind it and with a lead before it, the rules of a turn find some
characters that are the word but for blanks, and pass the turn on.  What is left are the other words
behind a gap. -/
structure Finds (turn turn' : Turn) (lead : List Char) (w : Word) (ws : List Word) (rule : Rule)
    (chars gap : List Char) : Prop where
  first : ∀ source i, source.drop i = lead ++ (w.chars ++ Word.spaced [' '] ws) →
    Scan.firstMatch turn.tried source i = some (rule, chars.length)
  split : lead ++ (w.chars ++ Word.spaced [' '] ws) = chars ++ Word.spaced gap ws
  gap_cases : gap = [] ∨ gap = [' ']
  ne_nil : chars ≠ []
  strip : Text.strip (String.ofList chars) = w.text
  kind : rule.kind = w.kind
  passes : rule.PassesTo turn'

namespace Finds

variable {w : Word} {ws : List Word} {turn turn' : Turn} {source : List Char} {i : Nat}

/-! ### Words that are no brackets -/

/-- A word that is no bracket is taken as it is, and the space behind it is left. -/
theorem of_plain {rule : Rule} (hw : w.IsLexeme)
    (hfirst : ∀ {source : List Char} {i : Nat}, source.drop i = w.chars ++ Word.spaced [' '] ws →
      Scan.firstMatch turn.tried source i = some (rule, w.chars.length))
    (hkind : rule.kind = w.kind) (hpasses : rule.PassesTo turn') :
    Finds turn turn' [] w ws rule w.chars [' '] where
  first _ _ := hfirst
  split := rfl
  gap_cases := .inr rfl
  ne_nil := hw.chars_ne_nil
  strip := by
    rw [Word.chars, String.ofList_toList]
    exact Word.strip_eq_self hw.isBlank_chars
  kind := hkind
  passes := hpasses

theorem number (hw : w.IsLexeme) (hk : w.kind = .number) :
    Finds .value .operator [] w ws numberRule w.chars [' '] := by
  obtain ⟨n, hn⟩ := hw.numeral hk
  have hends : ∀ d ∈ (Word.spaced [' '] ws).head?, EndsNumber d := fun d hd =>
    Word.head?_spaced ws d hd ▸ ⟨by decide, by decide, by decide⟩
  refine of_plain hw (fun hdrop => ?_) hk.symm ⟨rfl, rfl, rfl, fun _ => rfl⟩
  rw [hn] at hdrop ⊢
  exact Scan.first_number n hends hdrop

theorem isNameChar_head?_spaced (ws : List Word) :
    ∀ c ∈ (Word.spaced [' '] ws).head?, isNameChar c = false := fun c hc =>
  Word.head?_spaced ws c hc ▸ isNameChar_of_isBlank (by decide)

theorem call (hw : w.IsLexeme) (hk : w.kind = .call) (hws : ∀ v ∈ ws, v.IsLexeme)
    (hends : Turn.bracket.through (ws.map Word.kind) = some .operator) :
    Finds .value .bracket [] w ws callRule w.chars [' '] := by
  obtain ⟨n, hn⟩ := hw.name (.inr hk)
  refine of_plain hw (fun hdrop => ?_) hk.symm ⟨rfl, rfl, rfl, by simp⟩
  rw [hn] at hdrop ⊢
  exact Scan.first_call n (isNameChar_head?_spaced ws) (Word.bracketAhead_spaced hws hends) hdrop

theorem constant (hw : w.IsLexeme) (hk : w.kind = .constant) (hws : ∀ v ∈ ws, v.IsLexeme)
    (hends : Turn.operator.through (ws.map Word.kind) = some .operator) :
    Finds .value .operator [] w ws nameRule w.chars [' '] := by
  obtain ⟨n, hn⟩ := hw.name (.inl hk)
  refine of_plain hw (fun hdrop => ?_) hk.symm ⟨rfl, rfl, rfl, fun _ => rfl⟩
  rw [hn] at hdrop ⊢
  exact Scan.first_name n (isNameChar_head?_spaced ws) (Word.not_bracketAhead_spaced hws hends)
    hdrop

theorem separator (hw : w.IsLexeme) (hk : w.kind = .separator) :
    Finds .operator .value [] w ws separatorRule w.chars [' '] := by
  have hchars : w.chars = [','] := by
    rw [Word.IsLexeme, hk] at hw
    rw [Word.chars, hw]
    rfl
  refine of_plain hw (fun hdrop => ?_) hk.symm ⟨rfl, rfl, rfl, by simp⟩
  rw [hchars] at hdrop ⊢
  exact Scan.first_separator hdrop

theorem operator (hw : w.IsLexeme) (hk : w.kind = .operator) :
    Finds .operator .value [] w ws symbolRule w.chars [' '] :=
  of_plain hw (Scan.first_symbol (hw.operator hk)) hk.symm ⟨rfl, rfl, rfl, by simp⟩

/-! ### Brackets -/

theorem isBlank_gap {gap : List Char} (h : gap = [] ∨ gap = [' ']) :
    ∀ c ∈ gap, isBlank c = true := by
  rcases h with rfl | rfl
  · nofun
  · intro c hc
    rw [List.mem_singleton.1 hc]
    rfl

/-- A bracket is taken with the spaces on both its sides. -/
theorem of_bracket {c : Char} {lead : List Char} {rule : Rule}
    (hlead : lead = [] ∨ lead = [' ']) (hc : isBlank c = false)
    (htext : w.text = String.ofList [c])
    (hfirst : ∀ {source trail : List Char} {i : Nat}, (∀ d ∈ trail, isBlank d = true) →
      source.drop i = (lead ++ c :: trail) ++ Word.spaced [] ws →
      Scan.firstMatch turn.tried source i = some (rule, (lead ++ c :: trail).length))
    (hkind : rule.kind = w.kind) (hpasses : rule.PassesTo turn') :
    ∃ chars, Finds turn turn' lead w ws rule chars [] := by
  obtain ⟨trail, htrail, hspaced⟩ := Word.exists_trail ws
  have hsplit : lead ++ (w.chars ++ Word.spaced [' '] ws)
      = (lead ++ c :: trail) ++ Word.spaced [] ws := by
    rw [Word.chars, htext, String.toList_ofList, hspaced]
    simp
  refine ⟨lead ++ c :: trail, fun source i hdrop => ?_, hsplit, .inl rfl, by simp, ?_, hkind,
    hpasses⟩
  · exact hfirst (isBlank_gap htrail) (hdrop.trans hsplit)
  · rw [htext, Text.strip, String.toList_ofList]
    rcases hlead with rfl | rfl <;> rcases htrail with rfl | rfl <;>
      simp [Text.trimChars, hc, show isBlank ' ' = true from rfl]

theorem openBracket {lead : List Char} (hw : w.IsLexeme) (hk : w.kind = .openBracket)
    (hws : ∀ v ∈ ws, v.IsLexeme) (hlead : lead = [] ∨ lead = [' '])
    (hturn : turn = .value ∨ turn = .bracket) :
    ∃ chars, Finds turn .value lead w ws openRule chars [] := by
  have htext : w.text = String.ofList ['('] := by
    rw [Word.IsLexeme, hk] at hw
    rw [hw]
  have hpasses : openRule.PassesTo .value := ⟨rfl, rfl, rfl, by simp⟩
  have hrest := Word.isBlank_head?_spaced hws
  rcases hturn with rfl | rfl
  · exact of_bracket hlead (by decide) htext
      (fun htrail => Scan.first_openBracket _ (isBlank_gap hlead) htrail hrest) hk.symm hpasses
  · exact of_bracket hlead (by decide) htext
      (fun htrail => Scan.first_openBracket _ (isBlank_gap hlead) htrail hrest) hk.symm hpasses

theorem closeBracket (hw : w.IsLexeme) (hk : w.kind = .closeBracket) (hws : ∀ v ∈ ws, v.IsLexeme)
    (hturn : turn = .value ∨ turn = .operator) :
    ∃ chars, Finds turn .operator [] w ws closeRule chars [] := by
  have htext : w.text = String.ofList [')'] := by
    rw [Word.IsLexeme, hk] at hw
    rw [hw]
  have hrest := Word.isBlank_head?_spaced hws
  exact of_bracket (.inl rfl) (by decide) htext
    (fun htrail => Scan.first_closeBracket hturn (List.forall_mem_nil _) htrail hrest) hk.symm
    ⟨rfl, rfl, rfl, fun _ => rfl⟩

/-- **Every word is found** when it may come and when the words behind it may. -/
theorem exists_of_next {lead : List Char} (hw : w.IsLexeme) (hws : ∀ v ∈ ws, v.IsLexeme)
    (hnext : turn.next w.kind = some turn')
    (hends : turn'.through (ws.map Word.kind) = some .operator)
    (hlead : lead = [] ∨ turn = .bracket ∧ lead = [' ']) :
    ∃ rule chars gap, Finds turn turn' lead w ws rule chars gap := by
  have hnolead (hne : turn ≠ .bracket) : lead = [] := hlead.resolve_right fun h => hne h.1
  cases turn <;> cases hk : w.kind <;> rw [hk] at hnext <;> cases hnext
  case value.number => exact ⟨_, _, _, hnolead nofun ▸ number hw hk⟩
  case value.constant => exact ⟨_, _, _, hnolead nofun ▸ constant hw hk hws hends⟩
  case value.call => exact ⟨_, _, _, hnolead nofun ▸ call hw hk hws hends⟩
  case value.openBracket =>
    obtain ⟨chars, h⟩ := openBracket hw hk hws (.inl (hnolead nofun)) (.inl rfl)
    exact ⟨_, _, _, h⟩
  case value.closeBracket =>
    obtain ⟨chars, h⟩ := closeBracket hw hk hws (.inl rfl)
    exact ⟨_, _, _, hnolead nofun ▸ h⟩
  case operator.operator => exact ⟨_, _, _, hnolead nofun ▸ operator hw hk⟩
  case operator.separator => exact ⟨_, _, _, hnolead nofun ▸ separator hw hk⟩
  case operator.closeBracket =>
    obtain ⟨chars, h⟩ := closeBracket hw hk hws (.inr rfl)
    exact ⟨_, _, _, hnolead nofun ▸ h⟩
  case bracket.openBracket =>
    obtain ⟨chars, h⟩ := openBracket hw hk hws (hlead.imp_right And.right) (.inr rfl)
    exact ⟨_, _, _, h⟩

end Finds

/-! ## Scans -/

namespace Scan

open Grammar (Ends)

variable {task : ScanTask} {s : Scan} {turn turn' : Turn} {w : Word} {ws : List Word}
  {gap chars rest : List Char} {rule : Rule} {i : Nat}

/-- The scan after some characters that a rule without a hook takes. -/
def past (s : Scan) (task : ScanTask) (rule : Rule) (i : Nat) (chars : List Char) : Scan where
  index := (i + chars.length : Nat)
  stalled := if chars = [] then s.stalled + 1 else 0
  reachable := task.grammar.followers rule
  last := some rule
  emitted := if task.keepIgnored || !rule.ignore
    then ⟨rule.kind, String.ofList chars, i, s.emitted.length⟩ :: s.emitted else s.emitted

/-- A round in which a rule takes some characters, perhaps none if that is within the limit. -/
theorem turn_past (hindex : s.index = i) (hdrop : task.source.toList.drop i = chars ++ rest)
    (hne : chars ++ rest ≠ [])
    (hfirst : firstMatch s.reachable task.source.toList i = some (rule, chars.length))
    (hhook : rule.hook = none) (hlimit : chars = [] → (s.stalled + 1 : Nat) ≤ task.limit) :
    s.turn task = .inr (s.past task rule i chars) := by
  have hinside : i < task.source.toList.length := by
    rw [← Nat.not_le, ← List.drop_eq_nil_iff, hdrop]
    exact hne
  have htext : (s.rest task).take chars.length = chars := by
    rw [Scan.rest, hindex, Int.toNat_natCast, hdrop, List.take_left]
  have hstop : ((i + chars.length : Nat) : Int) = (i : Nat) ↔ chars = [] := by
    rw [← List.length_eq_zero_iff]
    omega
  have hnext : s.next task rule chars.length = s.past task rule i chars := by
    rw [next_of_hook_eq_none hhook, past, htext, hindex, Int.toNat_natCast]
    simp only [hstop]
  rw [turn_match (by rw [hindex]; omega) (by rw [hindex, Int.toNat_natCast]; exact hfirst), hnext]
  refine if_neg fun ⟨hsame, hover⟩ => ?_
  have hnil : chars = [] := hstop.1 (hsame.trans hindex)
  have := hlimit hnil
  simp only [past, if_pos hnil] at hover
  omega

theorem drop_past (hdrop : task.source.toList.drop i = chars ++ rest) :
    task.source.toList.drop (i + chars.length) = rest := by
  rw [← List.drop_drop, hdrop, List.drop_left]

/-- The scan has come to what is left of a text, and it is some turn. -/
structure Ready (task : ScanTask) (s : Scan) (turn : Turn) (left : List Char) : Prop where
  at_left : ∃ i : Nat, s.index = i ∧ task.source.toList.drop i = left
  reachable : s.reachable = [turn.entry]
  stalled : s.stalled = 0
  final : turn = .operator → ∀ rule ∈ s.last, rule.final = true

/-- A scan that stands directly before a word reads it. -/
theorem reads_word {lead : List Char} (hgrammar : task.grammar = grammar)
    (hkeep : task.keepIgnored = false) (hindex : s.index = i)
    (hdrop : task.source.toList.drop i = lead ++ (w.chars ++ Word.spaced [' '] ws))
    (hreachable : s.reachable = turn.tried)
    (hfinds : Finds turn turn' lead w ws rule chars gap) :
    s.turn task = .inr (s.past task rule i chars) ∧
      (s.past task rule i chars).Ready task turn' (Word.spaced gap ws) ∧
      (s.past task rule i chars).emitted
        = ⟨w.kind, String.ofList chars, i, s.emitted.length⟩ :: s.emitted := by
  have hdrop' := hdrop.trans hfinds.split
  have hpasses := hfinds.passes
  refine ⟨turn_past hindex hdrop' (by simp [hfinds.ne_nil]) ?_ hpasses.hook
    fun hnil => absurd hnil hfinds.ne_nil, ⟨⟨_, rfl, drop_past hdrop'⟩, ?_, ?_, ?_⟩, ?_⟩
  · rw [hreachable]
    exact hfinds.first _ _ hdrop
  · rw [past, hgrammar]
    exact hpasses.followers
  · rw [past, if_neg hfinds.ne_nil]
  · rintro hturn r hr
    obtain rfl := Option.some.inj hr
    exact hpasses.final hturn
  · rw [past, hkeep, hpasses.ignore, hfinds.kind]
    rfl

/-- The state of a turn takes the gap before a word. -/
theorem skips_gap (hgrammar : task.grammar = grammar) (hkeep : task.keepIgnored = false)
    (hlimit : 1 ≤ task.limit) (hturn : turn ≠ .bracket) (hready : s.Ready task turn (gap ++ rest))
    (hgap : gap = [] ∨ gap = [' ']) (hne : rest ≠ [])
    (hrest : ∀ c ∈ rest.head?, isBlank c = false) :
    ∃ (s' : Scan) (i : Nat), s.turn task = .inr s' ∧ s'.index = i ∧
      task.source.toList.drop i = rest ∧ s'.reachable = turn.tried ∧ s'.emitted = s.emitted := by
  obtain ⟨i, hindex, hdrop⟩ := hready.at_left
  have hblank := Finds.isBlank_gap hgap
  have hwidth : (Pattern.mk blanks false).matcher.width? task.source.toList i = some gap.length :=
    width?_of_rest? hdrop (single_blank.run_many_append hblank hrest rfl)
  have hstate : turn.entry.hook = none ∧ turn.entry.ignore = true ∧
      grammar.followers turn.entry = turn.tried ∧
      turn.entry.pattern = (Pattern.mk blanks false).matcher := by
    cases turn with
    | value | operator => exact ⟨rfl, rfl, rfl, rfl⟩
    | bracket => exact absurd rfl hturn
  obtain ⟨hhook, hignore, hfollowers, hpattern⟩ := hstate
  have hfirst : firstMatch s.reachable task.source.toList i = some (turn.entry, gap.length) := by
    rw [hready.reachable]
    exact firstMatch_of [] nofun (by rw [hpattern, hwidth])
  refine ⟨s.past task turn.entry i gap, i + gap.length,
    turn_past hindex hdrop (by simp [hne]) hfirst hhook fun _ => ?_, rfl, drop_past hdrop, ?_, ?_⟩
  · rw [hready.stalled]
    omega
  · rw [past, hgrammar]
    exact hfollowers
  · rw [past, hkeep, hignore]
    rfl

/-- **A scan goes from before one word to before the next.** -/
theorem Ready.step (hgrammar : task.grammar = grammar) (hkeep : task.keepIgnored = false)
    (hlimit : 1 ≤ task.limit) (hready : s.Ready task turn (Word.spaced gap (w :: ws)))
    (hgap : gap = [] ∨ gap = [' ']) (hw : w.IsLexeme) (hws : ∀ v ∈ ws, v.IsLexeme)
    (hnext : turn.next w.kind = some turn')
    (hends : turn'.through (ws.map Word.kind) = some .operator) :
    ∃ (s' : Scan) (gap' : List Char) (t : Token),
      (∀ result, Ends task s' result → Ends task s result) ∧
      s'.Ready task turn' (Word.spaced gap' ws) ∧ (gap' = [] ∨ gap' = [' ']) ∧
      s'.emitted = t :: s.emitted ∧ t.kind = w.kind ∧ Text.strip t.text = w.text := by
  by_cases hturn : turn = .bracket
  · subst hturn
    obtain ⟨rule, chars, gap', hfinds⟩ :=
      Finds.exists_of_next hw hws hnext hends (hgap.imp_right fun h => ⟨rfl, h⟩)
    obtain ⟨i, hindex, hdrop⟩ := hready.at_left
    have hreachable : s.reachable = Turn.bracket.tried := hready.reachable
    obtain ⟨hround, hready', hemitted⟩ :=
      reads_word hgrammar hkeep hindex hdrop hreachable hfinds
    exact ⟨_, gap', _, fun _ h => .of_next hround h, hready', hfinds.gap_cases, hemitted, rfl,
      hfinds.strip⟩
  · obtain ⟨rule, chars, gap', hfinds⟩ := Finds.exists_of_next hw hws hnext hends (.inl rfl)
    have hhead : ∀ c ∈ (w.chars ++ Word.spaced [' '] ws).head?, isBlank c = false := by
      intro c hc
      obtain ⟨d, t, hcons⟩ := List.exists_cons_of_ne_nil hw.chars_ne_nil
      rw [hcons, List.cons_append] at hc
      obtain rfl := Option.some.inj hc
      exact hw.isBlank_chars d (hcons ▸ List.mem_cons_self)
    -- Two rounds: the state takes the gap, and a rule of the turn takes the word.
    obtain ⟨s₁, i, hskip, hindex, hdrop, hreachable, hemitted₁⟩ :=
      skips_gap hgrammar hkeep hlimit hturn hready hgap (by simp [hw.chars_ne_nil]) hhead
    obtain ⟨hround, hready', hemitted⟩ :=
      reads_word hgrammar hkeep hindex (hdrop.trans (List.nil_append _).symm) hreachable hfinds
    rw [hemitted₁] at hemitted
    exact ⟨_, gap', _, fun _ h => .of_next hskip (.of_next hround h), hready', hfinds.gap_cases,
      hemitted, rfl, hfinds.strip⟩

/-- A scan reads all the words that are left. -/
theorem Ready.ends (hgrammar : task.grammar = grammar) (hkeep : task.keepIgnored = false)
    (hlimit : 1 ≤ task.limit) (hready : s.Ready task turn (Word.spaced gap ws))
    (hgap : gap = [] ∨ gap = [' ']) (hws : ∀ v ∈ ws, v.IsLexeme)
    (hends : turn.through (ws.map Word.kind) = some .operator) :
    ∃ tokens, Ends task s (.ok (s.emitted.reverse ++ tokens)) ∧
      tokens.map Token.kind = ws.map Word.kind ∧
      tokens.map (fun t => Text.strip t.text) = ws.map Word.text := by
  induction ws generalizing s turn gap with
  | nil =>
    obtain ⟨i, hindex, hdrop⟩ := hready.at_left
    have hover : ¬ s.index < task.source.toList.length := by
      have := List.drop_eq_nil_iff.1 hdrop
      omega
    have hlast : s.last.any (!·.final) = false := by
      cases hrule : s.last with
      | none => rfl
      | some rule => simp [hready.final (Option.some.inj hends) rule hrule]
    refine ⟨[], .of_turn ?_, rfl, rfl⟩
    rw [turn_end hover, finish, hlast, List.append_nil]
    rfl
  | cons w ws ih =>
    obtain ⟨turn', hnext, hrest⟩ := Turn.through_cons_eq_some.1 hends
    obtain ⟨s', gap', t, hleads, hready', hgap', hemitted, hkind, htext⟩ :=
      hready.step hgrammar hkeep hlimit hgap (hws w List.mem_cons_self)
        (fun v hv => hws v (List.mem_cons_of_mem w hv)) hnext hrest
    obtain ⟨tokens, htokens, hkinds, htexts⟩ :=
      ih hready' hgap' (fun v hv => hws v (List.mem_cons_of_mem w hv)) hrest
    rw [hemitted, List.reverse_cons, List.append_assoc] at htokens
    refine ⟨t :: tokens, hleads _ htokens, ?_, ?_⟩
    · rw [List.map_cons, List.map_cons, hkinds, hkind]
    · rw [List.map_cons, List.map_cons, htexts, htext]

end Scan

/-- **Words of a sentence are read back**, when they are joined by single spaces. -/
theorem Arithmetic.parse_joined {ws : List Word} (hws : ∀ w ∈ ws, w.IsLexeme)
    (hsentence : Sentence (ws.map Word.kind)) {limit : Int} (hlimit : 1 ≤ limit) :
    ∃ tokens, grammar.parse (Word.joined ws) limit false = .ok tokens ∧
      tokens.map Token.kind = ws.map Word.kind ∧
      tokens.map (fun t => Text.strip t.text) = ws.map Word.text := by
  rcases sentence_iff.1 hsentence with hnil | hends
  · rw [List.map_eq_nil_iff] at hnil
    subst hnil
    exact ⟨[], reading_operator ▸ parse_empty _ _, rfl, rfl⟩
  · let task : ScanTask := ⟨grammar, Word.joined ws, limit, false⟩
    let start : Scan := ⟨0, 0, [valueRule], none, []⟩
    have hready : start.Ready task .value (Word.spaced [] ws) :=
      ⟨⟨0, rfl, Word.toList_joined ws⟩, rfl, rfl, nofun⟩
    obtain ⟨tokens, htokens, hkinds, htexts⟩ :=
      hready.ends rfl rfl hlimit (.inl rfl) hws hends
    have hhookless : grammar.Hookless := reading_operator ▸ hookless_reading _
    exact ⟨tokens, hhookless.parse_of_ends check_grammar rfl htokens, hkinds, htexts⟩

end Polish
