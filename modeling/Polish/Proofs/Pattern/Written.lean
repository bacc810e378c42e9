import Polish.Pattern.Reader
import Polish.Pattern.Writer

/-!
# What is written is read

When the grammar learns a symbol, the pattern of the operator rule is written anew, as a choice
between all symbols, and then read.  `Pattern.ofText_written` says that the reader takes it for what
it is: the choice between the texts, `Pattern.oneOfTexts`.  So no symbol, whatever its characters,
makes a pattern that is unreadable or bound to the start of the input.

The reader works in two steps, and so does the proof.  First the written text is cut into pieces
(`CutsInto`), and what a character is written as is one piece, an atom that is just this character.
Then the pieces are assembled: atoms gather in a branch, and each bar begins a new one.

The reader stops cutting after as many pieces as the text has characters.  A piece is at least one
character, so that is enough for any text, and the induction can spend one unit on each of them
(`CutsInto.cons`).
-/

set_option autoImplicit false

namespace Polish

namespace Regex

/-! ## Cutting into pieces -/

/-- The written pattern is cut into some pieces. -/
def CutsInto (s : List Char) (ps : List Piece) : Prop :=
  ∀ fuel, s.length ≤ fuel → pieces fuel s = some ps

theorem CutsInto.nil : CutsInto [] [] := by
  intro fuel _
  cases fuel <;> rfl

theorem CutsInto.cons {s rest : List Char} {p : Piece} {ps : List Piece}
    (hpiece : piece? s = some (p, rest)) (hlength : rest.length < s.length)
    (h : CutsInto rest ps) : CutsInto s (p :: ps) := by
  intro fuel hfuel
  obtain ⟨c, t, rfl⟩ := List.exists_cons_of_length_pos (Nat.zero_lt_of_lt hlength)
  obtain ⟨fuel, rfl⟩ : ∃ n, fuel = n + 1 := ⟨fuel - 1, by simp at hfuel; omega⟩
  have hrest := h fuel (by omega)
  rw [pieces, hpiece]
  · show (pieces fuel rest).bind _ = _
    rw [hrest]
    rfl
  · exact List.cons_ne_nil c t

/-- A written character is read as that character. -/
theorem piece?_written (c : Char) (rest : List Char) :
    piece? (written c ++ rest) = some (.atom (char c), rest) := by
  by_cases hc : c ∈ marks
  · have hescape : ∀ c ∈ marks, escape? c = some (.char c) := by simp [marks, escape?]
    rw [written, if_pos hc]
    show (escape? c).map _ = _
    rw [hescape c hc]
    rfl
  · rw [written, if_neg hc]
    simp only [marks, List.mem_cons, List.not_mem_nil, or_false, not_or] at hc
    show piece? (c :: rest) = _
    unfold piece?
    split <;> simp_all [char]

theorem cutsInto_written {s : List Char} {ps : List Piece} (h : CutsInto s ps) (text : List Char) :
    CutsInto (text.flatMap written ++ s) (text.map (fun c => .atom (char c)) ++ ps) := by
  induction text with
  | nil => exact h
  | cons c text ih =>
    rw [List.flatMap_cons, List.append_assoc, List.map_cons, List.cons_append]
    refine CutsInto.cons (piece?_written c _) ?_ ih
    have hpos : 0 < (written c).length := by
      rw [written]
      split <;> simp
    simp only [List.length_append]
    omega

/-- The pieces of a choice. -/
def piecesOf : List (List Char) → List Piece
  | [] => []
  | [text] => text.map fun c => .atom (char c)
  | text :: rest => text.map (fun c => .atom (char c)) ++ .bar :: piecesOf rest

theorem cutsInto_writtenChoice (texts : List (List Char)) :
    CutsInto (writtenChoice texts) (piecesOf texts) := by
  induction texts with
  | nil => exact .nil
  | cons text rest ih =>
    cases rest with
    | nil => simpa [writtenChoice, piecesOf] using cutsInto_written .nil text
    | cons other rest => exact cutsInto_written (.cons rfl (by simp) ih) text

/-! ## Assembly -/

theorem assemble_atoms (text : List Char) (ps : List Piece) (g : OpenGroup)
    (around : List OpenGroup) :
    assemble (text.map (fun c => .atom (char c)) ++ ps) g around
      = assemble ps { g with
          items := (text.map fun c => (char c, false)).reverse ++ g.items } around := by
  induction text generalizing g with
  | nil => rfl
  | cons c text ih =>
    rw [List.map_cons, List.cons_append, assemble, ih, OpenGroup.push]
    simp

theorem branch_atoms (text : List Char) (ahead : Bool) (branches : List Regex) :
    OpenGroup.branch ⟨ahead, branches, (text.map fun c => (char c, false)).reverse ++ []⟩
      = literal text := by
  simp [OpenGroup.branch, literal, Function.comp_def]

theorem assemble_piecesOf (text : List Char) (rest : List (List Char)) (branches : List Regex) :
    assemble (piecesOf (text :: rest)) ⟨false, branches, []⟩ []
      = some (choice (branches.reverse ++ (text :: rest).map literal)) := by
  induction rest generalizing text branches with
  | nil =>
    have hassemble := assemble_atoms text [] ⟨false, branches, []⟩ []
    rw [List.append_nil] at hassemble
    rw [piecesOf, hassemble, assemble, OpenGroup.regex, branch_atoms]
    simp
  | cons other rest ih =>
    rw [piecesOf, assemble_atoms, assemble, branch_atoms, ih]
    · simp
    · simp

/-- A written choice is read as the choice. -/
theorem ofChars?_writtenChoice {texts : List (List Char)} (hne : texts ≠ []) :
    ofChars? (writtenChoice texts) = some (choice (texts.map literal)) := by
  obtain ⟨text, rest, rfl⟩ := List.exists_cons_of_ne_nil hne
  rw [ofChars?, cutsInto_writtenChoice (text :: rest) _ (Nat.le_refl _)]
  exact assemble_piecesOf text rest []

theorem unbound?_written (text : List Char) (s : List Char) (hs : unbound? s = none) :
    unbound? (text.flatMap written ++ s) = none := by
  cases text with
  | nil => exact hs
  | cons c text =>
    rw [List.flatMap_cons, List.append_assoc, written]
    split
    · next hc =>
      have hmark : ∀ c ∈ marks, c ≠ 'A' := by simp [marks]
      have := hmark c hc
      show unbound? ('\\' :: c :: _) = none
      unfold unbound?
      split <;> simp_all
    · next hc =>
      have hcaret : c ≠ '^' := fun h => hc (h ▸ by decide)
      have hbackslash : c ≠ '\\' := fun h => hc (h ▸ by decide)
      show unbound? (c :: _) = none
      unfold unbound?
      split <;> simp_all

/-- No written choice is bound to the start of the input. -/
theorem unbound?_writtenChoice (texts : List (List Char)) :
    unbound? (writtenChoice texts) = none := by
  cases texts with
  | nil => rfl
  | cons text rest =>
    cases rest with
    | nil => simpa [writtenChoice] using unbound?_written text [] rfl
    | cons other rest => exact unbound?_written text _ rfl

end Regex

/-! ## Reading -/

/-- The pattern that takes one of the given texts, the earlier ones preferred. -/
def Pattern.oneOfTexts (texts : List String) (ignoreCase : Bool) : Pattern :=
  ⟨Regex.choice (texts.map fun text => Regex.literal text.toList), ignoreCase⟩

/-- **A written choice between texts is read as that choice**, whatever the texts are. -/
theorem Pattern.ofText_written {texts : List String} (hne : texts ≠ []) (ignoreCase : Bool) :
    Pattern.ofText (Pattern.written texts) ignoreCase
      = .ok (Pattern.oneOfTexts texts ignoreCase) := by
  have hlists : texts.map String.toList ≠ [] := by simpa using hne
  have hread := Regex.ofChars?_writtenChoice hlists
  rw [Pattern.ofText, Pattern.written, String.toList_ofList, Regex.unbound?_writtenChoice, hread]
  simp [Pattern.oneOfTexts, Function.comp_def]

end Polish
