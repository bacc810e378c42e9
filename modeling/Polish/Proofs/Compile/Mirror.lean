import Polish.Proofs.Compile.Acceptance
import Polish.Proofs.Table

/-!
# The two scans are mirror images

One notation is compiled from the left and the other from the right.  Read from behind, with the
brackets turned around, a token list is scanned by the one as it is by the other; and since the
direction of the scan decides which of two operators of one level comes first, the operators have
to group to the other side as well.

Without calls, a list that compiles is a `Row` of tokens and bracket groups, and so is its mirror
image, `Row.mirror`.

* `Yard.listing_mirror` — the pieces of a row from behind have its listing from behind;
* `Row.pieces_mirror` — the pieces of the mirror image are those of the row from behind;
* `Engine.compile_mirrored` — so the mirror image compiles with the flipped operators to the listing
  from behind, in the other notation, or neither of the two compiles.

## How the proof goes

The scans are not compared step by step.  Both ends are known to be the listing of the pieces of a
phrase, so it is enough to compare pieces and listings: `Row.pieces_mirror` by induction on the row,
and `Yard.listing_mirror` because an operator gives way in one notation exactly where the flipped
one gives way in the other.

`Row.mirrorOnto` has the row that comes after as an argument, in the manner of a reversal with an
accumulator; appending at the end would make every lemma about the mirror image a lemma about
append.  Mirroring twice is the identity on tokens, operators and engines, so one direction of the
equivalence gives the other.
-/

set_option autoImplicit false

namespace Polish

/-! ## Turning around -/

/-- Opening and closing brackets exchanged. -/
def Kind.mirror : Kind → Kind
  | .openBracket => .closeBracket
  | .closeBracket => .openBracket
  | kind => kind

def Token.mirror (token : Token) : Token := { token with kind := token.kind.mirror }

/-- The token list from behind, with the brackets turned around. -/
def mirrored (tokens : List Token) : List Token := (tokens.map Token.mirror).reverse

@[simp] theorem mirrored_nil : mirrored [] = [] := rfl

@[simp] theorem mirrored_cons (t : Token) (ts : List Token) :
    mirrored (t :: ts) = mirrored ts ++ [t.mirror] := by
  simp [mirrored]

@[simp] theorem mirrored_append (xs ys : List Token) :
    mirrored (xs ++ ys) = mirrored ys ++ mirrored xs := by
  simp [mirrored]

@[simp] theorem Token.mirror_mirror (t : Token) : t.mirror.mirror = t := by
  obtain ⟨kind, text, pos, handle⟩ := t
  cases kind <;> rfl

@[simp] theorem mirrored_mirrored (ts : List Token) : mirrored (mirrored ts) = ts := by
  rw [mirrored, mirrored, List.map_reverse, List.reverse_reverse, List.map_map]
  exact List.map_id'' Token.mirror_mirror ts

/-- Only brackets have a mirror image of their own. -/
theorem Token.mirror_of_weight {t : Token} (h : t.kind.weight = 0) : t.mirror = t := by
  obtain ⟨kind, text, pos, handle⟩ := t
  cases kind with
  | openBracket => cases h
  | closeBracket => cases h
  | _ => rfl

theorem no_calls_mirrored {ts : List Token} (h : ∀ t ∈ ts, t.kind ≠ .call) :
    ∀ t ∈ mirrored ts, t.kind ≠ .call := by
  intro t ht
  obtain ⟨⟨kind, text, pos, handle⟩, hmem, rfl⟩ := List.mem_map.1 (List.mem_reverse.1 ht)
  have hkind := h _ hmem
  cases kind <;> simp_all [Token.mirror, Kind.mirror]

/-- The other notation. -/
def Mode.other : Mode → Mode
  | .rpn => .pn
  | .pn => .rpn

/-- The operator grouping to the other side. -/
def Operator.flipped (operator : Operator) : Operator :=
  { operator with rightAssociative := !operator.rightAssociative }

def Registries.flipped (r : Registries) : Registries :=
  { r with operators := r.operators.mapValues Operator.flipped }

/-- The engine with all its operators grouping to the other side. -/
def Engine.flipped (e : Engine) : Engine := { e with registries := e.registries.flipped }

namespace Mode

variable {α : Type} (m : Mode) (xs : List α)

@[simp] theorem other_other : m.other.other = m := by cases m <;> rfl

theorem scanOrder_other : m.other.scanOrder xs.reverse = m.scanOrder xs := by
  cases m
  · exact xs.reverse_reverse
  · rfl

theorem inOrder_other : m.other.inOrder xs.reverse = m.inOrder xs := by
  cases m
  · rfl
  · exact xs.reverse_reverse

theorem reverse_inOrder : (m.inOrder xs).reverse = m.other.inOrder xs := by
  cases m
  · exact xs.reverse_reverse
  · rfl

end Mode

theorem Table.mapValues_mapValues {α : Type} {f : α → α} (hf : ∀ a, f (f a) = a) (t : Table α) :
    (t.mapValues f).mapValues f = t := by
  refine Table.ext_entries ?_
  simp [Table.mapValues, Function.comp_def, hf]

@[simp] theorem Engine.flipped_flipped (e : Engine) : e.flipped.flipped = e := by
  have hflip (operator : Operator) : operator.flipped.flipped = operator := by
    simp [Operator.flipped]
  simp [Engine.flipped, Registries.flipped, Table.mapValues_mapValues hflip]

/-! ## Yards -/

/-- A piece from behind. -/
def Piece.mirror : Piece → Piece
  | .operand listing => .operand listing.reverse
  | .operator token => .operator token

namespace Yard

variable (m : Mode) (operators : Table Operator)

/-- A flipped operator gives way in the other notation where the operator itself gives way. -/
theorem leaves_flipped (operator top : Operator) :
    Compile.Job.leaves m.other operator.flipped top.flipped
      = Compile.Job.leaves m operator top := by
  simp only [Compile.Job.leaves, Operator.flipped]
  cases m <;> cases operator.rightAssociative <;> rfl

theorem yields_flipped (incoming top : Token) :
    yields m.other (operators.mapValues Operator.flipped) incoming top
      = yields m operators incoming top := by
  simp only [yields, Compile.gives, Table.find?_mapValues, Option.any_map, leaves_flipped]

theorem add_mirror (y : Yard) (p : Piece) :
    y.add m.other (operators.mapValues Operator.flipped) p.mirror = y.add m operators p := by
  cases p with
  | operand listing => rw [Piece.mirror, add, add, Mode.inOrder_other]
  | operator token =>
    have hyields : yields m.other (operators.mapValues Operator.flipped) token
        = yields m operators token := funext (yields_flipped m operators token)
    rw [Piece.mirror, add, add, hyields]

theorem run_mirror (y : Yard) (pieces : List Piece) :
    y.run m.other (operators.mapValues Operator.flipped) (pieces.map Piece.mirror)
      = y.run m operators pieces := by
  have hadd : (fun y (p : Piece) =>
      add m.other (operators.mapValues Operator.flipped) y p.mirror) = add m operators :=
    funext fun y => funext fun p => add_mirror m operators y p
  rw [run, run, List.foldl_map, hadd]

/-- **Pieces from behind have the listing from behind**, in the other notation. -/
theorem listing_mirror (pieces : List Piece) :
    listing m.other (operators.mapValues Operator.flipped) (pieces.map Piece.mirror).reverse
      = (listing m operators pieces).reverse := by
  rw [listing, listing, Mode.scanOrder_other, ← Mode.map_scanOrder, run_mirror,
    Mode.reverse_inOrder]

end Yard

/-! ## Rows -/

/-- Tokens and brackets in a row, none of which belongs to a call. -/
inductive Row where
  | nil
  | plain (token : Token) (rest : Row)
  | group (opening : Token) (inner : Row) (closing : Token) (rest : Row)

namespace Row

def toPhrase : Row → Phrase
  | nil => .nil
  | plain token rest => .plain token rest.toPhrase
  | group opening inner closing rest =>
    .bracket none opening (.last inner.toPhrase) closing rest.toPhrase

/-- The mirror image of a row, with a row after it. -/
def mirrorOnto : Row → Row → Row
  | nil, after => after
  | plain token rest, after => rest.mirrorOnto (plain token.mirror after)
  | group opening inner closing rest, after =>
    rest.mirrorOnto (group closing.mirror (inner.mirrorOnto nil) opening.mirror after)

/-- The mirror image of a row. -/
def mirror (r : Row) : Row := r.mirrorOnto nil

variable (r after : Row)

theorem tokens_mirrorOnto :
    (r.mirrorOnto after).toPhrase.tokens
      = mirrored r.toPhrase.tokens ++ after.toPhrase.tokens := by
  induction r generalizing after with
  | nil => rfl
  | plain token rest ih => simp [mirrorOnto, ih, toPhrase, Phrase.tokens]
  | group opening inner closing rest ihInner ihRest =>
    simp [mirrorOnto, ihInner, ihRest, toPhrase, Phrase.tokens, Phrases.tokens]

variable {r after} {operators : Table Operator} {limit : Int}

/-- Without names of calls, the brackets of a mirror image have their partners. -/
theorem matched_mirrorOnto (h : r.toPhrase.Matched)
    (hcalls : ∀ t ∈ r.toPhrase.tokens, t.kind ≠ .call) (hafter : after.toPhrase.Matched) :
    (r.mirrorOnto after).toPhrase.Matched := by
  induction r generalizing after with
  | nil => exact hafter
  | plain token rest ih =>
    obtain ⟨hweight, hseparator, -, hrest⟩ := h
    have hcall : token.kind ≠ .call := hcalls token List.mem_cons_self
    refine ih hrest (fun t ht => hcalls t (List.mem_cons_of_mem token ht)) ?_
    rw [Token.mirror_of_weight hweight]
    exact ⟨hweight, hseparator, fun hk => absurd hk hcall, hafter⟩
  | group opening inner closing rest ihInner ihRest =>
    obtain ⟨-, hopening, hinner, hclosing, hrest⟩ := h
    have hgroup : (inner.mirrorOnto nil).toPhrase.Matched :=
      ihInner hinner (fun t ht => hcalls t (by simp [toPhrase, Phrase.tokens, Phrases.tokens, ht]))
        trivial
    refine ihRest hrest (fun t ht => hcalls t (by simp [toPhrase, Phrase.tokens, ht])) ?_
    refine ⟨nofun, ?_, hgroup, ?_, hafter⟩
    · rw [Token.mirror, hclosing]
      rfl
    · rw [Token.mirror, hopening]
      rfl

theorem toPhrase_mirrorOnto_ne_nil (h : r.toPhrase ≠ .nil) :
    (r.mirrorOnto nil).toPhrase ≠ .nil := by
  rw [Ne, ← Phrase.tokens_eq_nil_iff] at h ⊢
  rw [tokens_mirrorOnto]
  simpa [toPhrase, Phrase.tokens, mirrored] using h

theorem sound_mirrorOnto (h : r.toPhrase.Sound operators limit) (hmatched : r.toPhrase.Matched)
    (hafter : after.toPhrase.Sound (operators.mapValues Operator.flipped) limit) :
    (r.mirrorOnto after).toPhrase.Sound (operators.mapValues Operator.flipped) limit := by
  induction r generalizing after with
  | nil => exact hafter
  | plain token rest ih =>
    refine ih h.2 hmatched.2.2.2 ?_
    rw [Token.mirror_of_weight hmatched.1]
    exact ⟨by simpa using h.1, hafter⟩
  | group opening inner closing rest ihInner ihRest =>
    obtain ⟨⟨q, hq, hne⟩, hinner, hrest⟩ := h
    obtain rfl := Phrases.last.inj hq
    refine ihRest hrest hmatched.2.2.2.2 ⟨⟨_, rfl, toPhrase_mirrorOnto_ne_nil hne⟩, ?_, hafter⟩
    exact ihInner hinner hmatched.2.2.1 trivial

/-- **The pieces of the mirror image are those of the row from behind**, in the other notation. -/
theorem pieces_mirrorOnto (m : Mode) (h : r.toPhrase.Matched) :
    (r.mirrorOnto after).toPhrase.pieces m.other (operators.mapValues Operator.flipped)
      = ((r.toPhrase.pieces m operators).map Piece.mirror).reverse
        ++ after.toPhrase.pieces m.other (operators.mapValues Operator.flipped) := by
  induction r generalizing after with
  | nil => rfl
  | plain token rest ih =>
    have hpiece : (Piece.ofToken token).mirror = Piece.ofToken token := by
      rw [Piece.ofToken]
      split <;> rfl
    rw [mirrorOnto, ih h.2.2.2, Token.mirror_of_weight h.1]
    simp [toPhrase, Phrase.pieces, hpiece]
  | group opening inner closing rest ihInner ihRest =>
    have hinner := Yard.listing_mirror m operators (inner.toPhrase.pieces m operators)
    rw [mirrorOnto, ihRest h.2.2.2.2]
    simp [toPhrase, Phrase.pieces, Phrases.headPieces, ihInner h.2.2.1, hinner, Piece.mirror]

/-- The mirror image becomes the listing from behind. -/
theorem listing_mirror (m : Mode) (h : r.toPhrase.Matched) :
    r.mirror.toPhrase.listing m.other (operators.mapValues Operator.flipped)
      = (r.toPhrase.listing m operators).reverse := by
  rw [mirror, Phrase.listing, pieces_mirrorOnto m h, Phrase.listing, ← Yard.listing_mirror]
  simp [toPhrase, Phrase.pieces]

end Row

/-- A sound phrase without calls is a row. -/
theorem Phrase.exists_row {operators : Table Operator} {limit : Int} :
    (p : Phrase) → p.Matched → p.Sound operators limit → (∀ t ∈ p.tokens, t.kind ≠ .call) →
      ∃ r : Row, r.toPhrase = p
  | .nil, _, _, _ => ⟨.nil, rfl⟩
  | .plain token rest, hmatched, hsound, hcalls => by
    obtain ⟨r, hr⟩ := rest.exists_row hmatched.2.2.2 hsound.2 fun t ht =>
      hcalls t (List.mem_cons_of_mem token ht)
    exact ⟨.plain token r, by rw [Row.toPhrase, hr]⟩
  | .bracket none opening (.last inner) closing rest, hmatched, hsound, hcalls => by
    obtain ⟨i, hi⟩ := inner.exists_row hmatched.2.2.1 hsound.2.1 fun t ht =>
      hcalls t (by simp [Phrase.tokens, Phrases.tokens, ht])
    obtain ⟨r, hr⟩ := rest.exists_row hmatched.2.2.2.2 hsound.2.2 fun t ht =>
      hcalls t (by simp [Phrase.tokens, ht])
    exact ⟨.group opening i closing r, by rw [Row.toPhrase, hi, hr]⟩
  | .bracket none _ (.more ..) _ _, _, ⟨⟨_, hone, _⟩, _⟩, _ => by cases hone
  | .bracket (some name) _ _ _ _, hmatched, _, hcalls =>
    absurd (hmatched.1 name rfl) (hcalls name (by simp [Phrase.tokens]))

/-! ## Compilations -/

namespace Engine

variable {e : Engine} {sheet : Sheet} {tokens : List Token} {source : Option String}

/-- What a list without calls compiles to, its mirror image compiles to from behind. -/
theorem compile_mirror {m : Mode} (hcalls : ∀ t ∈ tokens, t.kind ≠ .call) {c : Compile.Compiled}
    (h : e.compile sheet tokens m.name source = .ok c) :
    ∃ c', e.flipped.compile sheet (mirrored tokens) m.other.name source = .ok c' ∧
      c'.listing = c.listing.reverse := by
  obtain ⟨-, p, rfl, hmatched, hsound, rfl⟩ := compile_ok_iff.1 h
  obtain ⟨r, rfl⟩ := p.exists_row hmatched hsound hcalls
  refine ⟨_, compile_ok_iff.2 ⟨fun t ht hkind => ?_, r.mirror.toPhrase, ?_, ?_, ?_, rfl⟩,
    Row.listing_mirror m hmatched⟩
  · exact absurd hkind (no_calls_mirrored hcalls t ht)
  · rw [Row.mirror, Row.tokens_mirrorOnto]
    exact List.append_nil _
  · exact Row.matched_mirrorOnto hmatched hcalls trivial
  · exact Row.sound_mirrorOnto hsound hmatched trivial

/-- **The two scans are mirror images.**  A token list without calls compiles to a listing in one
notation if and only if its mirror image, with every operator grouping to the other side, compiles
to that listing from behind in the other notation; and if one of the two does not compile, neither
does the other.  The operators can be any, also some that group to the left and some to the right on
one level. -/
theorem compile_mirrored (e : Engine) (sheet : Sheet) {tokens : List Token}
    (hcalls : ∀ t ∈ tokens, t.kind ≠ .call) (m : Mode) (source : Option String) :
    (∀ listing, (∃ c, e.compile sheet tokens m.name source = .ok c ∧ c.listing = listing) ↔
        ∃ c, e.flipped.compile sheet (mirrored tokens) m.other.name source = .ok c ∧
          c.listing = listing.reverse) ∧
      ((∃ failure, e.compile sheet tokens m.name source = .error failure) ↔
        ∃ failure,
          e.flipped.compile sheet (mirrored tokens) m.other.name source = .error failure) := by
  -- Mirroring twice changes nothing, so one direction gives the other.
  have hback {c : Compile.Compiled}
      (h : e.flipped.compile sheet (mirrored tokens) m.other.name source = .ok c) :
      ∃ c', e.compile sheet tokens m.name source = .ok c' ∧ c'.listing = c.listing.reverse := by
    simpa using compile_mirror (no_calls_mirrored hcalls) h
  refine ⟨fun listing => ⟨?_, ?_⟩, ?_⟩
  · rintro ⟨c, hc, rfl⟩
    exact compile_mirror hcalls hc
  · rintro ⟨c, hc, hlisting⟩
    obtain ⟨c', hc', hreverse⟩ := hback hc
    exact ⟨c', hc', by rw [hreverse, hlisting, List.reverse_reverse]⟩
  · cases hc : e.compile sheet tokens m.name source with
    | ok c =>
      obtain ⟨c', hc', -⟩ := compile_mirror hcalls hc
      simp [hc']
    | error failure =>
      cases hc' : e.flipped.compile sheet (mirrored tokens) m.other.name source with
      | error failure' => simp
      | ok c' =>
        obtain ⟨c, hok, -⟩ := hback hc'
        rw [hc] at hok
        cases hok

/-- The tokens of `(5-2)-2^3` and, from behind, those of `3^2-(2-5)` where `^` groups to the left
and `-` to the right. -/
theorem compile_mirrored_powers :
    let tokens : List Token := [⟨.openBracket, "(", 0, 0⟩, ⟨.number, "5", 1, 1⟩,
      ⟨.operator, "-", 2, 2⟩, ⟨.number, "2", 3, 3⟩, ⟨.closeBracket, ")", 4, 4⟩,
      ⟨.operator, "-", 5, 5⟩, ⟨.number, "2", 6, 6⟩, ⟨.operator, "^", 7, 7⟩, ⟨.number, "3", 8, 8⟩]
    (∀ t ∈ tokens, t.kind ≠ .call) ∧
      (∃ c, standard.compile .empty tokens "pn" none = .ok c ∧
        c.listing.map Token.text = ["-", "-", "5", "2", "^", "2", "3"]) ∧
      ∃ c, standard.flipped.compile .empty (mirrored tokens) "rpn" none = .ok c ∧
        c.listing.map Token.text = ["3", "2", "^", "2", "5", "-", "-"] := by
  intro tokens
  have hcalls : ∀ t ∈ tokens, t.kind ≠ .call := by decide
  obtain ⟨c, hc, htexts⟩ : ∃ c, standard.compile .empty tokens "pn" none = .ok c ∧
      c.listing.map Token.text = ["-", "-", "5", "2", "^", "2", "3"] := ⟨_, rfl, by decide⟩
  obtain ⟨c', hc', hreverse⟩ :=
    ((compile_mirrored standard .empty hcalls .pn none).1 c.listing).1 ⟨c, hc, rfl⟩
  refine ⟨hcalls, ⟨c, hc, htexts⟩, c', hc', ?_⟩
  rw [hreverse, List.map_reverse, htexts]
  rfl

end Engine

end Polish
