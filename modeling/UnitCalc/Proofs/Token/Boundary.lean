import Mathlib.Tactic.ByContra
import UnitCalc.Proofs.Token.Numeral

namespace UnitCalc

-- Whether a glyph can be in a token that begins before it, or open a comment after a slash.
def Glyph.goesOn (g : Glyph) : Bool :=
  g.is fun c => Piece.isIdentifierPart c || ['.', '+', '-', '=', '|', '&', '*'].contains c

-- Glyphs that no token goes on with.
def Apart (gs : List Glyph) : Prop :=
  ∀ g ∈ gs.head?, g.goesOn = false

theorem apart_nil : Apart [] := nofun

theorem apart_cons {g : Glyph} (h : g.goesOn = false) (gs : List Glyph) : Apart (g :: gs) := by
  rintro _ ⟨⟩
  exact h

theorem apart_lineEnd (e : LineEnding) (gs : List Glyph) : Apart (.lineEnd e :: gs) :=
  apart_cons rfl gs

namespace Piece

variable {gs ds : List Glyph}

theorem goesOn_of_isIdentifierPart {c : Char} (h : isIdentifierPart c = true) :
    (Glyph.char c).goesOn = true := by
  simp [Glyph.goesOn, Glyph.is, h]

theorem goesOn_of_isDigit {c : Char} (h : c.isDigit = true) : (Glyph.char c).goesOn = true :=
  goesOn_of_isIdentifierPart (isIdentifierPart_of_isDigit h)

theorem is_eq_false_of_apart {p : Char → Bool}
    (hp : ∀ c, p c = true → (Glyph.char c).goesOn = true) (h : Apart ds) :
    ∀ g ∈ ds.head?, g.is p = false := by
  intro g hg
  cases g with
  | lineEnd e => rfl
  | char c =>
      by_contra hc
      have hgoes := hp c (Bool.of_not_eq_false hc)
      rw [h _ hg] at hgoes
      cases hgoes

theorem takeWhile_append_of_apart {p : Char → Bool}
    (hp : ∀ c, p c = true → (Glyph.char c).goesOn = true) (h : Apart ds) :
    (gs ++ ds).takeWhile (Glyph.is p) = gs.takeWhile (Glyph.is p) := by
  induction gs with
  | nil => exact takeWhile_append_of_head? nofun (is_eq_false_of_apart hp h)
  | cons g gs ih => simp [List.takeWhile_cons, ih]

theorem head?_append_eq_char_iff {c : Char} (hc : (Glyph.char c).goesOn = true) (h : Apart ds) :
    (gs ++ ds).head? = some (.char c) ↔ gs.head? = some (.char c) := by
  cases gs with
  | cons g gs => rfl
  | nil =>
      refine ⟨fun hd => ?_, nofun⟩
      rw [h _ hd] at hc
      cases hc

theorem startsNumber_append_of_apart (c : Char) (h : Apart ds) :
    startsNumber c (gs ++ ds).head? = startsNumber c gs.head? := by
  cases gs with
  | cons g gs => rfl
  | nil =>
      have hdigit : ds.head?.any (Glyph.is Char.isDigit) = false := by
        cases ds with
        | nil => rfl
        | cons d ds => exact is_eq_false_of_apart (fun _ => goesOn_of_isDigit) h d rfl
      simp [startsNumber, hdigit]

theorem digits_append_of_apart (h : Apart ds) : digits (gs ++ ds) = digits gs :=
  takeWhile_append_of_apart (fun _ => goesOn_of_isDigit) h

theorem mantissa_append_of_apart (h : Apart ds) : mantissa (gs ++ ds) = mantissa gs := by
  have hpoint {gs : List Glyph} :
      (gs ++ ds).head? = some (.char '.') ↔ gs.head? = some (.char '.') :=
    head?_append_eq_char_iff rfl h
  by_cases hgs : gs.head? = some (.char '.')
  · obtain ⟨r, rfl⟩ := List.head?_eq_some_iff.mp hgs
    simp [mantissa, digits_append_of_apart h]
  · have hle := (digits_isPrefix gs).length_le
    rw [mantissa_of_head? hgs, mantissa_of_head? (mt hpoint.mp hgs), digits_append_of_apart h,
      List.drop_append_of_le_length hle]
    by_cases hrest : (gs.drop (digits gs).length).head? = some (.char '.')
    · obtain ⟨r, hr⟩ := List.head?_eq_some_iff.mp hrest
      simp [hr, digits_append_of_apart h]
    · have hrest' := mt hpoint.mp hrest
      generalize gs.drop (digits gs).length = rest at hrest hrest'
      split
      · rename_i hr
        simp [hr] at hrest'
      split
      · simp at hrest
      · rfl

-- The sign or digit after an exponent mark is in the number, so that a stop can only stand where
-- there is no exponent.
theorem exponent_append_of_apart (h : Apart ds) : exponent (gs ++ ds) = exponent gs := by
  rcases gs with _ | ⟨c | e, _ | ⟨s | e', r⟩⟩
  case cons.char.cons.char => simp [exponent, digits_append_of_apart h]
  case nil =>
    rcases ds with _ | ⟨d | e, _ | ⟨s | e', r⟩⟩
    case cons.char.cons.char =>
      have hd : d ≠ 'e' ∧ d ≠ 'E' := by
        constructor <;> rintro rfl <;> exact absurd (h _ rfl) (by decide)
      simp [exponent, hd]
    all_goals simp [exponent]
  case cons.char.nil =>
    rcases ds with _ | ⟨d | e, r⟩
    case cons.char =>
      have hsign : d ≠ '+' ∧ d ≠ '-' := by
        constructor <;> rintro rfl <;> exact absurd (h _ rfl) (by decide)
      have hdigit : d.isDigit = false :=
        is_eq_false_of_apart (fun _ => goesOn_of_isDigit) h (.char d) rfl
      simp [exponent, hsign, hdigit]
    all_goals simp [exponent]
  all_goals simp [exponent]

theorem number_append_of_apart (h : Apart ds) (gs : List Glyph) :
    number (gs ++ ds) = number gs := by
  have hle := (mantissa_isPrefix gs).length_le
  rw [number, mantissa_append_of_apart h, List.drop_append_of_le_length hle,
    exponent_append_of_apart h, number]

theorem word_append_of_apart (h : Apart ds) (gs : List Glyph) : word (gs ++ ds) = word gs := by
  rw [word, takeWhile_append_of_apart (fun _ => goesOn_of_isIdentifierPart) h, word]

-- What a mark is depends on the next glyph only if that can be the second one of a pair.
theorem mark_congr {c : Char} {next next' : Option Glyph}
    (h : ∀ d, (Glyph.char d).goesOn = true → (next' = some (.char d) ↔ next = some (.char d))) :
    mark c next' = mark c next := by
  simp only [mark, h '=' rfl, h '|' rfl, h '&' rfl]

theorem mark_length_le (c : Char) (r : List Glyph) : (mark c r.head?).2 ≤ r.length + 1 := by
  cases r with
  | nil =>
      unfold mark
      split <;> simp
  | cons g r =>
      unfold mark
      split <;> simp <;> split <;> simp

-- A piece is read as if the text ended before a stop, unless it is a literal or breaks off.
theorem atGlyph_append_of_apart {o : LexOptions} (hne : gs ≠ [])
    (hquoted : (atGlyph o gs).kind.isQuoted = false)
    (hcomment : (atGlyph o gs).kind ≠ .fault .unterminatedComment) (h : Apart ds) :
    atGlyph o (gs ++ ds) = atGlyph o gs := by
  match gs with
  | [] => exact absurd rfl hne
  | .lineEnd _ :: _ => rfl
  | .char c :: r =>
      have hword : word (.char c :: (r ++ ds)) = word (.char c :: r) :=
        word_append_of_apart h (.char c :: r)
      have hnumber : number (.char c :: (r ++ ds)) = number (.char c :: r) :=
        number_append_of_apart h (.char c :: r)
      have hmark : mark c (r ++ ds).head? = mark c r.head? :=
        mark_congr fun d hd => head?_append_eq_char_iff hd h
      have hstar : (r ++ ds).head? = some (.char '*') ↔ r.head? = some (.char '*') :=
        head?_append_eq_char_iff rfl h
      simp only [atGlyph, List.cons_append, hstar, hword, hnumber,
        startsNumber_append_of_apart c h, hmark] at hquoted hcomment ⊢
      split at hcomment
      · exact absurd rfl hcomment
      rename_i hopen
      rw [if_neg hopen] at hquoted
      rw [if_neg hopen, if_neg hopen]
      split
      · rfl
      rename_i htab
      rw [if_neg htab] at hquoted
      split at hquoted
      · simp [kind_literal] at hquoted
      rename_i hquote
      rw [if_neg hquote, if_neg hquote]
      split
      · rfl
      split
      · rfl
      have hle := mark_length_le c r
      rw [← List.cons_append, List.take_append_of_le_length (by simpa using hle)]

end Piece

end UnitCalc
