import Mathlib.Data.List.Forall2
import UnitCalc.Proofs.Token.Seam

namespace UnitCalc

namespace Text

-- A text with each line feed spelled as another line ending.
def withLineEnds (e : LineEnding) (source : String) : String :=
  String.ofList (source.toList.flatMap fun c => if c = '\n' then e.chars else [c])

theorem utf8ByteSize_le_withLineEnds (e : LineEnding) (source : String) :
    source.utf8ByteSize ≤ (withLineEnds e source).utf8ByteSize := by
  rw [withLineEnds, utf8ByteSize_ofList, ← byteSize_toList]
  generalize source.toList = cs
  induction cs with
  | nil => exact Nat.le_refl _
  | cons c cs ih =>
      have hfirst : c.utf8Size ≤ byteSize (if c = '\n' then e.chars else [c]) := by
        by_cases hc : c = '\n'
        · subst hc
          cases e <;> decide
        · simp [hc]
      rw [List.flatMap_cons, byteSize_append, byteSize_cons]
      omega

end Text

namespace Glyph

-- A glyph with its line ending spelled as `e`, if it is one.
def withEnding (e : LineEnding) : Glyph → Glyph
  | char c => char c
  | lineEnd _ => lineEnd e

section

variable (e : LineEnding)

@[simp] theorem withEnding_char (c : Char) : withEnding e (char c) = char c := rfl

@[simp] theorem withEnding_lineEnd (e' : LineEnding) : withEnding e (lineEnd e') = lineEnd e := rfl

@[simp] theorem is_withEnding (p : Char → Bool) (g : Glyph) : (g.withEnding e).is p = g.is p := by
  cases g <;> rfl

@[simp] theorem isLineEnd_withEnding (g : Glyph) : (g.withEnding e).isLineEnd = g.isLineEnd := by
  cases g <;> rfl

@[simp] theorem withEnding_eq_char_iff {g : Glyph} {c : Char} :
    g.withEnding e = char c ↔ g = char c := by
  cases g <;> simp

theorem map_withEnding_of_noLineEnd {gs : List Glyph} (h : ∀ g ∈ gs, g.isLineEnd = false) :
    gs.map (withEnding e) = gs := by
  have hsame : ∀ g ∈ gs, withEnding e g = g := by
    intro g hg
    cases g with
    | char c => rfl
    | lineEnd e' => exact absurd (h _ hg) (by simp [isLineEnd])
  rw [List.map_congr_left hsame, List.map_id']

end

-- The first characters of line endings are alike, so no two of them are taken for one.
theorem ofChars_append_flatMap_ending (e : LineEnding) {cs : List Char} (h : '\r' ∉ cs) :
    ofChars (e.chars ++ cs.flatMap fun c => if c = '\n' then e.chars else [c]) =
      lineEnd e :: ofChars (cs.flatMap fun c => if c = '\n' then e.chars else [c]) := by
  have hmem {d : Char} (hd : d ∈ cs.flatMap fun c => if c = '\n' then e.chars else [c]) :
      d ∈ e.chars ∨ d ≠ '\n' ∧ d ≠ '\r' := by
    obtain ⟨c, hc, hd⟩ := List.mem_flatMap.mp hd
    split at hd
    · exact .inl hd
    · rename_i hfeed
      obtain rfl := List.mem_singleton.mp hd
      refine .inr ⟨hfeed, ?_⟩
      rintro rfl
      exact h hc
  cases e with
  | crlf | lfcr => rfl
  | lf =>
      apply ofChars.eq_3
      intro rest hrest
      have hd := hmem (hrest ▸ List.mem_cons_self)
      simp [LineEnding.chars] at hd
  | cr =>
      apply ofChars.eq_4
      intro rest hrest
      have hd := hmem (hrest ▸ List.mem_cons_self)
      simp [LineEnding.chars] at hd

-- Without carriage returns each line feed is a line ending, however it is spelled.
theorem ofChars_flatMap_ending (e : LineEnding) {cs : List Char} (h : '\r' ∉ cs) :
    ofChars (cs.flatMap fun c => if c = '\n' then e.chars else [c]) =
      cs.map fun c => if c = '\n' then lineEnd e else char c := by
  induction cs with
  | nil => rfl
  | cons c cs ih =>
      have hcs : '\r' ∉ cs := fun hc => h (List.mem_cons_of_mem c hc)
      have hreturn : c ≠ '\r' := fun hc => h (hc ▸ List.mem_cons_self)
      rw [List.flatMap_cons, List.map_cons, ← ih hcs]
      by_cases hfeed : c = '\n'
      · subst hfeed
        exact ofChars_append_flatMap_ending e hcs
      · simp only [if_neg hfeed]
        exact ofChars_cons ⟨hreturn, hfeed⟩ _

theorem ofString_withLineEnds (e : LineEnding) {source : String} (h : '\r' ∉ source.toList) :
    ofString (Text.withLineEnds e source) = (ofString source).map (withEnding e) := by
  have hfeeds := ofChars_flatMap_ending .lf h
  have hsame : source.toList.flatMap (fun c => if c = '\n' then LineEnding.lf.chars else [c]) =
      source.toList := by
    have heach : ∀ c, (if c = '\n' then LineEnding.lf.chars else [c]) = [c] := by
      intro c
      split
      · rename_i hc
        rw [hc]
        rfl
      · rfl
    simp only [heach]
    exact List.flatMap_singleton' _
  rw [hsame] at hfeeds
  rw [ofString, ofString, Text.withLineEnds, String.toList_ofList, hfeeds,
    ofChars_flatMap_ending e h, List.map_map]
  apply List.map_congr_left
  intro c _
  by_cases hc : c = '\n' <;> simp [hc]

end Glyph

namespace Position

theorem after_map_withEnding (e : LineEnding) (p : Position) (gs : List Glyph) :
    p.after (gs.map (Glyph.withEnding e)) = p.after gs := by
  induction gs generalizing p with
  | nil => rfl
  | cons g gs ih =>
      have hnext : p.next (g.withEnding e) = p.next g := by
        cases g <;> rfl
      rw [List.map_cons, after_cons, hnext, ih, after_cons]

end Position

namespace Piece

-- A piece with its line endings spelled as `e`.
def withEnding (e : LineEnding) (p : Piece) : Piece :=
  ⟨p.skipped.map (Glyph.withEnding e), p.kind, p.lexeme.map (Glyph.withEnding e),
    p.closing.map (Glyph.withEnding e)⟩

variable (e : LineEnding)

theorem takeWhile_map_withEnding {p : Glyph → Bool} (hp : ∀ g, p (g.withEnding e) = p g)
    (gs : List Glyph) :
    (gs.map (Glyph.withEnding e)).takeWhile p = (gs.takeWhile p).map (Glyph.withEnding e) := by
  have hcomp : p ∘ Glyph.withEnding e = p := funext hp
  rw [List.takeWhile_map, hcomp]

theorem head?_map_eq_char_iff {gs : List Glyph} {c : Char} :
    (gs.map (Glyph.withEnding e)).head? = some (.char c) ↔ gs.head? = some (.char c) := by
  cases gs <;> simp

theorem any_head?_map {p : Char → Bool} {gs : List Glyph} :
    (gs.map (Glyph.withEnding e)).head?.any (Glyph.is p) = gs.head?.any (Glyph.is p) := by
  cases gs <;> simp

theorem digits_map (gs : List Glyph) :
    digits (gs.map (Glyph.withEnding e)) = (digits gs).map (Glyph.withEnding e) :=
  takeWhile_map_withEnding e (by simp) gs

theorem mantissa_map (gs : List Glyph) :
    mantissa (gs.map (Glyph.withEnding e)) = (mantissa gs).map (Glyph.withEnding e) := by
  by_cases hpoint : gs.head? = some (.char '.')
  · obtain ⟨r, rfl⟩ := List.head?_eq_some_iff.mp hpoint
    simp [mantissa, digits_map]
  · have hpoint' : (gs.map (Glyph.withEnding e)).head? ≠ some (.char '.') := by
      rwa [ne_eq, head?_map_eq_char_iff]
    rw [mantissa_of_head? hpoint, mantissa_of_head? hpoint', digits_map, List.length_map,
      ← List.map_drop]
    generalize gs.drop (digits gs).length = rest
    rcases rest with _ | ⟨c | _, r⟩
    · rfl
    · by_cases hc : c = '.'
      · simp [hc, digits_map]
      · simp [hc]
    · rfl

theorem exponent_map (gs : List Glyph) :
    exponent (gs.map (Glyph.withEnding e)) = (exponent gs).map (Glyph.withEnding e) := by
  match gs with
  | [] | [.char c] | [.lineEnd _] | .lineEnd _ :: _ :: _ | .char _ :: .lineEnd _ :: _ =>
      simp [exponent]
  | .char c :: .char s :: r =>
      simp only [List.map_cons, Glyph.withEnding_char, exponent, digits_map, List.isEmpty_map]
      simp only [apply_ite (List.map (Glyph.withEnding e))]
      rfl

theorem number_map (gs : List Glyph) :
    number (gs.map (Glyph.withEnding e)) = (number gs).map (Glyph.withEnding e) := by
  rw [number, mantissa_map, List.length_map, ← List.map_drop, exponent_map, ← List.map_append,
    number]

theorem word_map (gs : List Glyph) :
    word (gs.map (Glyph.withEnding e)) = (word gs).withEnding e := by
  have htake := takeWhile_map_withEnding e (p := Glyph.is isIdentifierPart) (by simp) gs
  have hsame : (gs.takeWhile (Glyph.is isIdentifierPart)).map (Glyph.withEnding e) =
      gs.takeWhile (Glyph.is isIdentifierPart) := by
    apply Glyph.map_withEnding_of_noLineEnd
    intro g hg
    have hpart : g.is isIdentifierPart = true := List.all_eq_true.mp List.all_takeWhile g hg
    cases g with
    | char c => rfl
    | lineEnd e' => cases hpart
  rw [hsame] at htake
  simp only [word, withEnding, htake, hsame, List.map_nil]

theorem plainContent_map (quote : Char) (gs : List Glyph) :
    plainContent quote (gs.map (Glyph.withEnding e)) =
      ((plainContent quote gs).1.map (Glyph.withEnding e), (plainContent quote gs).2) := by
  have hcontent := takeWhile_map_withEnding e (p := Glyph.is (· != quote)) (by simp) gs
  simp only [plainContent, hcontent, List.length_map, ← List.map_drop, head?_map_eq_char_iff]
  split <;> rfl

theorem escapedContent_cons_of_ne {quote : Char} {g : Glyph} (h : g ≠ .char '\\')
    (gs : List Glyph) :
    escapedContent quote (g :: gs) =
      if g = .char quote then ([], .string)
      else (g :: (escapedContent quote gs).1, (escapedContent quote gs).2) := by
  rw [escapedContent]
  · exact fun hg => absurd hg h
  · exact fun _ _ hg => absurd hg h

theorem escapedContent_map (quote : Char) (gs : List Glyph) :
    escapedContent quote (gs.map (Glyph.withEnding e)) =
      ((escapedContent quote gs).1.map (Glyph.withEnding e), (escapedContent quote gs).2) := by
  have hescape {g : Glyph} {gs : List Glyph} (hnil : g = .char '\\' → gs = [] → False)
      (hcons : ∀ g' gs', g = .char '\\' → gs = g' :: gs' → False) : g ≠ .char '\\' := by
    intro hg
    cases gs with
    | nil => exact hnil hg rfl
    | cons g' gs => exact hcons g' gs hg rfl
  fun_induction escapedContent quote gs with
  | case1 | case2 => rfl
  | case3 g gs hg content kind he ih => simp [escapedContent, hg, ih, he]
  | case4 g gs hg => simp [escapedContent, hg]
  | case5 gs hnil hcons =>
      rw [List.map_cons, Glyph.withEnding_char, escapedContent_cons_of_ne (hescape hnil hcons),
        if_pos rfl]
      rfl
  | case6 g gs hnil hcons hq content kind he ih =>
      have hne : g.withEnding e ≠ .char '\\' := by
        simpa using hescape hnil hcons
      rw [List.map_cons, escapedContent_cons_of_ne hne, if_neg (by simpa using hq), ih, he]
      rfl

theorem literal_map (escapes : Bool) (quote : Char) (gs : List Glyph) :
    literal escapes quote (gs.map (Glyph.withEnding e)) =
      (literal escapes quote gs).withEnding e := by
  have hclosing (kind : TokenKind) :
      (if kind = .string then [Glyph.char quote] else []).map (Glyph.withEnding e) =
        if kind = .string then [Glyph.char quote] else [] := by
    split <;> rfl
  cases escapes with
  | false => simp [literal, plainContent_map, withEnding, hclosing]
  | true => simp [literal, escapedContent_map, withEnding, hclosing]

theorem trivia_map (comments : Bool) (gs : List Glyph) :
    trivia comments (gs.map (Glyph.withEnding e)) =
      (trivia comments gs).map (Glyph.withEnding e) := by
  have hline := lineComment_map (Glyph.isLineEnd_withEnding e)
  have hblock := blockComment?_map (fun _ => Glyph.withEnding_eq_char_iff e)
    fun _ => Glyph.withEnding_eq_char_iff e
  fun_induction trivia comments gs with
  | case1 r ih => simp [trivia, ih]
  | case2 r hc ih =>
      subst hc
      rw [List.map_drop] at ih
      simp [trivia, hline, ih]
  | case3 r hc => simp [trivia, hc]
  | case4 r hc inside hi ih =>
      subst hc
      rw [List.map_drop] at ih
      simp [trivia, hblock, hi, ih]
  | case5 r hc hi => simp [trivia, hc, hblock, hi]
  | case6 r hc => simp [trivia, hc]
  | case7 gs hspace hline hblock =>
      have hpair {c d : Char} (hno : ∀ r, gs = .char c :: .char d :: r → False) (r : List Glyph)
          (h : gs.map (Glyph.withEnding e) = .char c :: .char d :: r) : False := by
        obtain ⟨g, gs', rfl, hg, h⟩ := List.map_eq_cons_iff.mp h
        obtain ⟨g', gs', rfl, hg', -⟩ := List.map_eq_cons_iff.mp h
        rw [Glyph.withEnding_eq_char_iff] at hg hg'
        exact hno gs' (by rw [hg, hg'])
      rw [trivia, List.map_nil]
      · intro r h
        obtain ⟨g, gs', rfl, hg, -⟩ := List.map_eq_cons_iff.mp h
        rw [Glyph.withEnding_eq_char_iff] at hg
        exact hspace gs' (by rw [hg])
      · exact hpair hline
      · exact hpair hblock

theorem mark_map (c : Char) (gs : List Glyph) :
    mark c (gs.map (Glyph.withEnding e)).head? = mark c gs.head? :=
  mark_congr fun _ _ => head?_map_eq_char_iff e

theorem atGlyph_map (o : LexOptions) (gs : List Glyph) :
    atGlyph o (gs.map (Glyph.withEnding e)) = (atGlyph o gs).withEnding e := by
  match gs with
  | [] => rfl
  | .lineEnd _ :: _ => rfl
  | .char c :: r =>
      have hword := word_map e (.char c :: r)
      have hnumber := number_map e (.char c :: r)
      have hstarts :
          startsNumber c (r.map (Glyph.withEnding e)).head? = startsNumber c r.head? := by
        simp only [startsNumber, any_head?_map]
      simp only [List.map_cons, Glyph.withEnding_char] at hword hnumber
      simp only [atGlyph, List.map_cons, Glyph.withEnding_char, head?_map_eq_char_iff, literal_map,
        hword, hnumber, hstarts, mark_map, apply_ite (withEnding e)]
      simp [withEnding, List.map_take]

theorem ofGlyphs_map (o : LexOptions) (gs : List Glyph) :
    ofGlyphs o (gs.map (Glyph.withEnding e)) = (ofGlyphs o gs).withEnding e := by
  simp only [ofGlyphs, trivia_map, List.length_map, ← List.map_drop, atGlyph_map]
  simp [withEnding]

end Piece

-- The kinds whose text can have a line end in it.
def TokenKind.holdsLineEnd : TokenKind → Bool
  | lineBreak | string | fault _ => true
  | _ => false

theorem TokenKind.holdsLineEnd_of_isQuoted {k : TokenKind} (h : k.isQuoted = true) :
    k.holdsLineEnd = true := by
  cases k <;> first | rfl | cases h

namespace Piece

theorem isLineEnd_of_mem_takeWhile_is {p : Char → Bool} {gs : List Glyph} {g : Glyph}
    (h : g ∈ gs.takeWhile (Glyph.is p)) : g.isLineEnd = false := by
  have hp : g.is p = true := List.all_eq_true.mp List.all_takeWhile g h
  cases g with
  | char c => rfl
  | lineEnd e => cases hp

theorem isLineEnd_of_mem_cons {c : Char} {gs : List Glyph} {g : Glyph}
    (h : g ∈ .char c :: gs) (hgs : g ∈ gs → g.isLineEnd = false) : g.isLineEnd = false := by
  rcases List.mem_cons.mp h with rfl | h
  · rfl
  · exact hgs h

theorem isLineEnd_of_mem_number {gs : List Glyph} {g : Glyph} (h : g ∈ number gs) :
    g.isLineEnd = false := by
  have hdigits {gs : List Glyph} : g ∈ digits gs → g.isLineEnd = false :=
    isLineEnd_of_mem_takeWhile_is
  rcases List.mem_append.mp h with h | h
  · unfold mantissa at h
    split at h
    · exact isLineEnd_of_mem_cons h hdigits
    · dsimp only at h
      split at h
      · rcases List.mem_append.mp h with h | h
        · exact hdigits h
        · exact isLineEnd_of_mem_cons h hdigits
      · exact hdigits h
  · have htwo {c d : Char} {gs : List Glyph} (h : g ∈ .char c :: .char d :: digits gs) :
        g.isLineEnd = false :=
      isLineEnd_of_mem_cons h fun h => isLineEnd_of_mem_cons h hdigits
    unfold exponent at h
    split at h
    · repeat' split at h
      all_goals first | exact htwo h | exact absurd h List.not_mem_nil
    · exact absurd h List.not_mem_nil

-- A mark is one character or two.
theorem isLineEnd_of_mem_take_mark {c : Char} {r : List Glyph} {g : Glyph}
    (h : g ∈ (.char c :: r).take (mark c r.head?).2) : g.isLineEnd = false := by
  have hone {r : List Glyph} (h : g ∈ (Glyph.char c :: r).take 1) : g.isLineEnd = false :=
    isLineEnd_of_mem_cons h fun h => absurd h List.not_mem_nil
  have hpair {d : Char} {k k' : TokenKind}
      (h : g ∈ (Glyph.char c :: r).take (if r.head? = some (.char d) then (k, 2) else (k', 1)).2) :
      g.isLineEnd = false := by
    split at h
    · rename_i hnext
      obtain ⟨r, rfl⟩ := List.head?_eq_some_iff.mp hnext
      exact isLineEnd_of_mem_cons h fun h =>
        isLineEnd_of_mem_cons h fun h => absurd h List.not_mem_nil
    · exact hone h
  unfold mark at h
  split at h
  all_goals first | exact hpair h | exact hone h

theorem isLineEnd_of_mem_atGlyph {o : LexOptions} {gs : List Glyph} {g : Glyph}
    (hkind : (atGlyph o gs).kind.holdsLineEnd = false) (h : g ∈ (atGlyph o gs).lexeme) :
    g.isLineEnd = false := by
  have hfound := found_atGlyph o gs
  generalize atGlyph o gs = p at hfound hkind h
  cases hfound with
  | endOfFile => exact absurd h List.not_mem_nil
  | lineBreak | comment => cases hkind
  | tab => exact isLineEnd_of_mem_cons h fun h => absurd h List.not_mem_nil
  | @literal c r hon hc =>
      have hquoted := kind_literal o.escapes c r
      rw [TokenKind.holdsLineEnd_of_isQuoted hquoted] at hkind
      cases hkind
  | word hc =>
      unfold word at h
      exact isLineEnd_of_mem_takeWhile_is h
  | number hc => exact isLineEnd_of_mem_number h
  | mark hword hnumber => exact isLineEnd_of_mem_take_mark h

end Piece

namespace Cursor

section

variable (e : LineEnding) (c : Cursor)

-- The cursor with the line endings ahead spelled as `e`.
def withEnding : Cursor :=
  ⟨c.rest.map (Glyph.withEnding e), c.offset, c.pos⟩

theorem ofText_withLineEnds {source : String} (h : '\r' ∉ source.toList) :
    ofText (Text.withLineEnds e source) = (ofText source).withEnding e := by
  rw [ofText, Glyph.ofString_withLineEnds e h]
  rfl

-- Two offsets that are as many glyphs further on.
def SamePlace (offset offset' : Nat) : Prop :=
  ∃ n ≤ c.rest.length, offset = (c.pass n).offset ∧ offset' = ((c.withEnding e).pass n).offset

end

variable {e : LineEnding} {c : Cursor} {o : LexOptions}

theorem pos_pass_withEnding (n : Nat) : ((c.withEnding e).pass n).pos = (c.pass n).pos := by
  simp only [pass, withEnding, ← List.map_take, Position.after_map_withEnding]

theorem offset_pass_add (m n : Nat) :
    (c.pass (m + n)).offset = (c.pass m).offset + Glyph.size ((c.rest.drop m).take n) := by
  rw [← pass_pass]
  rfl

theorem offset_pass_lt {m n : Nat} (h : m < n) (hn : n ≤ c.rest.length) :
    (c.pass m).offset < (c.pass n).offset := by
  obtain ⟨k, rfl⟩ := Nat.exists_eq_add_of_lt h
  have hdrop : (c.rest.drop m).take (k + 1) ≠ [] := by
    intro hnil
    have hlength := congrArg List.length hnil
    simp only [List.length_take, List.length_drop, List.length_nil] at hlength
    omega
  obtain ⟨g, gs, hg⟩ := List.exists_cons_of_ne_nil hdrop
  have hwidth := g.width_pos
  rw [Nat.add_assoc, offset_pass_add, hg, Glyph.size_cons]
  omega

-- A cursor stops at an offset once.
theorem offset_pass_inj {m n : Nat} (hm : m ≤ c.rest.length) (hn : n ≤ c.rest.length) :
    (c.pass m).offset = (c.pass n).offset ↔ m = n := by
  constructor
  · intro h
    rcases Nat.lt_trichotomy m n with hlt | heq | hlt
    · have hoffset := offset_pass_lt hlt hn
      omega
    · exact heq
    · have hoffset := offset_pass_lt hlt hm
      omega
  · rintro rfl
    rfl

theorem SamePlace.eq_iff {a a' b b' : Nat} (ha : c.SamePlace e a a') (hb : c.SamePlace e b b') :
    a' = b' ↔ a = b := by
  obtain ⟨m, hm, rfl, rfl⟩ := ha
  obtain ⟨n, hn, rfl, rfl⟩ := hb
  have hlength : (c.withEnding e).rest.length = c.rest.length := List.length_map _
  rw [offset_pass_inj hm hn, offset_pass_inj (hlength ▸ hm) (hlength ▸ hn)]

end Cursor

-- A token and the one in its place when the line endings of a text are spelled as `e`. Of the text
-- from the cursor on they take up the same glyphs.
structure Token.Respelled (e : LineEnding) (c : Cursor) (t t' : Token) : Prop where
  kind : t'.kind = t.kind
  pos : t'.pos = t.pos
  text : t.kind.holdsLineEnd = false → t'.text = t.text
  start : c.SamePlace e t.start t'.start
  stop : c.SamePlace e (t.start + t.text.utf8ByteSize) (t'.start + t'.text.utf8ByteSize)

namespace Cursor

variable {e : LineEnding} {c : Cursor} {o : LexOptions}

theorem take_pass (n : Nat) (p : Piece) :
    (c.pass n).take p = (⟨p.kind, (c.pass (n + p.skipped.length)).pos,
        (c.pass (n + p.skipped.length)).offset, Glyph.text p.lexeme⟩,
      c.pass (n + p.glyphs.length)) := by
  simp only [take, pass_pass, Piece.glyphs, List.length_append, Nat.add_assoc]

-- The text of a piece ends as many glyphs further on as it has.
theorem stop_take_pass {n : Nat} {p : Piece} (hp : p.glyphs <+: c.rest.drop n) :
    ((c.pass n).take p).1.start + ((c.pass n).take p).1.text.utf8ByteSize =
      (c.pass (n + p.skipped.length + p.lexeme.length)).offset := by
  obtain ⟨rest, hrest⟩ := hp
  have hlexeme : (c.rest.drop (n + p.skipped.length)).take p.lexeme.length = p.lexeme := by
    rw [← List.drop_drop, ← hrest, Piece.glyphs, List.append_assoc, List.append_assoc,
      List.drop_left, List.take_left]
  rw [offset_pass_add _ p.lexeme.length, hlexeme, take_pass, Glyph.utf8ByteSize_text]

theorem respelled_read {n : Nat} (hn : n ≤ c.rest.length) :
    Token.Respelled e c ((c.pass n).read o).1 (((c.withEnding e).pass n).read o).1 ∧
    ∃ m ≤ c.rest.length, ((c.pass n).read o).2 = c.pass m ∧
      (((c.withEnding e).pass n).read o).2 = (c.withEnding e).pass m := by
  have hrest : ((c.withEnding e).pass n).rest = (c.pass n).rest.map (Glyph.withEnding e) := by
    rw [rest_pass, rest_pass, List.map_drop]
    rfl
  have hp := Piece.ofGlyphs_isPrefix o (c.pass n).rest
  have hp' := Piece.ofGlyphs_isPrefix o ((c.withEnding e).pass n).rest
  have hpiece := Piece.ofGlyphs_map e o (c.pass n).rest
  have hlexeme : (Piece.ofGlyphs o (c.pass n).rest).kind.holdsLineEnd = false →
      (Piece.ofGlyphs o (c.pass n).rest).lexeme.map (Glyph.withEnding e) =
        (Piece.ofGlyphs o (c.pass n).rest).lexeme := fun hkind =>
    Glyph.map_withEnding_of_noLineEnd e fun g hg => Piece.isLineEnd_of_mem_atGlyph hkind hg
  rw [← hrest] at hpiece
  rw [hpiece] at hp'
  have hlength := hp.length_le
  simp only [read, hpiece]
  generalize Piece.ofGlyphs o (c.pass n).rest = p at hp hp' hlexeme hlength ⊢
  have hglyphs : (p.withEnding e).glyphs.length = p.glyphs.length := by
    simp [Piece.withEnding, Piece.glyphs]
  rw [rest_pass, List.length_drop, Piece.glyphs, List.length_append, List.length_append] at hlength
  have hskipped : (p.withEnding e).skipped.length = p.skipped.length := List.length_map _
  refine ⟨⟨?_, ?_, ?_, ?_, ?_⟩, n + p.glyphs.length, ?_, ?_, ?_⟩
  · rfl
  · rw [take_pass, take_pass, hskipped]
    exact pos_pass_withEnding _
  · intro hkind
    exact congrArg Glyph.text (hlexeme hkind)
  · refine ⟨n + p.skipped.length, by omega, ?_, ?_⟩
    · rw [take_pass]
    · rw [take_pass, hskipped]
  · refine ⟨n + p.skipped.length + p.lexeme.length, by omega, stop_take_pass hp, ?_⟩
    rw [stop_take_pass hp', hskipped]
    exact congrArg (fun k => (pass _ (_ + k)).offset) (List.length_map _)
  · rw [Piece.glyphs, List.length_append, List.length_append]
    omega
  · rw [take_pass]
  · rw [take_pass, hglyphs]

-- Tokens keep their kinds, their lines and columns and the glyphs they take up.
theorem respelled_tokens {n : Nat} (hn : n ≤ c.rest.length) :
    List.Forall₂ (Token.Respelled e c) ((c.pass n).tokens o)
      (((c.withEnding e).pass n).tokens o) := by
  generalize hd : c.pass n = d
  fun_induction d.tokens o generalizing n with
  | @case1 d next hend =>
      subst hd
      obtain ⟨hread, -⟩ := respelled_read (e := e) (o := o) hn
      rw [tokens, if_pos (hread.kind.trans hend)]
      exact .cons hread .nil
  | @case2 d next hend ih =>
      subst hd
      obtain ⟨hread, m, hm, hnext, hnext'⟩ := respelled_read (e := e) (o := o) hn
      have hend' : (((c.withEnding e).pass n).read o).1.kind ≠ .endOfFile := by
        rw [hread.kind]
        exact hend
      rw [tokens.eq_def o ((c.withEnding e).pass n), if_neg hend', hnext']
      exact .cons hread (ih hm hnext.symm)

end Cursor

theorem respelled_lex (o : LexOptions) (e : LineEnding) {source : String}
    (h : '\r' ∉ source.toList) :
    List.Forall₂ (Token.Respelled e (Cursor.ofText source)) (lex o source)
      (lex o (Text.withLineEnds e source)) := by
  have htokens := Cursor.respelled_tokens (e := e) (c := .ofText source) (o := o) (Nat.zero_le _)
  rwa [Cursor.pass_zero, Cursor.pass_zero, ← Cursor.ofText_withLineEnds e h] at htokens

end UnitCalc
