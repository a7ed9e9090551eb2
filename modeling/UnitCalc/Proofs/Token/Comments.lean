import Mathlib.Data.List.Basic
import UnitCalc.Proofs.Token.Seam
import UnitCalc.Proofs.Token.Trivia

namespace UnitCalc

namespace Text

-- What a scan of a text is in.
inductive Region where
  | code
  | lineComment
  | blockComment
  deriving DecidableEq, Repr

-- As many spaces as a character has bytes.
def blank (c : Char) : List Char :=
  List.replicate c.utf8Size ' '

-- Some characters from within a region on, with each byte of a comment made a space. A line comment
-- goes up to the end of its line or of the text, and a block comment ends at the first `*/`. One
-- that does not end has no such text.
def blankFrom? : Region → List Char → Option (List Char)
  | .code, '/' :: '/' :: cs => (blankFrom? .lineComment cs).map (' ' :: ' ' :: ·)
  | .code, '/' :: '*' :: cs => (blankFrom? .blockComment cs).map (' ' :: ' ' :: ·)
  | .code, c :: cs => (blankFrom? .code cs).map (c :: ·)
  | .code, [] => some []
  | .lineComment, c :: cs =>
      if c = '\r' ∨ c = '\n' then (blankFrom? .code cs).map (c :: ·)
      else (blankFrom? .lineComment cs).map (blank c ++ ·)
  | .lineComment, [] => some []
  | .blockComment, '*' :: '/' :: cs => (blankFrom? .code cs).map (' ' :: ' ' :: ·)
  | .blockComment, c :: cs => (blankFrom? .blockComment cs).map (blank c ++ ·)
  | .blockComment, [] => none

-- A text with each byte of its comments made a space, unless a block comment is never closed.
def blankComments? (source : String) : Option String :=
  (blankFrom? .code source.toList).map String.ofList

end Text

namespace Glyph

def spaces (n : Nat) : List Glyph :=
  List.replicate n (char ' ')

@[simp] theorem size_spaces (n : Nat) : size (spaces n) = n := by
  induction n with
  | zero => rfl
  | succ n ih =>
      have hspace : (char ' ').width = 1 := by decide
      rw [spaces, List.replicate_succ, size_cons, ← spaces, ih, hspace, Nat.add_comm]

theorem ofChars_spaces_append (n : Nat) (cs : List Char) :
    ofChars (List.replicate n ' ' ++ cs) = spaces n ++ ofChars cs := by
  rw [ofChars_append, List.map_replicate, spaces]
  intro c hc
  obtain ⟨-, rfl⟩ := List.mem_replicate.mp hc
  decide

-- A text starts with the characters of a glyph.
theorem exists_ofChars_eq_cons {cs : List Char} (h : cs ≠ []) :
    ∃ g ds, cs = g.chars ++ ds ∧ ofChars cs = g :: ofChars ds := by
  fun_cases ofChars cs with
  | case6 => exact absurd rfl h
  | _ => exact ⟨_, _, rfl, rfl⟩

-- The characters of a glyph are read as that glyph when no end of a line comes after them that did
-- not before.
theorem ofChars_chars_append {g : Glyph} {cs ds : List Char}
    (h : ofChars (g.chars ++ cs) = g :: ofChars cs)
    (hhead : ∀ c, c = '\r' ∨ c = '\n' → ds.head? = some c → cs.head? = some c) :
    ofChars (g.chars ++ ds) = g :: ofChars ds := by
  cases g with
  | char c =>
      have hproper : (char c).Proper := proper_ofChars (c :: cs) _ (h ▸ List.mem_cons_self)
      exact ofChars_cons hproper ds
  | lineEnd e =>
      cases e with
      | crlf | lfcr => rfl
      | lf =>
          apply ofChars.eq_3
          rintro rest rfl
          obtain ⟨cs, rfl⟩ := List.head?_eq_some_iff.mp (hhead '\r' (.inl rfl) rfl)
          cases (List.cons.inj h).1
      | cr =>
          apply ofChars.eq_4
          rintro rest rfl
          obtain ⟨cs, rfl⟩ := List.head?_eq_some_iff.mp (hhead '\n' (.inr rfl) rfl)
          cases (List.cons.inj h).1

end Glyph

namespace Text

variable {gs : List Glyph}

-- The end of a line comment is the end of its line, which is none of it.
theorem blankFrom?_of_lineEnd {c : Char} (hc : c = '\r' ∨ c = '\n') (cs : List Char) :
    blankFrom? .lineComment (c :: cs) = blankFrom? .code (c :: cs) := by
  rcases hc with rfl | rfl <;> simp [blankFrom?]

theorem exists_of_blankFrom?_lineComment (hproper : ∀ g ∈ gs, g.Proper) {bs : List Char}
    (h : blankFrom? .lineComment (gs.flatMap Glyph.chars) = some bs) :
    ∃ rest, blankFrom? .code ((gs.drop (Piece.lineComment gs).length).flatMap Glyph.chars) =
        some rest ∧
      bs = List.replicate (Glyph.size (Piece.lineComment gs)) ' ' ++ rest := by
  induction gs generalizing bs with
  | nil => exact ⟨bs, h, rfl⟩
  | cons g gs ih =>
      cases g with
      | char c =>
          have hline : Piece.lineComment (.char c :: gs) = .char c :: Piece.lineComment gs := rfl
          have hc : ¬ (c = '\r' ∨ c = '\n') := not_or.mpr (hproper _ List.mem_cons_self)
          have hwidth : (Glyph.char c).width = c.utf8Size := rfl
          rw [List.flatMap_cons, Glyph.chars, List.singleton_append, blankFrom?, if_neg hc] at h
          obtain ⟨bs, hbs, rfl⟩ := Option.map_eq_some_iff.mp h
          obtain ⟨rest, hrest, rfl⟩ := ih (fun g hg => hproper g (List.mem_cons_of_mem _ hg)) hbs
          refine ⟨rest, by rwa [hline, List.length_cons, List.drop_succ_cons], ?_⟩
          rw [hline, Glyph.size_cons, hwidth, List.replicate_add, List.append_assoc, blank]
      | lineEnd e =>
          obtain ⟨c, cs, hchars, hc⟩ := Glyph.chars_lineEnd_eq_cons e
          rw [List.flatMap_cons, hchars, List.cons_append, blankFrom?_of_lineEnd hc] at h
          exact ⟨bs, by rwa [← List.cons_append, ← hchars, ← List.flatMap_cons] at h, rfl⟩

-- A glyph in a block comment is blanked out as a whole, unless it starts the end of the comment.
theorem blankFrom?_blockComment_chars {g : Glyph} {cs : List Char}
    (h : g = .char '*' → cs.head? ≠ some '/') :
    blankFrom? .blockComment (g.chars ++ cs) =
      (blankFrom? .blockComment cs).map (List.replicate g.width ' ' ++ ·) := by
  cases g with
  | char c =>
      rw [Glyph.chars, List.singleton_append, blankFrom?]
      · rfl
      · rintro rest rfl rfl
        exact h rfl rfl
  | lineEnd e =>
      have hwidth : (Glyph.lineEnd e).width = Text.byteSize e.chars := rfl
      cases e <;> simp [Glyph.chars, LineEnding.chars, blankFrom?, hwidth, blank] <;> rfl

theorem exists_of_blankFrom?_blockComment {bs : List Char}
    (h : blankFrom? .blockComment (gs.flatMap Glyph.chars) = some bs) :
    ∃ inside rest, Piece.blockComment? gs = some inside ∧
      blankFrom? .code ((gs.drop inside.length).flatMap Glyph.chars) = some rest ∧
      bs = List.replicate (Glyph.size inside) ' ' ++ rest := by
  fun_induction Piece.blockComment? gs generalizing bs with
  | case1 r =>
      obtain ⟨rest, hrest, rfl⟩ := Option.map_eq_some_iff.mp h
      exact ⟨[.char '*', .char '/'], rest, rfl, hrest, rfl⟩
  | case2 g gs hg ih =>
      have hslash : g = .char '*' → (gs.flatMap Glyph.chars).head? ≠ some '/' := by
        rintro rfl hslash
        obtain ⟨cs, hcs⟩ := List.head?_eq_some_iff.mp hslash
        obtain ⟨r, rfl⟩ := Glyph.exists_of_chars_eq_cons hcs (by decide)
        exact hg r rfl rfl
      rw [List.flatMap_cons, blankFrom?_blockComment_chars hslash] at h
      obtain ⟨bs, hbs, rfl⟩ := Option.map_eq_some_iff.mp h
      obtain ⟨inside, rest, hinside, hrest, rfl⟩ := ih hbs
      refine ⟨g :: inside, rest, by rw [hinside]; rfl, hrest, ?_⟩
      rw [Glyph.size_cons, List.replicate_add, List.append_assoc]
  | case3 => cases h

end Text

def OpensComment (gs : List Glyph) : Prop :=
  ∃ c r, (c = '/' ∨ c = '*') ∧ gs = .char '/' :: .char c :: r

-- Some glyphs, and the same with their comments blanked out.
inductive Blanked : List Glyph → List Glyph → Prop where
  | nil : Blanked [] []
  | glyph {g : Glyph} {gs hs : List Glyph} (hopen : ¬ OpensComment (g :: gs))
      (h : Blanked gs hs) : Blanked (g :: gs) (g :: hs)
  | lineComment {gs hs : List Glyph} (h : Blanked (gs.drop (Piece.lineComment gs).length) hs) :
      Blanked (.char '/' :: .char '/' :: gs)
        (.char ' ' :: .char ' ' :: (Glyph.spaces (Glyph.size (Piece.lineComment gs)) ++ hs))
  | blockComment {gs inside hs : List Glyph} (hinside : Piece.blockComment? gs = some inside)
      (h : Blanked (gs.drop inside.length) hs) :
      Blanked (.char '/' :: .char '*' :: gs)
        (.char ' ' :: .char ' ' :: (Glyph.spaces (Glyph.size inside) ++ hs))

namespace Blanked

variable {gs hs : List Glyph}

-- Up to where the first comment opens, the texts are the same.
theorem exists_append (h : Blanked gs hs) :
    ∃ as gs' hs', gs = as ++ gs' ∧ hs = as ++ hs' ∧ Apart gs' ∧ Apart hs' := by
  induction h with
  | nil => exact ⟨[], [], [], rfl, rfl, apart_nil, apart_nil⟩
  | @glyph g gs hs hopen h ih =>
      obtain ⟨as, gs', hs', rfl, rfl, hgs, hhs⟩ := ih
      exact ⟨g :: as, gs', hs', rfl, rfl, hgs, hhs⟩
  | lineComment h => exact ⟨[], _, _, rfl, rfl, apart_cons rfl _, apart_cons rfl _⟩
  | blockComment hinside h => exact ⟨[], _, _, rfl, rfl, apart_cons rfl _, apart_cons rfl _⟩

-- What comes after a part that is in both texts.
theorem drop (h : Blanked gs hs) {as : List Glyph} (hgs : as <+: gs) (hhs : as <+: hs) :
    Blanked (gs.drop as.length) (hs.drop as.length) := by
  induction h generalizing as with
  | nil =>
      rw [List.drop_nil]
      exact .nil
  | @glyph g gs hs hopen h ih =>
      cases as with
      | nil => exact .glyph hopen h
      | cons a as =>
          exact ih (List.cons_prefix_cons.mp hgs).2 (List.cons_prefix_cons.mp hhs).2
  | lineComment h =>
      cases as with
      | nil => exact .lineComment h
      | cons a as =>
          obtain rfl := (List.cons_prefix_cons.mp hgs).1
          cases (List.cons_prefix_cons.mp hhs).1
  | blockComment hinside h =>
      cases as with
      | nil => exact .blockComment hinside h
      | cons a as =>
          obtain rfl := (List.cons_prefix_cons.mp hgs).1
          cases (List.cons_prefix_cons.mp hhs).1

end Blanked

-- The same two texts where a token starts or the text ends.
inductive AtToken : List Glyph → List Glyph → Prop where
  | nil : AtToken [] []
  | cons {g : Glyph} {gs hs : List Glyph} (hspace : g ≠ .char ' ')
      (hopen : ¬ OpensComment (g :: gs)) (h : Blanked gs hs) : AtToken (g :: gs) (g :: hs)

theorem AtToken.blanked {gs hs : List Glyph} (h : AtToken gs hs) : Blanked gs hs := by
  cases h with
  | nil => exact .nil
  | cons hspace hopen h => exact .glyph hopen h

namespace Piece

variable {o : LexOptions} {gs hs : List Glyph}

theorem trivia_cons_of_token {comments : Bool} {g : Glyph} (hspace : g ≠ .char ' ')
    (hopen : comments = true → ¬ OpensComment (g :: gs)) : trivia comments (g :: gs) = [] := by
  unfold trivia
  split
  · rename_i heq
    exact absurd (List.cons.inj heq).1 hspace
  · rename_i heq
    split
    · rename_i hon
      exact absurd ⟨'/', _, .inl rfl, heq⟩ (hopen hon)
    · rfl
  · rename_i heq
    split
    · rename_i hon
      exact absurd ⟨'*', _, .inr rfl, heq⟩ (hopen hon)
    · rfl
  · rfl

theorem trivia_spaces_append (comments : Bool) (n : Nat) (gs : List Glyph) :
    trivia comments (Glyph.spaces n ++ gs) = Glyph.spaces n ++ trivia comments gs := by
  induction n with
  | zero => rfl
  | succ n ih =>
      rw [Glyph.spaces, List.replicate_succ, ← Glyph.spaces, List.cons_append, trivia, ih]
      rfl

-- As many bytes are skipped in both texts, up to the same token.
def SkipsAlike (gs hs : List Glyph) : Prop :=
  Glyph.size (trivia false hs) = Glyph.size (trivia true gs) ∧
    AtToken (gs.drop (trivia true gs).length) (hs.drop (trivia false hs).length)

theorem SkipsAlike.comment {a b : Glyph} {inside : List Glyph} (ha : a.width = 1)
    (hb : b.width = 1)
    (htrivia : trivia true (a :: b :: gs) =
      a :: b :: inside ++ trivia true (gs.drop inside.length))
    (h : SkipsAlike (gs.drop inside.length) hs) :
    SkipsAlike (a :: b :: gs)
      (.char ' ' :: .char ' ' :: (Glyph.spaces (Glyph.size inside) ++ hs)) := by
  obtain ⟨hsize, htoken⟩ := h
  have hspace : (Glyph.char ' ').width = 1 := rfl
  have hspaces : trivia false (.char ' ' :: .char ' ' :: (Glyph.spaces (Glyph.size inside) ++ hs)) =
      .char ' ' :: .char ' ' :: (Glyph.spaces (Glyph.size inside) ++ trivia false hs) := by
    rw [trivia, trivia, trivia_spaces_append]
  rw [SkipsAlike, htrivia, hspaces]
  constructor
  · simp [ha, hb, hspace, hsize]
  · rw [List.drop_drop] at htoken
    simpa [← List.drop_drop] using htoken

theorem skipsAlike_of_blanked (h : Blanked gs hs) : SkipsAlike gs hs := by
  induction h with
  | nil =>
      have hnil (comments : Bool) : trivia comments [] = [] := by simp [trivia]
      rw [SkipsAlike, hnil, hnil]
      exact ⟨rfl, .nil⟩
  | @glyph g gs hs hopen h ih =>
      by_cases hspace : g = .char ' '
      · subst hspace
        rw [SkipsAlike, trivia, trivia, Glyph.size_cons, Glyph.size_cons, ih.1]
        exact ⟨rfl, ih.2⟩
      · have hgs : trivia true (g :: gs) = [] := trivia_cons_of_token hspace fun _ => hopen
        have hhs : trivia false (g :: hs) = [] :=
          trivia_cons_of_token hspace fun hon => absurd hon (by decide)
        rw [SkipsAlike, hgs, hhs]
        exact ⟨rfl, .cons hspace hopen h⟩
  | lineComment h ih =>
      refine .comment rfl rfl ?_ ih
      rw [trivia, if_pos rfl]
  | blockComment hinside h ih =>
      refine .comment rfl rfl ?_ ih
      rw [trivia, if_pos rfl, hinside]

theorem atGlyph_comments_off (h : ∀ r, gs ≠ .char '/' :: .char '*' :: r) :
    atGlyph { o with comments := false } gs = atGlyph o gs := by
  match gs with
  | [] | .lineEnd _ :: _ => rfl
  | .char c :: r =>
      have hopen : (c == '/' && decide (r.head? = some (.char '*'))) = false := by
        rw [Bool.and_eq_false_iff, beq_eq_false_iff_ne, decide_eq_false_iff_not]
        by_contra hopen
        rw [not_or, not_not, not_not] at hopen
        obtain ⟨rfl, hstar⟩ := hopen
        obtain ⟨r, rfl⟩ := List.head?_eq_some_iff.mp hstar
        exact h r rfl
      simp only [atGlyph, Bool.and_assoc, hopen, Bool.and_false]

-- Where a token starts, it is the same one.
theorem atGlyph_of_atToken (h : AtToken gs hs) (hquoted : o.quotedStrings = false) :
    atGlyph { o with comments := false } hs = atGlyph o gs := by
  cases h with
  | nil => rfl
  | @cons g gs hs hspace hopen h =>
      obtain ⟨as, gs', hs', rfl, rfl, hgs, hhs⟩ := h.exists_append
      have hclosed : ∀ r, g :: as ≠ .char '/' :: .char '*' :: r := fun r hr =>
        hopen ⟨'*', r ++ gs', .inr rfl, by rw [← List.cons_append, hr]; rfl⟩
      have hcomment (o : LexOptions) :
          (atGlyph o (g :: as)).kind ≠ .fault .unterminatedComment := by
        intro h
        obtain ⟨-, r, hr⟩ := exists_of_unterminatedComment h
        exact hclosed r hr
      calc atGlyph { o with comments := false } (g :: as ++ hs')
          = atGlyph { o with comments := false } (g :: as) :=
            atGlyph_append_of_apart (List.cons_ne_nil g as)
              (isQuoted_atGlyph (o := { o with comments := false }) hquoted _) (hcomment _) hhs
        _ = atGlyph o (g :: as) := atGlyph_comments_off hclosed
        _ = atGlyph o (g :: as ++ gs') :=
            (atGlyph_append_of_apart (List.cons_ne_nil g as) (isQuoted_atGlyph hquoted _)
              (hcomment _) hgs).symm

end Piece

namespace Text

-- A glyph that opens no comment stays as it is.
theorem blankFrom?_code_chars {g : Glyph} {cs : List Char}
    (h : ∀ c, c = '/' ∨ c = '*' → g = .char '/' → cs.head? ≠ some c) :
    blankFrom? .code (g.chars ++ cs) = (blankFrom? .code cs).map (g.chars ++ ·) := by
  cases g with
  | char c =>
      rw [Glyph.chars, List.singleton_append, blankFrom?]
      · rfl
      · rintro rest rfl rfl
        exact h '/' (.inl rfl) rfl rfl
      · rintro rest rfl rfl
        exact h '*' (.inr rfl) rfl rfl
  | lineEnd e => cases e <;> simp [Glyph.chars, LineEnding.chars, blankFrom?] <;> rfl

-- What is not a space starts a blanked text only if it starts the text itself.
theorem head?_of_blankFrom? {cs bs : List Char} (h : blankFrom? .code cs = some bs) {c : Char}
    (hc : c ≠ ' ') (hhead : bs.head? = some c) : cs.head? = some c := by
  unfold blankFrom? at h
  split at h
  case h_1 | h_2 =>
    obtain ⟨bs, -, rfl⟩ := Option.map_eq_some_iff.mp h
    exact absurd (Option.some.inj hhead).symm hc
  case h_3 =>
    obtain ⟨bs, -, rfl⟩ := Option.map_eq_some_iff.mp h
    exact hhead
  case h_4 =>
    cases h
    exact hhead
  all_goals contradiction

theorem length_chars_drop_le (cs : List Char) (n : Nat) :
    (((Glyph.ofChars cs).drop n).flatMap Glyph.chars).length ≤ cs.length := by
  have hall := congrArg (List.flatMap Glyph.chars) (List.take_append_drop n (Glyph.ofChars cs))
  rw [List.flatMap_append, Glyph.flatMap_chars_ofChars] at hall
  have hlength := congrArg List.length hall
  rw [List.length_append] at hlength
  omega

-- The glyphs of a blanked text are those of the text with the comments blanked out.
theorem blanked_of_blankFrom? {cs bs : List Char} (h : blankFrom? .code cs = some bs) :
    Blanked (Glyph.ofChars cs) (Glyph.ofChars bs) := by
  induction hn : cs.length using Nat.strong_induction_on generalizing cs bs with
  | h n ih =>
      -- What comes after a comment is a shorter text.
      have hrest {ds bs : List Char} {k : Nat} (hlt : ds.length < n)
          (h : blankFrom? .code (((Glyph.ofChars ds).drop k).flatMap Glyph.chars) = some bs) :
          Blanked ((Glyph.ofChars ds).drop k) (Glyph.ofChars bs) := by
        have hle := length_chars_drop_le ds k
        rw [Glyph.drop_ofChars]
        exact ih _ (by omega) h rfl
      have hspaces (k : Nat) (bs : List Char) :
          Glyph.ofChars (' ' :: ' ' :: (List.replicate k ' ' ++ bs)) =
            .char ' ' :: .char ' ' :: (Glyph.spaces k ++ Glyph.ofChars bs) := by
        rw [Glyph.ofChars_cons (by decide), Glyph.ofChars_cons (by decide),
          Glyph.ofChars_spaces_append]
      by_cases hline : ∃ ds, cs = '/' :: '/' :: ds
      · obtain ⟨ds, rfl⟩ := hline
        obtain ⟨bs, hbs, rfl⟩ := Option.map_eq_some_iff.mp h
        rw [← Glyph.flatMap_chars_ofChars ds] at hbs
        obtain ⟨rest, hcode, rfl⟩ :=
          exists_of_blankFrom?_lineComment (Glyph.proper_ofChars ds) hbs
        rw [hspaces]
        refine .lineComment (hrest ?_ hcode)
        simp only [List.length_cons] at hn
        omega
      by_cases hblock : ∃ ds, cs = '/' :: '*' :: ds
      · obtain ⟨ds, rfl⟩ := hblock
        obtain ⟨bs, hbs, rfl⟩ := Option.map_eq_some_iff.mp h
        rw [← Glyph.flatMap_chars_ofChars ds] at hbs
        obtain ⟨inside, rest, hinside, hcode, rfl⟩ := exists_of_blankFrom?_blockComment hbs
        rw [hspaces]
        refine .blockComment hinside (hrest ?_ hcode)
        simp only [List.length_cons] at hn
        omega
      by_cases hnil : cs = []
      · subst hnil
        cases h
        exact .nil
      obtain ⟨g, ds, rfl, hchars⟩ := Glyph.exists_ofChars_eq_cons hnil
      have hopen : ∀ c, c = '/' ∨ c = '*' → g = .char '/' → ds.head? ≠ some c := by
        rintro c hc rfl hds
        obtain ⟨r, rfl⟩ := List.head?_eq_some_iff.mp hds
        rcases hc with rfl | rfl
        · exact hline ⟨r, rfl⟩
        · exact hblock ⟨r, rfl⟩
      rw [blankFrom?_code_chars hopen] at h
      obtain ⟨bs, hbs, rfl⟩ := Option.map_eq_some_iff.mp h
      have hlength : ds.length < n := by
        have hpos := List.length_pos_iff.mpr g.chars_ne_nil
        rw [List.length_append] at hn
        omega
      rw [hchars, Glyph.ofChars_chars_append hchars]
      · refine .glyph ?_ (ih _ hlength hbs rfl)
        rintro ⟨c, r, hc, heq⟩
        obtain ⟨rfl, hds⟩ := List.cons.inj heq
        refine hopen c hc rfl ?_
        rw [← Glyph.flatMap_chars_ofChars ds, hds]
        rfl
      · rintro c hc hhead
        refine head?_of_blankFrom? hbs ?_ hhead
        rintro rfl
        revert hc
        decide

end Text

-- A token without its line and column.
def Token.unplaced (t : Token) : Token :=
  { t with pos := .origin }

namespace Cursor

variable {o : LexOptions} {c d : Cursor}

-- Two places in a text and in the same text with blank comments.
structure BlankedTo (c d : Cursor) : Prop where
  rest : Blanked c.rest d.rest
  offset : d.offset = c.offset

theorem BlankedTo.read (h : c.BlankedTo d) (hquoted : o.quotedStrings = false)
    (hcomments : o.comments = true) :
    (d.read { o with comments := false }).1.unplaced = (c.read o).1.unplaced ∧
      (c.read o).2.BlankedTo (d.read { o with comments := false }).2 := by
  obtain ⟨hsize, htoken⟩ := Piece.skipsAlike_of_blanked h.rest
  have hpiece := Piece.atGlyph_of_atToken htoken hquoted
  have hc := Piece.lexeme_isPrefix hquoted (c.rest.drop (Piece.trivia true c.rest).length)
  have hd := Piece.lexeme_isPrefix (o := { o with comments := false }) hquoted
    (d.rest.drop (Piece.trivia false d.rest).length)
  have hread := c.read_eq o (Piece.ofGlyphs_of_plain hquoted c.rest)
  have hread' := d.read_eq { o with comments := false }
    (Piece.ofGlyphs_of_plain (o := { o with comments := false }) hquoted d.rest)
  rw [hcomments] at hread
  rw [hread, hread', hpiece]
  rw [hpiece] at hd
  refine ⟨?_, ?_, ?_⟩
  · simp only [Token.unplaced, h.offset, hsize]
  · have hrest := htoken.blanked.drop hc hd
    simpa [Piece.glyphs, List.drop_drop, hpiece] using hrest
  · simp [Piece.glyphs, h.offset, hsize]

theorem BlankedTo.tokens (h : c.BlankedTo d) (hquoted : o.quotedStrings = false)
    (hcomments : o.comments = true) :
    (d.tokens { o with comments := false }).map Token.unplaced =
      (c.tokens o).map Token.unplaced := by
  fun_induction c.tokens o generalizing d with
  | @case1 c next hend =>
      obtain ⟨htoken, -⟩ := h.read hquoted hcomments
      have hend' : (d.read { o with comments := false }).1.kind = .endOfFile :=
        (congrArg Token.kind htoken).trans hend
      rw [Cursor.tokens, if_pos hend', List.map_singleton, htoken]
      rfl
  | @case2 c next hend ih =>
      obtain ⟨htoken, hnext⟩ := h.read hquoted hcomments
      have hend' : (d.read { o with comments := false }).1.kind ≠ .endOfFile := fun hend' =>
        hend ((congrArg Token.kind htoken).symm.trans hend')
      rw [Cursor.tokens, if_neg hend', List.map_cons, htoken, ih hnext]
      rfl

end Cursor

-- With its comments blank a text has the same tokens, but for their lines and columns.
theorem lex_blankComments {o : LexOptions} (hquoted : o.quotedStrings = false)
    (hcomments : o.comments = true) {source blanked : String}
    (h : Text.blankComments? source = some blanked) :
    (lex { o with comments := false } blanked).map Token.unplaced =
      (lex o source).map Token.unplaced := by
  obtain ⟨bs, hbs, rfl⟩ := Option.map_eq_some_iff.mp h
  have hstart : (Cursor.ofText source).BlankedTo (Cursor.ofText (String.ofList bs)) := by
    refine ⟨?_, rfl⟩
    rw [Cursor.ofText, Cursor.ofText, Glyph.ofString, Glyph.ofString, String.toList_ofList]
    exact Text.blanked_of_blankFrom? hbs
  exact hstart.tokens hquoted hcomments

end UnitCalc
