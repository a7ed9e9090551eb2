import UnitCalc.Proofs.Line.Printing
import UnitCalc.Proofs.Token.Space

namespace UnitCalc

namespace Piece

variable {o : LexOptions} {gs : List Glyph}

-- Where nothing is skipped, nothing is before a space and more text either.
theorem trivia_append_space_of_nil {comments : Bool} (hne : gs ≠ [])
    (h : trivia comments gs = [])
    (hblock : comments = true → ∀ r, gs ≠ .char '/' :: .char '*' :: r) (ds : List Glyph) :
    trivia comments (gs ++ .char ' ' :: ds) = [] := by
  have hpair {c d : Char} (hd : d ≠ ' ') (hno : ∀ r, gs = .char c :: .char d :: r → False)
      (r : List Glyph) (hr : gs ++ .char ' ' :: ds = .char c :: .char d :: r) : False := by
    rcases gs with _ | ⟨g, _ | ⟨g', gs⟩⟩
    · exact hne rfl
    · cases hr
      exact hd rfl
    · cases hr
      exact hno gs rfl
  fun_cases trivia comments gs with
  | case1 r => simp [trivia] at h
  | case2 r hc => simp [trivia, hc] at h
  | case3 r hc => rw [List.cons_append, List.cons_append, trivia, if_neg hc]
  | case4 r hc inside hi => simp [trivia, hc, hi] at h
  | case5 r hc hi => exact absurd rfl (hblock hc r)
  | case6 r hc => rw [List.cons_append, List.cons_append, trivia, if_neg hc]
  | case7 _ hspace hline hblock' =>
      rw [trivia]
      · intro r hr
        cases gs with
        | nil => exact hne rfl
        | cons g gs => exact hspace gs (by rw [(List.cons.inj hr).1])
      · exact hpair (by decide) hline
      · exact hpair (by decide) hblock'

theorem ofGlyphs_eq_atGlyph (h : trivia o.comments gs = []) : ofGlyphs o gs = atGlyph o gs := by
  simp [ofGlyphs, h]

end Piece

namespace Lexeme

open Piece

variable {o : LexOptions} {l : Lexeme} {ls : List Lexeme} {gs : List Glyph}

theorem InUnit.staysInLine (h : l.InUnit) : l.kind.StaysInLine := by
  cases h with
  | part h =>
      simp only [Lexeme.part]
      split <;> decide
  | numeral => exact (by decide : TokenKind.StaysInLine .number)
  | mark h =>
      simp only [List.mem_cons, List.not_mem_nil, or_false] at h
      rcases h with rfl | rfl | rfl | rfl | rfl | rfl <;> decide

-- A lexeme is read alike when there is a space and more text after what comes after it.
theorem ReadBefore.append_space (h : l.ReadBefore o gs) (hkind : l.kind.StaysInLine)
    (ds : List Glyph) : l.ReadBefore o (gs ++ .char ' ' :: ds) where
  piece := by
    have htrivia : trivia o.comments (l.glyphs ++ gs) = [] :=
      (List.append_eq_nil_iff.mp (congrArg Piece.skipped h.piece)).1
    have hat : atGlyph o (l.glyphs ++ gs) = ⟨[], l.kind, l.glyphs, []⟩ :=
      (ofGlyphs_eq_atGlyph htrivia).symm.trans h.piece
    have hne : l.glyphs ++ gs ≠ [] := by
      intro hnil
      rw [hnil] at hat
      exact h.kind (congrArg Piece.kind hat).symm
    have hlonger : trivia o.comments (l.glyphs ++ gs ++ .char ' ' :: ds) = [] := by
      refine trivia_append_space_of_nil hne htrivia (fun hon r hr => hkind.2 ?_) ds
      have hopen := congrArg Piece.kind hat
      rw [hr] at hopen
      simp [atGlyph, hon] at hopen
      exact hopen.symm
    have hstop := atGlyph_append_of_apart hne (by rw [hat]; exact hkind.1)
      (by rw [hat]; exact hkind.2) (apart_cons rfl ds : Apart (.char ' ' :: ds))
    rw [← List.append_assoc, ofGlyphs_eq_atGlyph hlonger, hstop, hat]
  kind := h.kind

theorem Readable.before_space (h : Readable o ls) (hls : ∀ l ∈ ls, l.kind.StaysInLine)
    (ds : List Glyph) : ReadableBefore o (.char ' ' :: ds) ls := by
  induction ls with
  | nil => trivial
  | cons l ls ih =>
      obtain ⟨hl, hrest⟩ := List.forall_mem_cons.mp hls
      exact ⟨h.1.append_space hl ds, ih h.2 hrest⟩

end Lexeme

theorem Token.touches_eq_false_of_lt {a b : Token}
    (h : a.start + a.text.utf8ByteSize < b.start) : a.touches b = false := by
  have hstop : a.span.stop ≤ a.start + a.text.utf8ByteSize := Nat.min_le_left _ _
  have hne : b.start ≠ a.span.stop := by omega
  simp [Token.touches, hne]

-- Tokens with something in between are not of one word.
theorem words_append {ts us : List Token}
    (h : ∀ t ∈ ts, ∀ u ∈ us, t.start + t.text.utf8ByteSize < u.start) :
    words (ts ++ us) = words ts ++ words us :=
  List.splitBy_append fun t ht u hu =>
    Token.touches_eq_false_of_lt (h t (List.mem_of_mem_getLast? ht) u (List.mem_of_mem_head? hu))

namespace Grammar

open Lexeme

variable {o : LexOptions} {k : Category} {e f : UnitExpr} {es : List UnitExpr}

-- The words of a phrase of some tree, but for the places of its names.
def ReadAs (k : Category) (ws : List Word) (e : UnitExpr) : Prop :=
  ∃ e', Phrase k ws e' ∧ e'.bare = e.bare

-- The tokens that make up the words of a phrase, from one cursor to another. All of them count.
structure PhraseTokens (o : LexOptions) (k : Category) (e : UnitExpr) (c d : Cursor)
    (ts : List Token) : Prop where
  tokens : c.tokens o = ts ++ d.tokens o
  readAs : ReadAs k (words ts) e
  kind : ∀ t ∈ ts, t.kind ≠ .lineBreak ∧ t.kind ≠ .tab ∧ t.kind ≠ .endOfFile
  stop : ∀ t ∈ ts, t.start + t.text.utf8ByteSize ≤ d.offset
  offset_le : c.offset ≤ d.offset

-- A unit, a space and a term are a product.
theorem PhraseTokens.beside {b c d : Cursor} {ts us : List Token} {gs : List Glyph}
    (h : PhraseTokens o .unit e c b ts) (hb : b.rest = .char ' ' :: gs)
    (h' : PhraseTokens o .term f (b.pass 1) d us) :
    PhraseTokens o .unit (.mul e f) c d (ts ++ us) := by
  have htokens : b.tokens o = us ++ d.tokens o := (Cursor.tokens_pass_space hb).symm.trans h'.tokens
  have hpass : (b.pass 1).offset = b.offset + 1 := by
    rw [Cursor.pass, hb]
    rfl
  have hle := h.offset_le
  have hle' := h'.offset_le
  have hapart : ∀ t ∈ ts, ∀ u ∈ us, t.start + t.text.utf8ByteSize < u.start := by
    intro t ht u hu
    have hstop := h.stop t ht
    have hstart : (b.pass 1).offset ≤ u.start :=
      Cursor.offset_le_start u (h'.tokens ▸ List.mem_append_left _ hu)
    omega
  constructor
  · rw [h.tokens, htokens, List.append_assoc]
  · obtain ⟨e', he, hbare⟩ := h.readAs
    obtain ⟨f', hf, hbare'⟩ := h'.readAs
    rw [words_append hapart]
    exact ⟨.mul e' f', .beside he hf, by rw [UnitExpr.bare, UnitExpr.bare, hbare, hbare']⟩
  · exact List.forall_mem_append.mpr ⟨h.kind, h'.kind⟩
  · refine List.forall_mem_append.mpr ⟨fun t ht => ?_, h'.stop⟩
    have hstop := h.stop t ht
    omega
  · omega

-- A printed unit is read up to the end of the text or to a space after it.
theorem Tree.exists_phraseTokens (h : Tree k e) {gs : List Glyph}
    (hgs : gs = [] ∨ ∃ ds, gs = .char ' ' :: ds) {c : Cursor}
    (hrest : c.rest = Glyph.ofString e.display ++ gs)
    (hfits : ∀ t ∈ c.tokens o, t.start + t.text.utf8ByteSize ≤ Span.maxOffset) :
    ∃ ts d, PhraseTokens o k e c d ts ∧ d.rest = gs := by
  have hinUnit : ∀ l ∈ e.spelling.flatten, l.InUnit := by
    intro l hl
    obtain ⟨w, hw, hl⟩ := List.mem_flatten.mp hl
    exact h.inUnit w hw l hl
  have hbefore : ReadableBefore o gs e.spelling.flatten := by
    rcases hgs with rfl | ⟨ds, rfl⟩
    · exact h.readable_spelling.readableBefore_nil
    · exact h.readable_spelling.before_space (fun l hl => (hinUnit l hl).staysInLine) ds
  obtain ⟨ts, d, hrow, hd⟩ := exists_rowTokens hbefore c (h.ofString_display ▸ hrest)
  obtain ⟨vs, rfl, hvs⟩ := exists_of_forall₂_flatten hrow.spells
  obtain ⟨e', hphrase, hbare, hspelled⟩ := h.exists_phrase_spelledBy hvs hrow.adjoin
  have hwords := hspelled.words_flatten fun t ht =>
    hfits t (hrow.tokens ▸ List.mem_append_left _ ht)
  refine ⟨vs.flatten, d, ⟨hrow.tokens, ⟨e', ?_, hbare⟩, ?_, hrow.stop, hrow.offset_le⟩, hd⟩
  · rwa [hwords]
  · exact kind_of_spells (p := fun k => k ≠ .lineBreak ∧ k ≠ .tab ∧ k ≠ .endOfFile) hrow.spells
      fun l hl => (hinUnit l hl).kind

-- The text of some units with spaces between them.
def displayRow (es : List UnitExpr) : String :=
  " ".intercalate (es.map UnitExpr.display)

theorem ofString_displayRow_append_singleton (hne : es ≠ []) (f : UnitExpr) :
    Glyph.ofString (displayRow (es ++ [f])) =
      Glyph.ofString (displayRow es) ++ .char ' ' :: Glyph.ofString f.display := by
  have hchars : (displayRow (es ++ [f])).toList =
      (displayRow es).toList ++ ' ' :: f.display.toList := by
    rw [displayRow, List.map_append, List.map_singleton,
      String.intercalate_append_of_ne_nil (by simpa using hne) (List.cons_ne_nil _ _),
      String.intercalate_singleton]
    simp [displayRow]
  rw [Glyph.ofString, hchars, Glyph.ofChars_append_space]
  rfl

theorem utf8ByteSize_displayRow_le {n : Nat} (h : ∀ e ∈ es, e.display.utf8ByteSize ≤ n) :
    (displayRow es).utf8ByteSize ≤ es.length * (n + 1) := by
  induction es with
  | nil => simp [displayRow]
  | cons e es ih =>
      obtain ⟨he, hes⟩ := List.forall_mem_cons.mp h
      have hrow := ih hes
      cases es with
      | nil =>
          rw [displayRow, List.map_singleton, String.intercalate_singleton]
          simp only [List.length_singleton]
          omega
      | cons f es =>
          have hspace : " ".utf8ByteSize = 1 := by decide
          rw [displayRow, List.map_cons] at hrow
          rw [displayRow, List.map_cons, List.map_cons, String.intercalate_cons_cons,
            String.utf8ByteSize_append, String.utf8ByteSize_append, hspace, List.length_cons,
            Nat.succ_mul]
          omega

-- A printed unit and terms in a row are read as their product. The induction is on the last term,
-- as products group to the left.
theorem exists_phraseTokens_row (he : Tree .unit e) (hes : ∀ f ∈ es, Tree .term f)
    {gs : List Glyph} (hgs : gs = [] ∨ ∃ ds, gs = .char ' ' :: ds) {c : Cursor}
    (hrest : c.rest = Glyph.ofString (displayRow (e :: es)) ++ gs)
    (hfits : ∀ t ∈ c.tokens o, t.start + t.text.utf8ByteSize ≤ Span.maxOffset) :
    ∃ ts d, PhraseTokens o .unit (es.foldl .mul e) c d ts ∧ d.rest = gs := by
  induction es using List.reverseRecOn generalizing gs with
  | nil =>
      refine he.exists_phraseTokens hgs ?_ hfits
      rw [hrest, displayRow, List.map_singleton, String.intercalate_singleton]
  | append_singleton es f ih =>
      obtain ⟨hes, hf⟩ := List.forall_mem_append.mp hes
      rw [← List.cons_append, ofString_displayRow_append_singleton (List.cons_ne_nil e es),
        List.append_assoc, List.cons_append] at hrest
      obtain ⟨ts, b, hts, hb⟩ := ih hes (.inr ⟨_, rfl⟩) hrest
      have hterm : Tree .term f := hf f (List.mem_singleton_self f)
      have htokens : (b.pass 1).tokens o = b.tokens o := Cursor.tokens_pass_space hb
      obtain ⟨us, d, hus, hd⟩ := hterm.exists_phraseTokens (c := b.pass 1) hgs
        (by rw [Cursor.rest_pass, hb]; rfl) fun t ht =>
          hfits t (hts.tokens ▸ List.mem_append_right _ (htokens ▸ ht))
      refine ⟨ts ++ us, d, ?_, hd⟩
      rw [List.foldl_append]
      exact hts.beside hb hus

open UnitExpr in
-- After a value they are read so too, but for the places of the names.
theorem exists_parseLines_of_row (o : LexOptions) (he : Tree .unit e)
    (hes : ∀ f ∈ es, Tree .term f)
    (hfits : ("1 " ++ displayRow (e :: es)).utf8ByteSize ≤ Span.maxOffset) :
    ∃ e', parseLines o ("1 " ++ displayRow (e :: es)) = .ok [⟨1, some e', none⟩] ∧
      e'.bare = (es.foldl mul e).bare := by
  obtain ⟨one, c, hlex, hone, hrest⟩ := exists_lex_one o (displayRow (e :: es))
  have hstop : ∀ t ∈ lex o ("1 " ++ displayRow (e :: es)),
      t.start + t.text.utf8ByteSize ≤ Span.maxOffset :=
    fun t ht => Nat.le_trans (Cursor.stop_le_of_mem_lex ht) hfits
  obtain ⟨ts, d, hts, hd⟩ := exists_phraseTokens_row he hes (.inl rfl)
    (hrest.trans (List.append_nil _).symm) fun t ht =>
      hstop t (hlex ▸ List.mem_cons_of_mem one ht)
  obtain ⟨last, htokens, hlast⟩ := Cursor.exists_tokens_of_rest_nil o hd
  have hpiece : one.isNamePiece = false :=
    Token.isNamePiece_eq_false (by rw [hone.1]; decide) (by rw [hone.1]; decide)
  have hwords : words (one :: ts) = [one] :: words ts :=
    List.splitBy_append (l := [one]) fun t ht u _ => by
      obtain rfl := Option.some.inj ht
      simp [Token.touches, hpiece]
  have hkind : ∀ t ∈ one :: ts, t.kind ≠ .lineBreak ∧ t.kind ≠ .tab ∧ t.kind ≠ .endOfFile :=
    List.forall_mem_cons.mpr ⟨by rw [hone.1]; decide, hts.kind⟩
  have hvalue : Number.read? one.text = some 1 := by
    rw [hone.2]
    decide +kernel
  obtain ⟨e', hphrase, hbare⟩ := hts.readAs
  have hline := Line.intro (.positive hone.1 hvalue) (.present hphrase) .absent
  rw [List.append_nil] at hline
  rw [hts.tokens, htokens, ← List.cons_append] at hlex
  refine ⟨e', (parseLines_eq_ok_iff_script hlex (fun t ht => (hkind t ht).2.2) hlast _).mpr ?_,
    hbare⟩
  rw [significant_eq_self fun t ht => ⟨(hkind t ht).1, (hkind t ht).2.1⟩, hwords]
  exact .last hline

end Grammar

end UnitCalc
