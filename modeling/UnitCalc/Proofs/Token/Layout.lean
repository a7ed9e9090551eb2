import Mathlib.Data.List.Chain
import UnitCalc.Proofs.Token.LongestMatch

namespace UnitCalc

open Text

-- The offset just after a token.
def Token.endOffset (t : Token) : Nat :=
  t.start + t.text.utf8ByteSize

-- How some tokens make up a text from a byte offset on, each of them after some spaces.
inductive LaidOut : Nat → List Token → List Char → Prop where
  | nil {offset : Nat} : LaidOut offset [] []
  | cons {offset : Nat} {t : Token} {ts : List Token} {blanks cs : List Char}
      (hblanks : ∀ c ∈ blanks, c = ' ') (hstart : t.start = offset + byteSize blanks)
      (h : LaidOut t.endOffset ts cs) : LaidOut offset (t :: ts) (blanks ++ (t.text.toList ++ cs))

namespace Cursor

variable {c : Cursor} {t : Token}

theorem kind_read_default (c : Cursor) :
    (c.read {}).1.kind =
      (Piece.atGlyph {} (c.rest.drop (Piece.trivia false c.rest).length)).kind := by
  rw [c.read_eq {} rfl]
  rfl

-- With no options on, the next token stands after the spaces ahead.
theorem exists_blanks_read (hproper : ∀ g ∈ c.rest, g.Proper) :
    ∃ blanks : List Char, (∀ d ∈ blanks, d = ' ') ∧
      c.rest.flatMap Glyph.chars =
        blanks ++ ((c.read {}).1.text.toList ++ (c.read {}).2.rest.flatMap Glyph.chars) ∧
      (c.read {}).1.start = c.offset + byteSize blanks ∧
      (c.read {}).2.offset = (c.read {}).1.endOffset := by
  have hcarries := c.carries_ofGlyphs {} hproper
  have hquoted : (c.read {}).1.kind.isQuoted = false := by
    rw [kind_read_default]
    exact Piece.isQuoted_atGlyph_default _
  obtain ⟨hopening, hclosing⟩ := hcarries.bare hquoted
  have hchars := chars_ofGlyphs_append {} c
  have hoffset := c.offset_read {}
  have hstart := congrArg Span.start hcarries.span
  simp only [Tile.chars, hopening, hclosing, List.append_nil, Token.span] at hchars hoffset hstart
  refine ⟨_, hcarries.trivia.eq_space, ?_, hstart, ?_⟩
  · rw [hcarries.text, String.toList_ofList, ← hchars, List.append_assoc]
  · rw [hoffset, Token.endOffset, hstart, hcarries.text, utf8ByteSize_ofList, byteSize_append,
      Nat.add_assoc]

theorem laidOut_tokens (hproper : ∀ g ∈ c.rest, g.Proper) :
    LaidOut c.offset (c.tokens {}) (c.rest.flatMap Glyph.chars) := by
  fun_induction c.tokens {} with
  | case1 c next hend =>
      obtain ⟨blanks, hblanks, hchars, hstart, -⟩ := exists_blanks_read hproper
      rw [hchars, (read_of_endOfFile hend).1]
      exact .cons hblanks hstart .nil
  | case2 c next hend ih =>
      obtain ⟨blanks, hblanks, hchars, hstart, hoffset⟩ := exists_blanks_read hproper
      rw [hchars]
      refine .cons hblanks hstart ?_
      rw [← hoffset]
      exact ih (proper_read hproper)

-- Each token but the last has a text of its kind.
theorem matches_of_mem_tokens (hproper : ∀ g ∈ c.rest, g.Proper) (h : t ∈ c.tokens {})
    (hend : t.kind ≠ .endOfFile) : t.kind.Matches t.text.toList := by
  fun_induction c.tokens {} with
  | case1 c next hlast =>
      obtain rfl := List.mem_singleton.mp h
      exact absurd hlast hend
  | case2 c next _ ih =>
      rcases List.mem_cons.mp h with rfl | h
      · have hrest : c.rest.drop (Piece.trivia false c.rest).length ≠ [] := by
          intro hnil
          apply hend
          rw [kind_read_default, hnil]
          rfl
        have hmatches := Piece.matches_atGlyph
          (fun g hg => hproper g (List.mem_of_mem_drop hg)) hrest
        have hread : next.1.text.toList = (Piece.atGlyph {}
            (c.rest.drop (Piece.trivia false c.rest).length)).lexeme.flatMap Glyph.chars := by
          rw [show next = c.read {} from rfl, c.read_eq {} rfl, Glyph.text, String.toList_ofList]
          rfl
        rwa [hread, show next.1.kind = _ from c.kind_read_default]
      · exact ih (proper_read hproper) h

end Cursor

namespace LaidOut

variable {offset : Nat} {ts us : List Token} {cs : List Char}

-- The last token ends where the text does.
theorem endOffset_eq (h : LaidOut offset ts cs) :
    (ts.map Token.endOffset).getLastD offset = offset + byteSize cs := by
  induction h with
  | nil => rfl
  | cons _ hstart _ ih =>
      rw [List.map_cons, List.getLastD_cons, ih, Token.endOffset, hstart, byteSize_append,
        byteSize_append, byteSize_toList]
      omega

theorem exists_append (h : LaidOut offset (ts ++ us) cs) :
    ∃ as bs, cs = as ++ bs ∧ LaidOut offset ts as ∧ LaidOut (offset + byteSize as) us bs := by
  induction ts generalizing offset cs with
  | nil => exact ⟨[], cs, rfl, .nil, h⟩
  | cons t ts ih =>
      cases h with
      | @cons _ _ _ blanks cs hblanks hstart h =>
          obtain ⟨as, bs, rfl, has, hbs⟩ := ih h
          refine ⟨blanks ++ (t.text.toList ++ as), bs, by simp, .cons hblanks hstart has, ?_⟩
          have hoffset : t.endOffset + byteSize as =
              offset + byteSize (blanks ++ (t.text.toList ++ as)) := by
            rw [Token.endOffset, hstart, byteSize_append, byteSize_append, byteSize_toList]
            omega
          rwa [hoffset] at hbs

-- No spaces stand between tokens that touch.
theorem eq_flatMap_of_isChain (h : LaidOut offset ts cs)
    (hfirst : ∀ t ∈ ts.head?, t.start = offset)
    (hchain : ts.IsChain fun a b => b.start = a.endOffset) :
    cs = ts.flatMap fun t => t.text.toList := by
  induction h with
  | nil => rfl
  | @cons offset t ts blanks cs _ hstart _ ih =>
      have hzero : byteSize blanks = 0 := by
        have hoffset := hfirst t rfl
        omega
      have hnone : blanks = [] := by
        by_contra hsome
        exact absurd (byteSize_pos hsome) (by omega)
      rw [List.isChain_cons] at hchain
      rw [hnone, List.nil_append, List.flatMap_cons, ih hchain.1 hchain.2]

theorem exists_eq_append_text {t : Token} (h : LaidOut offset (ts ++ [t]) cs) :
    ∃ as, cs = as ++ t.text.toList := by
  obtain ⟨as, bs, rfl, -, hlast⟩ := h.exists_append
  cases hlast with
  | @cons _ _ _ blanks _ _ _ hnil =>
      cases hnil
      exact ⟨as ++ blanks, by simp⟩

theorem endOffset_le (h : LaidOut offset ts cs) :
    ∀ t ∈ ts, t.endOffset ≤ offset + byteSize cs := by
  induction h with
  | nil => exact List.forall_mem_nil _
  | @cons offset t ts blanks cs _ hstart _ ih =>
      have hsize : byteSize (blanks ++ (t.text.toList ++ cs)) =
          byteSize blanks + (t.text.utf8ByteSize + byteSize cs) := by
        rw [byteSize_append, byteSize_append, byteSize_toList]
      refine List.forall_mem_cons.mpr ⟨?_, fun u hu => (ih u hu).trans ?_⟩
      · rw [Token.endOffset]
        omega
      · rw [Token.endOffset]
        omega

end LaidOut

-- With no options on, a text is the texts of its tokens with spaces before some of them.
theorem laidOut_lex (text : List Char) : LaidOut 0 (lex {} (String.ofList text)) text := by
  have hlaid := (Cursor.ofText (String.ofList text)).laidOut_tokens (Glyph.proper_ofChars _)
  have hchars : (Cursor.ofText (String.ofList text)).rest.flatMap Glyph.chars = text := by
    rw [Cursor.ofText, Glyph.ofString, Glyph.flatMap_chars_ofChars, String.toList_ofList]
  rwa [hchars] at hlaid

theorem TokenKind.Matches.ne_nil {kind : TokenKind} {cs : List Char} (h : kind.Matches cs) :
    cs ≠ [] := by
  rcases h with htext | ⟨-, c, rfl, -⟩
  · cases htext with
    | lineBreak e => cases e <;> exact List.cons_ne_nil _ _
    | keyword k => cases k <;> exact List.cons_ne_nil _ _
    | operator o => cases o <;> exact List.cons_ne_nil _ _
    | number h =>
        obtain ⟨c, cs, rfl, -⟩ := h.exists_eq_cons
        exact List.cons_ne_nil c cs
    | _ => exact List.cons_ne_nil _ _
  · exact List.cons_ne_nil c []

theorem matches_of_lex_eq_append {text : List Char} {ts : List Token} {last : Token}
    (h : lex {} (String.ofList text) = ts ++ [last]) : ∀ t ∈ ts, t.kind.Matches t.text.toList := by
  obtain ⟨us, e, htokens, hus, -, -⟩ :=
    (Cursor.ofText (String.ofList text)).exists_tokens_eq_append {}
  obtain ⟨rfl, -⟩ := List.append_inj' (h.symm.trans htokens) rfl
  intro t ht
  have hmem : t ∈ (Cursor.ofText (String.ofList text)).tokens {} := by
    rw [htokens]
    exact List.mem_append_left _ ht
  exact Cursor.matches_of_mem_tokens (Glyph.proper_ofChars _) hmem (hus t ht)

end UnitCalc
