import UnitCalc.Proofs.Line.Names

namespace UnitCalc

namespace Piece

variable {o : LexOptions} {gs : List Glyph} {p : Piece}

theorem mark_length_of_undefined {c : Char} {next : Option Glyph}
    (h : (mark c next).1 = .undefined) : (mark c next).2 = 1 := by
  unfold mark at h ⊢
  split at h <;> first | rfl | (dsimp only at h ⊢; split at h <;> simp_all)

-- A piece of a name: a part of it that is no keyword, and what the text goes on with.
structure IsSymbolPart (gs : List Glyph) (p : Piece) (cs : List Char) (rest : List Glyph) :
    Prop where
  lexeme : p.lexeme = cs.map .char
  bare : p.skipped = [] ∧ p.closing = []
  glyphs : gs = cs.map .char ++ rest
  part : IsNamePart cs
  word : Keyword.ofWord? (String.ofList cs) = none
  ends : ∀ last ∈ cs.getLast?, ∀ g ∈ rest.head?,
    (isIdentifierPart last && g.is isIdentifierPart) = false

theorem exists_eq_map_char {q : Char → Bool} (h : ∀ g ∈ gs, g.is q = true) :
    ∃ cs : List Char, gs = cs.map .char ∧ ∀ c ∈ cs, q c = true := by
  induction gs with
  | nil => exact ⟨[], rfl, nofun⟩
  | cons g gs ih =>
      obtain ⟨hg, hgs⟩ := List.forall_mem_cons.mp h
      obtain ⟨cs, rfl, hcs⟩ := ih hgs
      cases g with
      | lineEnd e => cases hg
      | char c => exact ⟨c :: cs, rfl, List.forall_mem_cons.mpr ⟨hg, hcs⟩⟩

-- A word is as long as it can be.
theorem exists_isSymbolPart_of_word {c : Char} {r : List Glyph} (hc : isIdentifierStart c = true)
    (hkind : (word (.char c :: r)).kind = .identifier) :
    ∃ cs rest, IsSymbolPart (.char c :: r) (word (.char c :: r)) cs rest := by
  have hpart := isIdentifierPart_of_isIdentifierStart hc
  obtain ⟨cs, hcs, hall⟩ :=
    @exists_eq_map_char (r.takeWhile (Glyph.is isIdentifierPart)) isIdentifierPart
      (fun g hg => List.mem_takeWhile_imp hg)
  have hlexeme : (word (.char c :: r)).lexeme = (c :: cs).map .char := by
    rw [List.map_cons, ← hcs]
    exact List.takeWhile_cons_of_pos hpart
  refine ⟨c :: cs, r.dropWhile (Glyph.is isIdentifierPart), hlexeme, ⟨rfl, rfl⟩, ?_,
    .word hc (List.forall_mem_cons.mpr ⟨hpart, hall⟩), ?_, ?_⟩
  · rw [List.map_cons, List.cons_append, ← hcs, List.takeWhile_append_dropWhile]
  · rw [← Glyph.text_map_char, ← hlexeme]
    simp only [word] at hkind ⊢
    split at hkind
    · cases hkind
    · assumption
  · intro last hlast g hg
    have hstop := List.head?_dropWhile_not (Glyph.is isIdentifierPart) r
    rw [Option.mem_def.mp hg] at hstop
    have hg' : g.is isIdentifierPart = false := by simpa using hstop
    rw [hg', Bool.and_false]

theorem Found.exists_isSymbolPart (h : Found o gs p) {t : Token} (hkind : t.kind = p.kind)
    (htext : t.text = Glyph.text p.lexeme) (hpiece : t.isNamePiece = true) :
    ∃ cs rest, IsSymbolPart gs p cs rest := by
  have hk := Token.kind_of_isNamePiece hpiece
  rw [hkind] at hk
  cases h with
  | endOfFile | lineBreak | comment | tab | number => simp at hk
  | @literal c r hon hc =>
      have hquoted := kind_literal o.escapes c r
      rcases hk with hk | hk <;> rw [hk] at hquoted <;> cases hquoted
  | @word c r hc =>
      refine exists_isSymbolPart_of_word hc ?_
      rcases kind_word (.char c :: r) with hw | ⟨k, hw⟩
      · exact hw
      · simp [hw] at hk
  | @mark c r hword hnumber =>
      have hmark : (Piece.mark c r.head?).1 = .undefined :=
        hk.resolve_left (kind_mark_ne rfl c r.head?)
      have hlength := mark_length_of_undefined hmark
      have hc : isBeyondAscii c = true := by
        have hlexeme : t.text = Glyph.text ([c].map .char) := by
          rw [htext, hlength]
          rfl
        rw [Glyph.text_map_char] at hlexeme
        simpa [Token.isNamePiece, hkind, hmark, hlexeme, Token.isAscii, isBeyondAscii] using hpiece
      refine ⟨[c], r, ?_, ⟨rfl, rfl⟩, rfl, .char hc, ofWord?_singleton c, ?_⟩
      · rw [hlength]
        rfl
      · intro last hlast g hg
        obtain rfl : c = last := Option.some.inj hlast
        rw [isIdentifierPart_of_isBeyondAscii hc, Bool.false_and]

end Piece

theorem Glyph.eq_nil_of_size {gs : List Glyph} (h : size gs = 0) : gs = [] := by
  cases gs with
  | nil => rfl
  | cons g gs =>
      have hpos := g.width_pos
      rw [size_cons] at h
      omega

namespace Cursor

variable {o : LexOptions} {c : Cursor}

-- What a read of a piece of a name gives, and what comes after it.
structure ReadsPart (o : LexOptions) (c : Cursor) (cs : List Char) : Prop where
  text : (c.read o).1.text = String.ofList cs
  part : IsNamePart cs
  word : Keyword.ofWord? (String.ofList cs) = none
  offset : (c.read o).2.offset = (c.read o).1.start + (c.read o).1.text.utf8ByteSize
  first : (c.read o).1.start = c.offset → c.rest.head? = cs.head?.map .char
  ends : ∀ last ∈ cs.getLast?, ∀ g ∈ (c.read o).2.rest.head?,
    (Piece.isIdentifierPart last && g.is Piece.isIdentifierPart) = false

theorem exists_readsPart (h : (c.read o).1.isNamePiece = true) : ∃ cs, c.ReadsPart o cs := by
  have hread := c.read_eq o rfl
  obtain ⟨cs, rest, hpart⟩ := (Piece.found_atGlyph o
    (c.rest.drop (Piece.trivia o.comments c.rest).length)).exists_isSymbolPart
    (by rw [hread]; rfl) (by rw [hread]; rfl) h
  have hne : cs ≠ [] := by
    obtain ⟨d, ds, rfl, -⟩ := hpart.part.exists_eq_cons
    exact List.cons_ne_nil d ds
  have hskipped : (Piece.ofGlyphs o c.rest).skipped = Piece.trivia o.comments c.rest := by
    simp [Piece.ofGlyphs, hpart.bare.1]
  have hlexeme : (Piece.ofGlyphs o c.rest).lexeme = cs.map .char := hpart.lexeme
  have hclosing : (Piece.ofGlyphs o c.rest).closing = [] := hpart.bare.2
  have hrest : c.rest = Piece.trivia o.comments c.rest ++ (cs.map .char ++ rest) := by
    rw [← hpart.glyphs]
    exact (List.prefix_iff_eq_append.mp (Piece.trivia_isPrefix o.comments c.rest)).symm
  refine ⟨cs, ?_, hpart.part, hpart.word, ?_, ?_, ?_⟩
  · rw [hread, hlexeme]
    exact Glyph.text_map_char cs
  · rw [hread]
    simp [Piece.glyphs, hclosing, Glyph.utf8ByteSize_text, Nat.add_assoc]
  · intro hstart
    have hsize : Glyph.size (Piece.trivia o.comments c.rest) = 0 := by
      rw [hread, hskipped] at hstart
      exact Nat.add_eq_left.mp hstart
    rw [Glyph.eq_nil_of_size hsize, List.nil_append] at hrest
    rw [hrest, List.head?_append_of_ne_nil _ (by simpa using hne), List.head?_map]
  · have hnext : (c.read o).2.rest = rest := by
      rw [hread]
      simp only [Piece.glyphs, hskipped, hlexeme, hclosing, List.append_nil]
      rw [← List.append_assoc] at hrest
      exact (congrArg (List.drop _) hrest).trans List.drop_left
    rw [hnext]
    exact hpart.ends

-- Of two pieces that touch, the second one is read right after the first one.
theorem partsEnd_of_touches {t : Token} (ht : t ∈ (c.read o).2.tokens o)
    (h : (c.read o).1.touches t = true) :
    PartsEnd (c.read o).1.text.toList t.text.toList := by
  simp only [Token.touches, Bool.and_eq_true, beq_iff_eq] at h
  obtain ⟨⟨hpiece, hpiece'⟩, hstart⟩ := h
  obtain ⟨cs, hcs⟩ := exists_readsPart hpiece
  have hle : t.start ≤ (c.read o).2.offset := by
    rw [hstart, hcs.offset]
    exact Nat.min_le_left _ _
  have hfirst : t = ((c.read o).2.read o).1 := by
    rw [tokens] at ht
    split at ht
    · exact List.mem_singleton.mp ht
    · rename_i hend
      refine (List.mem_cons.mp ht).resolve_right fun ht => ?_
      have hlt := offset_lt_offset_read hend
      have hge := offset_le_start t ht
      omega
  subst hfirst
  obtain ⟨ds, hds⟩ := exists_readsPart hpiece'
  have hhead := hds.first (Nat.le_antisymm hle (offset_le_start_read o _))
  obtain ⟨d, ds, rfl, -⟩ := hds.part.exists_eq_cons
  obtain ⟨e, cs, rfl, -⟩ := hcs.part.exists_eq_cons
  have hends := hcs.ends _ (List.getLast_mem_getLast? (List.cons_ne_nil e cs)) (.char d) hhead
  rw [hcs.text, hds.text, String.toList_ofList, String.toList_ofList]
  exact ⟨List.cons_ne_nil e cs, List.cons_ne_nil d ds, hends⟩

theorem pairwise_partsEnd_tokens (o : LexOptions) (c : Cursor) :
    (c.tokens o).Pairwise fun a b => a.touches b = true → PartsEnd a.text.toList b.text.toList := by
  fun_induction c.tokens o with
  | case1 c next h => exact List.pairwise_singleton _ _
  | case2 c next h ih => exact List.pairwise_cons.mpr ⟨fun t ht => partsEnd_of_touches ht, ih⟩

end Cursor

theorem isChain_of_imp {α : Type} {R S : α → α → Prop} {as : List α} (h : as.IsChain R)
    (himp : as.IsChain fun a b => R a b → S a b) : as.IsChain S := by
  induction h with
  | nil => exact List.isChain_nil
  | singleton a => exact List.isChain_singleton a
  | cons_cons hab _ ih =>
      obtain ⟨hnext, himp⟩ := List.isChain_cons_cons.mp himp
      exact List.isChain_cons_cons.mpr ⟨hnext hab, ih himp⟩

theorem IsNamePart.isChain {p : List Char} (h : IsNamePart p) :
    p.IsChain fun a b => (Piece.isIdentifierPart a && Piece.isIdentifierPart b) = true := by
  cases h with
  | char hc => exact List.isChain_singleton _
  | word hc hcs =>
      refine (List.pairwise_of_forall_mem_list fun a ha b hb => ?_).isChain
      rw [hcs a ha, hcs b hb, Bool.and_self]

-- Parts of names fall apart as they were when they are put together.
theorem nameParts_flatten {ps : List (List Char)} (hparts : ∀ p ∈ ps, IsNamePart p)
    (hsep : ps.IsChain PartsEnd) : nameParts ps.flatten = ps := by
  refine List.splitBy_flatten (fun hnil => ?_) (fun p hp => (hparts p hp).isChain) hsep
  obtain ⟨c, cs, heq, -⟩ := (hparts [] hnil).exists_eq_cons
  cases heq

theorem exists_leaf_of_parts {w : Word} {ps : List (List Char)} (hne : w ≠ [])
    (h : List.Forall₂ Token.IsPart w ps) :
    ∃ span, w.leaf = .name (String.ofList ps.flatten) span := by
  obtain ⟨t, w, rfl⟩ := List.exists_cons_of_ne_nil hne
  exact ⟨_, leaf_cons_of_parts h⟩

-- What a name in a text is: a symbol.
def Word.IsSymbol (w : Word) : Prop :=
  ∃ symbol span, w.leaf = .name symbol span ∧ UnitCalc.IsSymbol symbol.toList

theorem isSymbol_of_mem_words {o : LexOptions} {source : String} {w : Word}
    (hw : w ∈ words (significant (lex o source))) (hname : w.IsName) : w.IsSymbol := by
  have hflatten := List.flatten_splitBy Token.touches (significant (lex o source))
  have hsub : w.Sublist (lex o source) := by
    refine (List.sublist_flatten_of_mem hw).trans ?_
    rw [words, hflatten]
    exact significant_sublist _
  have hread : ∀ t ∈ w, IsNamePart t.text.toList ∧ Keyword.ofWord? t.text = none := by
    intro t ht
    obtain ⟨c, rfl⟩ := Cursor.exists_read_of_mem_tokens (hsub.subset ht)
    obtain ⟨cs, hcs⟩ := Cursor.exists_readsPart (hname.2 _ ht)
    rw [hcs.text, String.toList_ofList]
    exact ⟨hcs.part, hcs.word⟩
  have hsep : w.IsChain fun a b => PartsEnd a.text.toList b.text.toList :=
    isChain_of_imp (List.isChain_of_mem_splitBy hw)
      (((Cursor.ofText source).pairwise_partsEnd_tokens o).sublist hsub).isChain
  have hparts : List.Forall₂ Token.IsPart w (w.map fun t => t.text.toList) := by
    refine List.forall₂_map_right_iff.mpr (List.forall₂_same.mpr fun t ht => ?_)
    exact .piece String.ofList_toList.symm (by rw [String.ofList_toList]; exact (hread t ht).2)
      (hname.2 t ht)
  have hnameParts : nameParts (w.map fun t => t.text.toList).flatten =
      w.map fun t => t.text.toList :=
    nameParts_flatten (List.forall_mem_map.mpr fun t ht => (hread t ht).1)
      ((List.isChain_map _).mpr hsep)
  obtain ⟨span, hleaf⟩ := exists_leaf_of_parts hname.1 hparts
  refine ⟨_, span, hleaf, ?_, ?_, ?_⟩
  · rw [String.toList_ofList]
    intro hnil
    rw [hnil] at hnameParts
    exact hname.1 (List.map_eq_nil_iff.mp hnameParts.symm)
  · rw [String.toList_ofList, hnameParts]
    exact List.forall_mem_map.mpr fun t ht => (hread t ht).1
  · rw [String.toList_ofList, hnameParts]
    refine List.forall_mem_map.mpr fun t ht => ?_
    rw [String.ofList_toList]
    exact (hread t ht).2

namespace Grammar

variable {ws : List Word} {e : UnitExpr}

theorem Phrase.tree {k : Category} (h : Phrase k ws e)
    (hws : ∀ w ∈ ws, w.IsName → w.IsSymbol) : Tree k e := by
  induction h with
  | name hw =>
      obtain ⟨symbol, span, hleaf, hsymbol⟩ := hws _ List.mem_cons_self hw
      rw [hleaf]
      exact .name hsymbol
  | group hopening h hclosing ih =>
      exact .group (ih fun w hw => hws w (List.mem_cons_of_mem _ (List.mem_append_left _ hw)))
  | atom h ih => exact .atom (ih hws)
  | power h hcaret hn ih =>
      obtain ⟨v, -, -, hle⟩ := hn
      exact .power (ih fun w hw => hws w (List.mem_append_left _ hw)) hle
  | term h ih => exact .term (ih hws)
  | times he hsign hf ihe ihf =>
      obtain ⟨hws, hvs⟩ := List.forall_mem_append.mp hws
      exact .mul (ihe hws) (ihf (List.forall_mem_cons.mp hvs).2)
  | divide he hsign hf ihe ihf =>
      obtain ⟨hws, hvs⟩ := List.forall_mem_append.mp hws
      exact .div (ihe hws) (ihf (List.forall_mem_cons.mp hvs).2)
  | beside he hf ihe ihf =>
      obtain ⟨hws, hvs⟩ := List.forall_mem_append.mp hws
      exact .mul (ihe hws) (ihf hvs)

-- The units of a line are phrases of some of its words.
theorem Line.exists_phrase {q : Quantity} (h : Line ws q)
    (he : q.unit = some e ∨ q.target = some e) : ∃ us ⊆ ws, Phrase .unit us e := by
  obtain @⟨ns, us, ts, v, unit, target, hvalue, hunit, htarget⟩ := h
  rcases he with rfl | rfl
  · cases hunit with
    | present hphrase =>
        exact ⟨us, List.subset_append_of_subset_left _ (List.subset_append_right ns us), hphrase⟩
  · cases htarget with
    | @present as us' _ has hphrase =>
        exact ⟨us', List.subset_append_of_subset_right _ (List.subset_cons_self [as] us'), hphrase⟩

theorem Script.exists_phrase {qs : List Quantity} {q : Quantity} (h : Script ws qs) (hq : q ∈ qs)
    (he : q.unit = some e ∨ q.target = some e) : ∃ us ⊆ ws, Phrase .unit us e := by
  induction h with
  | nil => cases hq
  | blank hend h ih =>
      obtain ⟨us, hsub, hphrase⟩ := ih hq
      exact ⟨us, List.subset_cons_of_subset _ hsub, hphrase⟩
  | last hline =>
      obtain rfl := List.mem_singleton.mp hq
      exact hline.exists_phrase he
  | cons hline hend h ih =>
      rcases List.mem_cons.mp hq with rfl | hq
      · obtain ⟨us, hsub, hphrase⟩ := hline.exists_phrase he
        exact ⟨us, List.subset_append_of_subset_left _ hsub, hphrase⟩
      · obtain ⟨us, hsub, hphrase⟩ := ih hq
        exact ⟨us, List.subset_append_of_subset_right _ (List.subset_cons_of_subset _ hsub),
          hphrase⟩

end Grammar

-- The units that the parser reads are trees.
theorem tree_of_parseLines {o : LexOptions} {source : String} {qs : List Quantity} {q : Quantity}
    {e : UnitExpr} (h : parseLines o source = .ok qs) (hq : q ∈ qs)
    (he : q.unit = some e ∨ q.target = some e) : Grammar.Tree .unit e := by
  obtain ⟨ts, last, htokens, hts, hlast, -⟩ := (Cursor.ofText source).exists_tokens_eq_append o
  have hscript := (parseLines_eq_ok_iff_script htokens hts hlast qs).mp h
  obtain ⟨us, hsub, hphrase⟩ := hscript.exists_phrase hq he
  refine hphrase.tree fun w hw hname => ?_
  have hmem : w ∈ words (significant (lex o source)) := by
    rw [lex, htokens, significant_append_of_endOfFile ts hlast, words_append_of_endOfFile _ hlast]
    exact List.mem_append_left _ (hsub hw)
  exact isSymbol_of_mem_words hmem hname

end UnitCalc
