import UnitCalc.Proofs.Line.Symbols
import UnitCalc.Proofs.Token.Shift

namespace UnitCalc

namespace UnitExpr

-- A unit without the places of its names.
def bare : UnitExpr → UnitExpr
  | name symbol _ => name symbol ⟨0, 0⟩
  | mul left right => mul left.bare right.bare
  | div left right => div left.bare right.bare
  | pow base exponent => pow base.bare exponent
  | group inner => group inner.bare

end UnitExpr

theorem exists_of_forall₂_append {α β : Type} {R : α → β → Prop} {as : List α} {bs cs : List β}
    (h : List.Forall₂ R as (bs ++ cs)) :
    ∃ as₁ as₂, as = as₁ ++ as₂ ∧ List.Forall₂ R as₁ bs ∧ List.Forall₂ R as₂ cs :=
  ⟨_, _, (List.take_append_drop bs.length as).symm, List.forall₂_take_append as bs cs h,
    List.forall₂_drop_append as bs cs h⟩

-- What matches a list of lists falls apart as that does.
theorem exists_of_forall₂_flatten {α β : Type} {R : α → β → Prop} {as : List α}
    {bss : List (List β)} (h : List.Forall₂ R as bss.flatten) :
    ∃ ass, as = ass.flatten ∧ List.Forall₂ (List.Forall₂ R) ass bss := by
  induction bss generalizing as with
  | nil =>
      obtain rfl := List.forall₂_nil_right_iff.mp h
      exact ⟨[], rfl, .nil⟩
  | cons bs bss ih =>
      obtain ⟨as₁, as₂, rfl, h₁, h₂⟩ := exists_of_forall₂_append h
      obtain ⟨ass, rfl, hass⟩ := ih h₂
      exact ⟨as₁ :: ass, rfl, .cons h₁ hass⟩

theorem exists_of_forall₂_singleton {α β : Type} {R : α → β → Prop} {as : List α} {b : β}
    (h : List.Forall₂ R as [b]) : ∃ a, as = [a] ∧ R a b := by
  obtain ⟨a, as, hab, has, rfl⟩ := List.forall₂_cons_right_iff.mp h
  obtain rfl := List.forall₂_nil_right_iff.mp has
  exact ⟨a, rfl, hab⟩

namespace Token

theorem isNamePiece_eq_false {t : Token} (hword : t.kind ≠ .identifier)
    (hchar : t.kind ≠ .undefined) : t.isNamePiece = false := by
  by_contra hpiece
  exact (kind_of_isNamePiece (Bool.of_not_eq_false hpiece)).elim hword hchar

-- A token that spells a part of a name is that part.
theorem Spells.isPart {t : Token} {p : List Char} (h : t.Spells (.part p)) (hp : IsNamePart p)
    (hword : Keyword.ofWord? (String.ofList p) = none) : t.IsPart p := by
  refine .piece h.2 hword ?_
  cases hp with
  | word hc hcs =>
      have hkind : t.kind = .identifier := h.1.trans (if_pos (List.all_eq_true.mpr hcs))
      simp [isNamePiece, hkind]
  | @char c hc =>
      have hkind : t.kind = .undefined := by
        rw [h.1]
        simp [Lexeme.part, isIdentifierPart_of_isBeyondAscii hc]
      have htext : t.text = String.ofList [c] := h.2
      simpa [isNamePiece, hkind, htext, isAscii, isBeyondAscii] using hc

end Token

namespace Grammar

open Lexeme UnitExpr

variable {k : Category} {e : UnitExpr}

theorem isPart_of_spells {w : Word} {ps : List (List Char)}
    (h : List.Forall₂ Token.Spells w (ps.map part)) (hparts : ∀ p ∈ ps, IsNamePart p)
    (hword : ∀ p ∈ ps, Keyword.ofWord? (String.ofList p) = none) :
    List.Forall₂ Token.IsPart w ps := by
  induction ps generalizing w with
  | nil =>
      obtain rfl := List.forall₂_nil_right_iff.mp h
      exact .nil
  | cons p ps ih =>
      obtain ⟨t, w, ht, hw, rfl⟩ := List.forall₂_cons_right_iff.mp h
      refine .cons (ht.isPart (hparts p List.mem_cons_self) (hword p List.mem_cons_self)) ?_
      exact ih hw (fun q hq => hparts q (List.mem_cons_of_mem p hq))
        (fun q hq => hword q (List.mem_cons_of_mem p hq))

-- The tokens that spell a name make up a word of that name.
theorem phrase_of_symbol {w : Word} {cs : List Char} (hcs : IsSymbol cs)
    (h : List.Forall₂ Token.Spells w ((nameParts cs).map part)) :
    w.IsName ∧ ∃ span, w.leaf = .name (String.ofList cs) span := by
  have hparts := isPart_of_spells h hcs.parts hcs.word
  have hpiece : ∀ t ∈ w, t.isNamePiece = true := by
    intro t ht
    obtain ⟨p, hp, hpart⟩ := exists_of_mem_forall₂ hparts t ht
    cases hpart with
    | keyword _ hword => simp [hcs.word p hp] at hword
    | piece _ _ hpiece => exact hpiece
  have hne : w ≠ [] := by
    rintro rfl
    exact List.splitBy_ne_nil.mpr hcs.ne_nil (List.forall₂_nil_left_iff.mp hparts)
  have hleaf := exists_leaf_of_parts hne hparts
  rw [flatten_nameParts] at hleaf
  exact ⟨⟨hne, hpiece⟩, hleaf⟩

theorem exponent_of_spells {ns : List Word} {n : Int} (hn : n.natAbs ≤ 2 ^ 31 - 1)
    (h : List.Forall₂ (List.Forall₂ Token.Spells) ns (spellInt n)) : Exponent ns n := by
  cases n with
  | ofNat m =>
      obtain ⟨w, rfl, hw⟩ := exists_of_forall₂_singleton h
      obtain ⟨t, rfl, hkind, htext⟩ := exists_of_forall₂_singleton hw
      obtain ⟨v, hv, hint, -⟩ := Number.exists_read?_repr (n := m) (by simp at hn; omega)
      exact ⟨v, .positive hkind (by rw [htext]; exact hv), hint, hn⟩
  | negSucc m =>
      obtain ⟨w, ns, hw, hns, rfl⟩ := List.forall₂_cons_right_iff.mp h
      obtain ⟨sign, rfl, hsign, -⟩ := exists_of_forall₂_singleton hw
      obtain ⟨w, rfl, hw⟩ := exists_of_forall₂_singleton hns
      obtain ⟨t, rfl, hkind, htext⟩ := exists_of_forall₂_singleton hw
      obtain ⟨v, hv, -, hint⟩ := Number.exists_read?_repr (n := m + 1) (by simp at hn; omega)
      exact ⟨-v, .negative hsign hkind (by rw [htext]; exact hv), hint, hn⟩

-- The tokens that spell a tree make up a phrase of it.
theorem Tree.exists_phrase (h : Tree k e) {ws : List Word}
    (hws : List.Forall₂ (List.Forall₂ Token.Spells) ws e.spelling) :
    ∃ e', Phrase k ws e' ∧ e'.bare = e.bare := by
  induction h generalizing ws with
  | @name symbol span hsymbol =>
      obtain ⟨w, rfl, hw⟩ := exists_of_forall₂_singleton hws
      obtain ⟨hname, span', hleaf⟩ := phrase_of_symbol hsymbol hw
      refine ⟨Word.leaf w, .name hname, ?_⟩
      rw [hleaf, String.ofList_toList]
      rfl
  | group h ih =>
      obtain ⟨w, ws, hw, hinner, rfl⟩ := List.forall₂_cons_right_iff.mp hws
      obtain ⟨t, rfl, hopening, -⟩ := exists_of_forall₂_singleton hw
      obtain ⟨us, vs, rfl, hus, hvs⟩ := exists_of_forall₂_append hinner
      obtain ⟨v, rfl, hv⟩ := exists_of_forall₂_singleton hvs
      obtain ⟨u, rfl, hclosing, -⟩ := exists_of_forall₂_singleton hv
      obtain ⟨e', hphrase, hbare⟩ := ih hus
      exact ⟨.group e', .group hopening hphrase hclosing, by rw [bare, bare, hbare]⟩
  | atom h ih =>
      obtain ⟨e', hphrase, hbare⟩ := ih hws
      exact ⟨e', .atom hphrase, hbare⟩
  | term h ih =>
      obtain ⟨e', hphrase, hbare⟩ := ih hws
      exact ⟨e', .term hphrase, hbare⟩
  | @power e n h hn ih =>
      obtain ⟨us, vs, rfl, hus, hvs⟩ := exists_of_forall₂_append hws
      obtain ⟨w, ns, hw, hns, rfl⟩ := List.forall₂_cons_right_iff.mp hvs
      obtain ⟨t, rfl, hcaret, -⟩ := exists_of_forall₂_singleton hw
      obtain ⟨e', hphrase, hbare⟩ := ih hus
      exact ⟨.pow e' n, .power hphrase hcaret (exponent_of_spells hn hns),
        by rw [bare, bare, hbare]⟩
  | mul he hf ihe ihf =>
      obtain ⟨us, vs, rfl, hus, hrest⟩ := exists_of_forall₂_append hws
      obtain ⟨w, vs, hw, hvs, rfl⟩ := List.forall₂_cons_right_iff.mp hrest
      obtain ⟨t, rfl, htimes, -⟩ := exists_of_forall₂_singleton hw
      obtain ⟨e', hphrase, hbare⟩ := ihe hus
      obtain ⟨f', hphrase', hbare'⟩ := ihf hvs
      exact ⟨.mul e' f', .times hphrase htimes hphrase', by rw [bare, bare, hbare, hbare']⟩
  | div he hf ihe ihf =>
      obtain ⟨us, vs, rfl, hus, hrest⟩ := exists_of_forall₂_append hws
      obtain ⟨w, vs, hw, hvs, rfl⟩ := List.forall₂_cons_right_iff.mp hrest
      obtain ⟨t, rfl, hslash, -⟩ := exists_of_forall₂_singleton hw
      obtain ⟨e', hphrase, hbare⟩ := ihe hus
      obtain ⟨f', hphrase', hbare'⟩ := ihf hvs
      exact ⟨.div e' f', .divide hphrase hslash hphrase', by rw [bare, bare, hbare, hbare']⟩

theorem Phrase.isWhole {ws : List Word} (h : Phrase k ws e) : ∀ w ∈ ws, w.IsWhole := by
  have hmark {t : Token} {kind : TokenKind} (hkind : t.kind = kind) (hword : kind ≠ .identifier)
      (hchar : kind ≠ .undefined) : Word.IsWhole [t] :=
    .token (Token.isNamePiece_eq_false (hkind ▸ hword) (hkind ▸ hchar))
  induction h with
  | name hw => exact List.forall_mem_singleton.mpr (.name hw)
  | group hopening h hclosing ih =>
      exact List.forall_mem_cons.mpr ⟨hmark hopening nofun nofun, List.forall_mem_append.mpr
        ⟨ih, List.forall_mem_singleton.mpr (hmark hclosing nofun nofun)⟩⟩
  | atom h ih | term h ih => exact ih
  | power h hcaret hn ih =>
      obtain ⟨v, hv, -, -⟩ := hn
      refine List.forall_mem_append.mpr
        ⟨ih, List.forall_mem_cons.mpr ⟨hmark hcaret nofun nofun, ?_⟩⟩
      cases hv with
      | positive hkind => exact List.forall_mem_singleton.mpr (hmark hkind nofun nofun)
      | negative hsign hkind =>
          exact List.forall_mem_cons.mpr ⟨hmark hsign nofun nofun,
            List.forall_mem_singleton.mpr (hmark hkind nofun nofun)⟩
  | times he hsign hf ihe ihf | divide he hsign hf ihe ihf =>
      exact List.forall_mem_append.mpr
        ⟨ihe, List.forall_mem_cons.mpr ⟨hmark hsign nofun nofun, ihf⟩⟩
  | beside he hf ihe ihf => exact List.forall_mem_append.mpr ⟨ihe, ihf⟩

end Grammar

theorem Word.IsWhole.ne_nil {w : Word} (h : w.IsWhole) : w ≠ [] := by
  cases h with
  | name h => exact h.1
  | token h => nofun

-- Tokens in a row with nothing in between touch when they are of one word.
theorem Word.IsWhole.isChain_touches {w : Word} (h : w.IsWhole) (hadjoin : Adjoin w)
    (hfits : ∀ t ∈ w, t.start + t.text.utf8ByteSize ≤ Span.maxOffset) :
    w.IsChain fun a b => a.touches b := by
  cases h with
  | token h => exact List.isChain_singleton _
  | name h =>
      refine hadjoin.imp_of_mem_imp fun a b ha hb hnext => ?_
      have hstop : a.span.stop = b.start := by
        rw [hnext]
        exact Nat.min_eq_left (hfits a ha)
      simp [Token.touches, h.2 a ha, h.2 b hb, hstop]

-- What holds of the kinds of some lexemes holds of those of the tokens that spell them.
theorem kind_of_spells {p : TokenKind → Prop} {ts : List Token} {ls : List Lexeme}
    (h : List.Forall₂ Token.Spells ts ls) (hls : ∀ l ∈ ls, p l.kind) : ∀ t ∈ ts, p t.kind := by
  intro t ht
  obtain ⟨l, hl, hspells⟩ := exists_of_mem_forall₂ h t ht
  exact hspells.1.symm ▸ hls l hl

theorem isNamePiece_of_hasNoPart {v : Word} {w : List Lexeme} (h : List.Forall₂ Token.Spells v w)
    (hw : Lexeme.HasNoPart w) : ∀ t ∈ v, t.isNamePiece = false := by
  intro t ht
  obtain ⟨hword, hchar⟩ := kind_of_spells (p := fun k => k ≠ .identifier ∧ k ≠ .undefined) h hw t ht
  exact Token.isNamePiece_eq_false hword hchar

theorem isChain_of_spells {vs : List Word} {ws : List (List Lexeme)}
    (h : List.Forall₂ (List.Forall₂ Token.Spells) vs ws) (hne : ∀ v ∈ vs, v ≠ [])
    (hsep : ws.IsChain fun a b => Lexeme.HasNoPart a ∨ Lexeme.HasNoPart b) :
    vs.IsChain fun a b => ∃ ha hb, (a.getLast ha).touches (b.head hb) = false := by
  induction h with
  | nil => exact List.isChain_nil
  | @cons v w vs ws hv hvs ih =>
      refine List.isChain_cons.mpr ⟨fun u hu => ?_,
        ih (fun u hu => hne u (List.mem_cons_of_mem v hu)) hsep.tail⟩
      have hvne := hne v List.mem_cons_self
      cases hvs with
      | nil => cases hu
      | @cons v' w' vs ws hv' hvs =>
          obtain rfl := Option.some.inj hu
          have hne' := hne v' (List.mem_cons_of_mem v List.mem_cons_self)
          refine ⟨hvne, hne', ?_⟩
          rcases (List.isChain_cons_cons.mp hsep).1 with hw | hw
          · have hpiece := isNamePiece_of_hasNoPart hv hw _ (List.getLast_mem hvne)
            simp [Token.touches, hpiece]
          · have hpiece := isNamePiece_of_hasNoPart hv' hw _ (List.head_mem hne')
            simp [Token.touches, hpiece]

theorem adjoin_of_mem {vs : List Word} (h : Adjoin vs.flatten) : ∀ v ∈ vs, Adjoin v :=
  fun _ hv => List.IsChain.infix h (List.infix_of_mem_flatten hv)

-- A lexeme that is a word of a line by itself.
def Lexeme.IsMark (l : Lexeme) : Prop :=
  l.kind ∉ [.identifier, .undefined, .lineBreak, .tab, .endOfFile]

-- Words in a line as lexemes spell them. There is nothing inside a word but its tokens, and no two
-- names stand side by side.
structure SpelledBy (vs : List Word) (ws : List (List Lexeme)) : Prop where
  spells : List.Forall₂ (List.Forall₂ Token.Spells) vs ws
  kind : ∀ w ∈ ws, ∀ l ∈ w, l.kind ≠ .lineBreak ∧ l.kind ≠ .tab ∧ l.kind ≠ .endOfFile
  whole : ∀ v ∈ vs, v.IsWhole
  adjoin : ∀ v ∈ vs, Adjoin v
  apart : ws.IsChain fun a b => Lexeme.HasNoPart a ∨ Lexeme.HasNoPart b

namespace SpelledBy

variable {us vs : List Word} {ws xs : List (List Lexeme)}

theorem nil : SpelledBy [] [] :=
  ⟨.nil, nofun, nofun, nofun, .nil⟩

-- A mark between two rows keeps their names apart.
theorem append_cons {t : Token} {l : Lexeme} (h : SpelledBy us ws) (ht : t.Spells l)
    (hl : l.IsMark) (h' : SpelledBy vs xs) : SpelledBy (us ++ [t] :: vs) (ws ++ [l] :: xs) := by
  simp only [Lexeme.IsMark, List.mem_cons, List.not_mem_nil, or_false, not_or] at hl
  obtain ⟨hword, hchar, hbreak, htab, hend⟩ := hl
  have hpiece : t.isNamePiece = false :=
    Token.isNamePiece_eq_false (ht.1.symm ▸ hword) (ht.1.symm ▸ hchar)
  constructor
  · exact List.rel_append h.spells (.cons (.cons ht .nil) h'.spells)
  · refine List.forall_mem_append.mpr ⟨h.kind, List.forall_mem_cons.mpr ⟨?_, h'.kind⟩⟩
    exact List.forall_mem_singleton.mpr ⟨hbreak, htab, hend⟩
  · exact List.forall_mem_append.mpr
      ⟨h.whole, List.forall_mem_cons.mpr ⟨.token hpiece, h'.whole⟩⟩
  · exact List.forall_mem_append.mpr
      ⟨h.adjoin, List.forall_mem_cons.mpr ⟨List.isChain_singleton t, h'.adjoin⟩⟩
  · exact UnitExpr.isChain_append_cons (List.forall_mem_singleton.mpr ⟨hword, hchar⟩) h.apart
      h'.apart

-- The words of the row are those that it is spelled by.
theorem words_flatten (h : SpelledBy vs ws)
    (hfits : ∀ t ∈ vs.flatten, t.start + t.text.utf8ByteSize ≤ Span.maxOffset) :
    words vs.flatten = vs := by
  have hne : ∀ v ∈ vs, v ≠ [] := fun v hv => (h.whole v hv).ne_nil
  have htouch : ∀ v ∈ vs, v.IsChain fun a b => a.touches b := fun v hv =>
    (h.whole v hv).isChain_touches (h.adjoin v hv) fun t ht =>
      hfits t (List.mem_flatten.mpr ⟨v, hv, ht⟩)
  exact List.splitBy_flatten (fun hnil => hne [] hnil rfl) htouch
    (isChain_of_spells h.spells hne h.apart)

-- A text is parsed into what the grammar reads in its words.
theorem parseLines_iff_script {o : LexOptions} {source : String} {last : Token}
    (h : SpelledBy vs ws) (hlex : lex o source = vs.flatten ++ [last])
    (hlast : last.kind = .endOfFile) (hfits : source.utf8ByteSize ≤ Span.maxOffset)
    (qs : List Quantity) : parseLines o source = .ok qs ↔ Grammar.Script vs qs := by
  have hkind : ∀ t ∈ vs.flatten, t.kind ≠ .lineBreak ∧ t.kind ≠ .tab ∧ t.kind ≠ .endOfFile := by
    intro t ht
    obtain ⟨v, hv, ht⟩ := List.mem_flatten.mp ht
    obtain ⟨w, hw, hvw⟩ := exists_of_mem_forall₂ h.spells v hv
    exact kind_of_spells (p := fun k => k ≠ .lineBreak ∧ k ≠ .tab ∧ k ≠ .endOfFile) hvw
      (h.kind w hw) t ht
  have hstop : ∀ t ∈ vs.flatten, t.start + t.text.utf8ByteSize ≤ Span.maxOffset := by
    intro t ht
    have hmem : t ∈ lex o source := hlex ▸ List.mem_append_left [last] ht
    exact Nat.le_trans (Cursor.stop_le_of_mem_lex hmem) hfits
  rw [parseLines_eq_ok_iff_script hlex (fun t ht => (hkind t ht).2.2) hlast,
    significant_eq_self fun t ht => ⟨(hkind t ht).1, (hkind t ht).2.1⟩, h.words_flatten hstop]

end SpelledBy

namespace Grammar

-- The tokens that spell a tree make up a phrase of it.
theorem Tree.exists_phrase_spelledBy {k : Category} {e : UnitExpr} {vs : List Word} (h : Tree k e)
    (hvs : List.Forall₂ (List.Forall₂ Token.Spells) vs e.spelling) (hadjoin : Adjoin vs.flatten) :
    ∃ e', Phrase k vs e' ∧ e'.bare = e.bare ∧ SpelledBy vs e.spelling := by
  obtain ⟨e', hphrase, hbare⟩ := h.exists_phrase hvs
  exact ⟨e', hphrase, hbare, hvs, fun w hw l hl => (h.inUnit w hw l hl).kind, hphrase.isWhole,
    adjoin_of_mem hadjoin, e.isChain_spelling⟩

end Grammar

namespace Cursor

-- Reading from a space is reading from after it.
theorem tokens_pass_space {o : LexOptions} {c : Cursor} {r : List Glyph}
    (h : c.rest = .char ' ' :: r) : (c.pass 1).tokens o = c.tokens o := by
  apply tokens_pass
  · simp [h]
  · rw [h, Piece.trivia]
    rfl

end Cursor

namespace Grammar

open Lexeme

variable {k : Category} {e : UnitExpr}

theorem Tree.ofString_display (h : Tree k e) :
    Glyph.ofString e.display = e.spelling.flatten.flatMap glyphs := by
  have hchars : ∀ c ∈ e.spelling.flatten.flatMap chars, c ≠ '\r' ∧ c ≠ '\n' := by
    intro c hc
    obtain ⟨l, hl, hc⟩ := List.mem_flatMap.mp hc
    obtain ⟨w, hw, hl⟩ := List.mem_flatten.mp hl
    exact (h.inUnit w hw l hl).chars c hc
  rw [Glyph.ofString, e.toList_display, ofChars_eq_map hchars, List.map_flatMap]
  rfl

theorem Tree.readable_spelling {o : LexOptions} (h : Tree k e) : Readable o e.spelling.flatten := by
  have hspelling := @Tree.readable o k e [] h trivial (by rintro g ⟨⟩)
  rwa [List.append_nil] at hspelling

-- The tokens of a printed unit, by words.
theorem Tree.exists_tokens (h : Tree k e) (o : LexOptions) {c : Cursor}
    (hrest : c.rest = Glyph.ofString e.display) :
    ∃ vs last, c.tokens o = vs.flatten ++ [last] ∧ last.kind = .endOfFile ∧
      List.Forall₂ (List.Forall₂ Token.Spells) vs e.spelling ∧ Adjoin vs.flatten := by
  obtain ⟨ts, last, htokens, hlast, hts, hadjoin, -⟩ :=
    exists_tokens_of_readable h.readable_spelling c (hrest.trans h.ofString_display)
  obtain ⟨vs, rfl, hvs⟩ := exists_of_forall₂_flatten hts
  exact ⟨vs, last, htokens, hlast, hvs, hadjoin⟩

end Grammar

open Lexeme in
-- The tokens of a value and what comes after it.
theorem exists_lex_one (o : LexOptions) (source : String) :
    ∃ one, ∃ c : Cursor, lex o ("1 " ++ source) = one :: c.tokens o ∧
      one.Spells ⟨.number, ['1']⟩ ∧ c.rest = Glyph.ofString source := by
  have hglyphs : (numeral 1).glyphs = [.char '1'] := by decide
  have hrest : (Cursor.ofText ("1 " ++ source)).rest =
      (numeral 1).glyphs ++ .char ' ' :: Glyph.ofString source := by
    rw [hglyphs, Cursor.ofText, Glyph.ofString, String.toList_append]
    exact (Glyph.ofChars_cons (by decide) _).trans
      (congrArg (.char '1' :: ·) (Glyph.ofChars_cons (by decide) _))
  have hone : (numeral 1).ReadBefore o (.char ' ' :: Glyph.ofString source) := by
    refine readBefore_numeral 1 ?_ ?_ ?_ <;> rintro g ⟨⟩ <;> decide
  have hread := (Cursor.ofText ("1 " ++ source)).read_eq o (hrest ▸ hone.piece)
  have hspace : ((Cursor.ofText ("1 " ++ source)).read o).2.rest =
      .char ' ' :: Glyph.ofString source := by
    rw [hread, hrest]
    exact List.drop_left
  refine ⟨((Cursor.ofText ("1 " ++ source)).read o).1,
    ((Cursor.ofText ("1 " ++ source)).read o).2.pass 1, ?_, ?_, ?_⟩
  · rw [Cursor.tokens_pass_space hspace, lex, Cursor.tokens,
      if_neg (by simp [hread, numeral])]
  · have htext : Glyph.text (numeral 1).glyphs = "1" := by decide
    rw [hread]
    exact ⟨rfl, htext⟩
  · rw [Cursor.rest_pass, hspace]
    rfl

open Grammar Lexeme in
-- The tokens of a value and a printed unit.
theorem exists_lex_of_tree {o : LexOptions} {k : Category} {e : UnitExpr} (h : Tree k e) :
    ∃ one vs last, lex o ("1 " ++ e.display) = one :: vs.flatten ++ [last] ∧
      one.Spells ⟨.number, ['1']⟩ ∧ last.kind = .endOfFile ∧
      List.Forall₂ (List.Forall₂ Token.Spells) vs e.spelling ∧ Adjoin vs.flatten := by
  obtain ⟨one, c, hlex, hone, hrest⟩ := exists_lex_one o e.display
  obtain ⟨vs, last, htokens, hlast, hvs, hadjoin⟩ := h.exists_tokens o hrest
  exact ⟨one, vs, last, by rw [hlex, htokens]; rfl, hone, hlast, hvs, hadjoin⟩

open Grammar in
-- A printed tree is read back, but for the places of its names.
theorem exists_parseLines_of_tree (o : LexOptions) {e : UnitExpr} (h : Tree .unit e)
    (hfits : ("1 " ++ e.display).utf8ByteSize ≤ Span.maxOffset) :
    ∃ e', parseLines o ("1 " ++ e.display) = .ok [⟨1, some e', none⟩] ∧ e'.bare = e.bare := by
  obtain ⟨one, vs, last, hlex, hone, hlast, hvs, hadjoin⟩ := exists_lex_of_tree (o := o) h
  obtain ⟨e', hphrase, hbare, hspelled⟩ := h.exists_phrase_spelledBy hvs hadjoin
  have hrow := SpelledBy.nil.append_cons hone (by simp [Lexeme.IsMark]) hspelled
  have hvalue : Number.read? one.text = some 1 := by
    rw [hone.2]
    decide +kernel
  have hline := Line.intro (.positive hone.1 hvalue) (.present hphrase) .absent
  refine ⟨e', (hrow.parseLines_iff_script hlex hlast hfits _).mpr ?_, hbare⟩
  rw [List.append_nil] at hline
  exact .last hline

-- A unit that was read is read again from its printed form, but for the places of its names.
theorem parseLines_display {o : LexOptions} {source : String} {qs : List Quantity} {q : Quantity}
    {e : UnitExpr} (h : parseLines o source = .ok qs) (hq : q ∈ qs)
    (he : q.unit = some e ∨ q.target = some e)
    (hfits : ("1 " ++ e.display).utf8ByteSize ≤ Span.maxOffset) :
    ∃ e', parseLines o ("1 " ++ e.display) = .ok [⟨1, some e', none⟩] ∧ e'.bare = e.bare :=
  exists_parseLines_of_tree o (tree_of_parseLines h hq he) hfits

def perMicrosecond : UnitExpr :=
  .div (.pow (.group (.mul (.name "kg" ⟨3, 2⟩) (.name "m" ⟨6, 1⟩))) (-2)) (.name "µs" ⟨12, 3⟩)

theorem parseLines_display_perMicrosecond :
    parseLines { comments := true } "3 (kg m)^-2/µs as N" =
      .ok [⟨3, some perMicrosecond, some (.name "N" ⟨19, 1⟩)⟩] ∧
    ∃ e', parseLines { comments := true } "1 (kg*m)^-2/µs" = .ok [⟨1, some e', none⟩] ∧
      e'.bare = perMicrosecond.bare := by
  have hparse : parseLines { comments := true } "3 (kg m)^-2/µs as N" =
      .ok [⟨3, some perMicrosecond, some (.name "N" ⟨19, 1⟩)⟩] := by
    decide +kernel
  have hprinted : perMicrosecond.display = "(kg*m)^-2/µs" := by decide
  have hagain := parseLines_display hparse List.mem_cons_self (.inl rfl)
    (by rw [hprinted]; decide)
  rw [hprinted] at hagain
  exact ⟨hparse, hagain⟩

end UnitCalc
