import UnitCalc.Proofs.Line.Words
import UnitCalc.Proofs.Token.Numeral

namespace UnitCalc

open Piece

def isBeyondAscii (c : Char) : Bool :=
  128 ≤ c.toNat

-- Names made of ASCII letters, digits and `_`, and of characters that are not ASCII. No run of
-- ASCII characters may start with a digit.
structure IsUnitName (cs : List Char) : Prop where
  ne_nil : cs ≠ []
  chars : ∀ c ∈ cs, isIdentifierPart c = true ∨ isBeyondAscii c = true
  first : ∀ c ∈ cs.head?, c.isDigit = false
  after : cs.IsChain fun a b => isBeyondAscii a = true → b.isDigit = false

def nameParts (cs : List Char) : List (List Char) :=
  cs.splitBy fun a b => isIdentifierPart a && isIdentifierPart b

-- A word, or a character that is not ASCII.
inductive IsNamePart : List Char → Prop where
  | word {c : Char} {cs : List Char} (hc : isIdentifierStart c = true)
      (hcs : ∀ d ∈ c :: cs, isIdentifierPart d = true) : IsNamePart (c :: cs)
  | char {c : Char} (hc : isBeyondAscii c = true) : IsNamePart [c]

theorem toNat_of_isIdentifierPart {c : Char} (h : isIdentifierPart c = true) :
    48 ≤ c.toNat ∧ c.toNat < 128 := by
  have hle {a b : Char} (h : decide (a.val ≤ b.val) = true) : a.toNat ≤ b.toNat :=
    UInt32.le_iff_toNat_le.mp (of_decide_eq_true h)
  simp only [isIdentifierPart, Char.isAlphanum, Bool.or_eq_true, beq_iff_eq] at h
  rcases h with (halpha | hdigit) | rfl
  · rcases Bool.or_eq_true_iff.mp halpha with hupper | hlower
    · have hrange : 65 ≤ c.toNat ∧ c.toNat ≤ 90 :=
        (of_decide_eq_true hupper).imp UInt32.le_iff_toNat_le.mp UInt32.le_iff_toNat_le.mp
      omega
    · have hrange : 97 ≤ c.toNat ∧ c.toNat ≤ 122 := (Bool.and_eq_true_iff.mp hlower).imp hle hle
      omega
  · have hrange : 48 ≤ c.toNat ∧ c.toNat ≤ 57 := (Bool.and_eq_true_iff.mp hdigit).imp hle hle
    omega
  · decide

theorem toNat_lt_of_isIdentifierPart {c : Char} (h : isIdentifierPart c = true) :
    c.toNat < 128 :=
  (toNat_of_isIdentifierPart h).2

theorem isIdentifierPart_of_isBeyondAscii {c : Char} (h : isBeyondAscii c = true) :
    isIdentifierPart c = false := by
  by_contra hpart
  have hlt := toNat_lt_of_isIdentifierPart (Bool.of_not_eq_false hpart)
  simp only [isBeyondAscii, decide_eq_true_eq] at h
  omega

theorem isIdentifierStart_of_isIdentifierPart {c : Char} (h : isIdentifierPart c = true)
    (hdigit : c.isDigit = false) : isIdentifierStart c = true := by
  simpa [isIdentifierPart, isIdentifierStart, Char.isAlphanum, hdigit] using h

-- Where one part of a name ends and the next one starts.
def PartsEnd (p q : List Char) : Prop :=
  ∃ hp hq, (isIdentifierPart (p.getLast hp) && isIdentifierPart (q.head hq)) = false

theorem flatten_nameParts (cs : List Char) : (nameParts cs).flatten = cs :=
  List.flatten_splitBy _ cs

theorem isChain_nameParts (cs : List Char) : (nameParts cs).IsChain PartsEnd :=
  List.isChain_getLast_head_splitBy (fun a b => isIdentifierPart a && isIdentifierPart b) cs

theorem isNamePart_of_isChain {p : List Char} (hne : p ≠ [])
    (hchain : p.IsChain fun a b => (isIdentifierPart a && isIdentifierPart b) = true)
    (hchars : ∀ c ∈ p, isIdentifierPart c = true ∨ isBeyondAscii c = true)
    (hfirst : ∀ c ∈ p.head?, c.isDigit = false) : IsNamePart p := by
  obtain ⟨c, cs, rfl⟩ := List.exists_cons_of_ne_nil hne
  rcases hchars c List.mem_cons_self with hc | hc
  · refine .word (isIdentifierStart_of_isIdentifierPart hc (hfirst c rfl)) ?_
    clear hchars hfirst
    induction cs generalizing c with
    | nil => simpa using hc
    | cons d cs ih =>
        rw [List.isChain_cons_cons, Bool.and_eq_true] at hchain
        exact List.forall_mem_cons.mpr ⟨hc, ih d (List.cons_ne_nil _ _) hchain.2 hchain.1.2⟩
  · cases cs with
    | nil => exact .char hc
    | cons d cs =>
        have hpart := isIdentifierPart_of_isBeyondAscii hc
        simp [List.isChain_cons_cons, hpart] at hchain

-- No part of a name starts with a digit, so that each is a word or a character.
theorem isNamePart_of_mem {ps : List (List Char)} (hne : [] ∉ ps)
    (hchain : ∀ p ∈ ps, p.IsChain fun a b => (isIdentifierPart a && isIdentifierPart b) = true)
    (hsep : ps.IsChain PartsEnd)
    (hchars : ∀ c ∈ ps.flatten, isIdentifierPart c = true ∨ isBeyondAscii c = true)
    (hfirst : ∀ c ∈ ps.flatten.head?, c.isDigit = false)
    (hafter : ps.flatten.IsChain fun a b => isBeyondAscii a = true → b.isDigit = false) :
    ∀ p ∈ ps, IsNamePart p := by
  induction ps with
  | nil => nofun
  | cons p ps ih =>
      have hpne : p ≠ [] := fun h => hne (h ▸ List.mem_cons_self)
      rw [List.flatten_cons] at hchars hfirst hafter
      have hp := isNamePart_of_isChain hpne (hchain p List.mem_cons_self)
        (fun c hc => hchars c (List.mem_append_left _ hc))
        (fun c hc => hfirst c (List.mem_head?_append_of_mem_head? hc))
      refine List.forall_mem_cons.mpr ⟨hp, ?_⟩
      refine ih (fun h => hne (List.mem_cons_of_mem _ h))
        (fun q hq => hchain q (List.mem_cons_of_mem _ hq)) hsep.tail
        (fun c hc => hchars c (List.mem_append_right _ hc)) ?_ hafter.right_of_append
      intro d hd
      cases ps with
      | nil => cases hd
      | cons q qs =>
          obtain ⟨_, hq, hsplit⟩ := (List.isChain_cons_cons.mp hsep).1
          obtain ⟨d', q, rfl⟩ := List.exists_cons_of_ne_nil hq
          obtain rfl : d' = d := by simpa using hd
          by_contra hdigit
          have hlast : isIdentifierPart (p.getLast hpne) = false := by
            have hpart := isIdentifierPart_of_isDigit (Bool.of_not_eq_false hdigit)
            simpa [hpart] using hsplit
          have hbeyond : isBeyondAscii (p.getLast hpne) = true := by
            have hmem := hchars _ (List.mem_append_left _ (List.getLast_mem hpne))
            exact hmem.resolve_left (by simp [hlast])
          exact hdigit ((List.isChain_append.mp hafter).2.2 _ (List.getLast_mem_getLast? hpne) d'
            rfl hbeyond)

theorem IsUnitName.isNamePart {cs : List Char} (h : IsUnitName cs) :
    ∀ p ∈ nameParts cs, IsNamePart p := by
  refine isNamePart_of_mem (List.nil_notMem_splitBy _ _)
    (fun p hp => List.isChain_of_mem_splitBy hp) (isChain_nameParts cs) ?_ ?_ ?_
  · rw [flatten_nameParts]
    exact h.chars
  · rw [flatten_nameParts]
    exact h.first
  · rw [flatten_nameParts]
    exact h.after

-- What the token of a part is.
inductive Token.IsPart (t : Token) (p : List Char) : Prop where
  | keyword {k : Keyword} (htext : t.text = String.ofList p)
      (hword : Keyword.ofWord? (String.ofList p) = some k) (hkind : t.kind = .keyword k)
  | piece (htext : t.text = String.ofList p) (hword : Keyword.ofWord? (String.ofList p) = none)
      (hpiece : t.isNamePiece = true)

theorem Token.IsPart.text {t : Token} {p : List Char} (h : t.IsPart p) :
    t.text = String.ofList p := by
  cases h with
  | keyword htext => exact htext
  | piece htext => exact htext

theorem Token.IsPart.kind {t : Token} {p : List Char} (h : t.IsPart p) :
    (∃ k, t.kind = .keyword k) ∨ t.kind = .identifier ∨ t.kind = .undefined := by
  cases h with
  | keyword _ _ hkind => exact .inl ⟨_, hkind⟩
  | piece _ _ hpiece => exact .inr (kind_of_isNamePiece hpiece)

-- No keyword is a single character.
theorem ofWord?_singleton (c : Char) : Keyword.ofWord? (String.ofList [c]) = none := by
  cases hword : Keyword.ofWord? (String.ofList [c]) with
  | none => rfl
  | some k =>
      have hlength := congrArg (fun s => s.toList.length) (Keyword.word_of_ofWord? hword)
      cases k <;> simp [Keyword.word] at hlength

theorem mark_of_isBeyondAscii {c : Char} (h : isBeyondAscii c = true) (next : Option Glyph) :
    mark c next = (.undefined, 1) := by
  unfold mark
  split
  all_goals first | rfl | exact absurd h (by decide)

-- A word is read up to where it does not go on.
theorem word_append {cs : List Char} (hcs : ∀ d ∈ cs, isIdentifierPart d = true) {gs : List Glyph}
    (hgs : ∀ g ∈ gs.head?, g.is isIdentifierPart = false) :
    (word (cs.map Glyph.char ++ gs)).lexeme = cs.map Glyph.char ∧
      ∀ pos start, Token.IsPart
        ⟨(word (cs.map Glyph.char ++ gs)).kind, pos, start, String.ofList cs⟩ cs := by
  have hall : ∀ g ∈ cs.map Glyph.char, g.is isIdentifierPart = true := by
    intro g hg
    obtain ⟨d, hd, rfl⟩ := List.mem_map.mp hg
    exact hcs d hd
  have hlexeme := takeWhile_append_of_head? hall hgs
  refine ⟨hlexeme, fun pos start => ?_⟩
  cases hword : Keyword.ofWord? (String.ofList cs) with
  | some k => exact .keyword rfl hword (by simp only [word, hlexeme, Glyph.text_map_char, hword])
  | none =>
      have hkind : (word (cs.map Glyph.char ++ gs)).kind = .identifier := by
        simp only [word, hlexeme, Glyph.text_map_char, hword]
      exact .piece rfl hword (by rw [hkind]; rfl)

theorem atGlyph_of_isBeyondAscii (o : LexOptions) {c : Char} (h : isBeyondAscii c = true)
    (gs : List Glyph) : atGlyph o (.char c :: gs) = ⟨[], .undefined, [.char c], []⟩ := by
  have hpart := isIdentifierPart_of_isBeyondAscii h
  have hne : ∀ d : Char, isBeyondAscii d = false → c ≠ d := by
    rintro d hd rfl
    rw [h] at hd
    cases hd
  have hstart : isIdentifierStart c = false := by
    by_contra hstart
    rw [isIdentifierPart_of_isIdentifierStart (Bool.of_not_eq_false hstart)] at hpart
    cases hpart
  have hdigit : c.isDigit = false := by
    by_contra hdigit
    rw [isIdentifierPart_of_isDigit (Bool.of_not_eq_false hdigit)] at hpart
    cases hpart
  simp [atGlyph, isQuote, hne '/' rfl, hne '\t' rfl, hne '"' rfl, hne '\'' rfl, hstart,
    startsNumber, hdigit, hne '.' rfl, mark_of_isBeyondAscii h]

-- The glyphs of a part make one token, unless the part goes on after them.
theorem exists_atGlyph_of_isNamePart {p : List Char} (h : IsNamePart p) {gs : List Glyph}
    (hgs : ∀ last ∈ p.getLast?, ∀ g ∈ gs.head?,
      (isIdentifierPart last && g.is isIdentifierPart) = false) :
    ∃ kind, atGlyph {} (p.map Glyph.char ++ gs) = ⟨[], kind, p.map Glyph.char, []⟩ ∧
      ∀ pos start, Token.IsPart ⟨kind, pos, start, String.ofList p⟩ p := by
  cases h with
  | @word c cs hc hcs =>
      have hstop : ∀ g ∈ gs.head?, g.is isIdentifierPart = false := by
        intro g hg
        have hlast := hgs _ (List.getLast_mem_getLast? (List.cons_ne_nil c cs)) g hg
        rwa [hcs _ (List.getLast_mem (List.cons_ne_nil c cs)), Bool.true_and] at hlast
      obtain ⟨hlexeme, hpart⟩ := word_append hcs hstop
      have hread := atGlyph_of_isIdentifierStart {} hc (cs.map Glyph.char ++ gs)
      have hpiece := congrArg
        (Piece.mk [] (word ((c :: cs).map Glyph.char ++ gs)).kind · []) hlexeme
      exact ⟨_, hread.trans hpiece, hpart⟩
  | @char c hc =>
      refine ⟨.undefined, atGlyph_of_isBeyondAscii {} hc gs, fun pos start => ?_⟩
      refine .piece rfl (ofWord?_singleton c) ?_
      simpa [Token.isNamePiece, Token.isAscii, isBeyondAscii] using hc

theorem trivia_of_ne_space {c : Char} (h : c ≠ ' ') (gs : List Glyph) :
    trivia false (.char c :: gs) = [] := by
  unfold trivia
  split
  · rename_i heq
    cases heq
    exact absurd rfl h
  all_goals rfl

theorem ofGlyphs_skip {skip gs : List Glyph} (hskip : skip = [] ∨ skip = [.char ' '])
    (hgs : trivia false gs = []) :
    ofGlyphs {} (skip ++ gs) =
      { atGlyph {} gs with skipped := skip ++ (atGlyph {} gs).skipped } := by
  have htrivia : trivia false (skip ++ gs) = skip := by
    rcases hskip with rfl | rfl
    · exact hgs
    · rw [List.singleton_append, trivia, hgs]
  simp [ofGlyphs, htrivia]

theorem IsNamePart.exists_eq_cons {p : List Char} (h : IsNamePart p) :
    ∃ c cs, p = c :: cs ∧ c ≠ ' ' := by
  cases h with
  | @word c cs hc hcs =>
      refine ⟨c, cs, rfl, ?_⟩
      rintro rfl
      cases hc
  | @char c hc =>
      refine ⟨c, [], rfl, ?_⟩
      rintro rfl
      cases hc

-- Tokens in a row with nothing in between.
def Adjoin (ts : List Token) : Prop :=
  ts.IsChain fun a b => b.start = a.start + a.text.utf8ByteSize

-- Each part of a name is read as one token.
theorem exists_tokens_of_parts {ps : List (List Char)} (hparts : ∀ p ∈ ps, IsNamePart p)
    (hsep : ps.IsChain PartsEnd) (c : Cursor) {skip : List Glyph}
    (hskip : skip = [] ∨ skip = [.char ' '])
    (hrest : c.rest = skip ++ ps.flatten.map Glyph.char) :
    ∃ ts e, c.tokens {} = ts ++ [e] ∧ e.kind = .endOfFile ∧ List.Forall₂ Token.IsPart ts ps ∧
      Adjoin ts ∧ ∀ t ∈ ts.head?, t.start = c.offset + Glyph.size skip := by
  induction ps generalizing c skip with
  | nil =>
      have hpiece : ofGlyphs {} c.rest = ⟨skip, .endOfFile, [], []⟩ := by
        rw [hrest, List.flatten_nil, List.map_nil, ofGlyphs_skip hskip (by unfold trivia; rfl)]
        simp [atGlyph]
      have hread := c.read_eq {} hpiece
      have hend : (c.read {}).1.kind = .endOfFile := by rw [hread]
      refine ⟨[], (c.read {}).1, ?_, hend, .nil, List.isChain_nil, by simp⟩
      rw [Cursor.tokens, if_pos hend, List.nil_append]
  | cons p ps ih =>
      obtain ⟨first, cs, hp, hspace⟩ := (hparts p List.mem_cons_self).exists_eq_cons
      have htrivia : trivia false ((p :: ps).flatten.map Glyph.char) = [] := by
        rw [hp]
        exact trivia_of_ne_space hspace _
      have hgs : ∀ last ∈ p.getLast?, ∀ g ∈ (ps.flatten.map Glyph.char).head?,
          (isIdentifierPart last && g.is isIdentifierPart) = false := by
        intro last hlast g hg
        cases ps with
        | nil => cases hg
        | cons q qs =>
            obtain ⟨_, hq, hsplit⟩ := (List.isChain_cons_cons.mp hsep).1
            obtain ⟨d, q, rfl⟩ := List.exists_cons_of_ne_nil hq
            obtain rfl : Glyph.char d = g := by simpa using hg
            rw [List.getLast_of_mem_getLast? hlast] at hsplit
            exact hsplit
      obtain ⟨kind, hatGlyph, hpart⟩ :=
        exists_atGlyph_of_isNamePart (hparts p List.mem_cons_self) hgs
      have hpiece : ofGlyphs {} c.rest = ⟨skip, kind, p.map Glyph.char, []⟩ := by
        rw [hrest, ofGlyphs_skip hskip htrivia, List.flatten_cons, List.map_append, hatGlyph,
          List.append_nil]
      have hread := c.read_eq {} hpiece
      have hrest' : (c.read {}).2.rest = [] ++ ps.flatten.map Glyph.char := by
        rw [hread, hrest]
        simp [glyphs]
      obtain ⟨ts, e, htokens, he, hts, hadjoin, hstart⟩ :=
        ih (fun q hq => hparts q (List.mem_cons_of_mem _ hq)) hsep.tail (c.read {}).2 (.inl rfl)
          hrest'
      have hpart' : (c.read {}).1.IsPart p := by
        rw [hread, Glyph.text_map_char]
        exact hpart _ _
      have hend : (c.read {}).1.kind ≠ .endOfFile := by
        rcases hpart'.kind with ⟨k, hk⟩ | hk | hk <;> simp [hk]
      refine ⟨(c.read {}).1 :: ts, e, ?_, he, .cons hpart' hts, ?_, ?_⟩
      · rw [Cursor.tokens, if_neg hend, htokens, List.cons_append]
      · refine List.isChain_cons.mpr ⟨fun t ht => ?_, hadjoin⟩
        rw [hstart t ht, hread, Glyph.utf8ByteSize_text]
        simp [glyphs, Nat.add_assoc]
      · intro t ht
        obtain rfl := Option.some.inj ht
        rw [hread]

end UnitCalc
