import UnitCalc.Proofs.Line.NameTokens
import UnitCalc.Proofs.Prompt.Completion
import UnitCalc.Proofs.Token.Layout

namespace UnitCalc.Prompt

open Text Piece

-- Whether a token ends in a character of unit symbols.
def endsInSymbol (t : Token) : Bool :=
  t.text.toList.getLast?.any isSymbolChar

-- Whether a text ends in a name when it is read with no options on: a longest run of touching
-- pieces whose last one ends where the text does.
structure EndsInName (text : List Char) (pre : List Token) (first : Token) (more : List Token) :
    Prop where
  tokens : ∃ last, lex {} (String.ofList text) = pre ++ first :: more ++ [last]
  pieces : ∀ t ∈ first :: more, t.isNamePiece = true
  touching : (first :: more).IsChain fun a b => b.start = a.span.stop
  stop : ∀ t ∈ (first :: more).getLast?, t.span.stop = byteSize text
  longest : ∀ u ∈ pre.getLast?, u.touches first = false

section

variable {t : Token} {c : Char}

theorem isBlank_of_isIdentifierPart (h : isIdentifierPart c = true) : isBlank c = false := by
  have hbounds := toNat_of_isIdentifierPart h
  simp only [isBlank, blankRanges, List.any_cons, List.any_nil, Bool.or_false, Bool.or_eq_false_iff,
    Bool.and_eq_false_iff, decide_eq_false_iff_not]
  omega

-- Of the characters of names, blanks alone are in no symbol.
theorem isSymbolChar_iff (h : isIdentifierPart c = true ∨ isBeyondAscii c = true) :
    isSymbolChar c = true ↔ isBlank c = false := by
  have hsymbol : isSymbolChar c = (isIdentifierPart c || isBeyondAscii c && !isBlank c) := rfl
  rcases h with hpart | hbeyond
  · simp [hsymbol, hpart, isBlank_of_isIdentifierPart hpart]
  · simp [hsymbol, hbeyond, isIdentifierPart_of_isBeyondAscii hbeyond]

theorem chars_of_isNamePiece (hmatches : t.kind.Matches t.text.toList)
    (hpiece : t.isNamePiece = true) :
    ∀ c ∈ t.text.toList, isIdentifierPart c = true ∨ isBeyondAscii c = true := by
  rcases Token.kind_of_isNamePiece hpiece with hk | hk
  · rw [hk] at hmatches
    rcases hmatches with htext | ⟨hno, -⟩
    · generalize t.text.toList = cs at htext ⊢
      cases htext with
      | identifier hc hcs _ =>
          refine List.forall_mem_cons.mpr ⟨.inl ?_, fun d hd => .inl (hcs d hd)⟩
          exact isIdentifierPart_of_isIdentifierStart hc
    · cases hno
  · rw [hk] at hmatches
    rcases hmatches with htext | ⟨-, c, htext, -⟩
    · cases htext
    · have hbeyond : isBeyondAscii c = true := by
        simpa [Token.isNamePiece, hk, Token.isAscii, htext, isBeyondAscii] using hpiece
      rw [htext]
      exact List.forall_mem_singleton.mpr (.inr hbeyond)

-- What a name can touch on its left without being part of it.
theorem kind_of_endsInSymbol (hmatches : t.kind.Matches t.text.toList)
    (hends : endsInSymbol t = true) (hpiece : t.isNamePiece = false) :
    (∃ k, t.kind = .keyword k) ∨ t.kind = .number := by
  rw [endsInSymbol] at hends
  rcases hmatches with htext | ⟨hk, c, htext, hno⟩
  · generalize hkind : t.kind = kind at htext ⊢
    generalize t.text.toList = cs at htext hends
    cases htext with
    | lineBreak e => cases e <;> exact absurd hends (by decide)
    | tab => exact absurd hends (by decide)
    | keyword k => exact .inl ⟨k, rfl⟩
    | identifier => simp [Token.isNamePiece, hkind] at hpiece
    | number => exact .inr rfl
    | operator o => cases o <;> exact absurd hends (by decide)
    | opening b => cases b <;> exact absurd hends (by decide)
    | closing b => cases b <;> exact absurd hends (by decide)
  · have hascii : isBeyondAscii c = false := by
      simpa [Token.isNamePiece, hk, Token.isAscii, htext, isBeyondAscii] using hpiece
    have hpart : isIdentifierPart c = true := by
      have hsymbol : isSymbolChar c = (isIdentifierPart c || isBeyondAscii c && !isBlank c) := rfl
      simpa [htext, hsymbol, hascii] using hends
    cases hdigit : c.isDigit with
    | true =>
        have hdigits : Number.AllDigits [c] := List.forall_mem_singleton.mpr hdigit
        exact absurd (.number (.whole (List.cons_ne_nil c []) hdigits .absent)) (hno .number)
    | false =>
        have hword : ∀ k : Keyword, k.word.toList ≠ [c] := by
          intro k
          cases k <;> simp [Keyword.word]
        have hstart := isIdentifierStart_of_isIdentifierPart hpart hdigit
        exact absurd (.identifier hstart (List.forall_mem_nil _) hword) (hno .identifier)

end

variable {text : List Char} {pre more : List Token} {first : Token}

-- A symbol can reach a place from the left only through a token that ends there.
theorem symbol_before_iff {left blanks : List Char} {start : Nat} (hleft : LaidOut 0 pre left)
    (hne : ∀ u ∈ pre, u.text.toList ≠ []) (hblanks : ∀ c ∈ blanks, c = ' ')
    (hstart : start = byteSize left + byteSize blanks) :
    (∀ c ∈ (left ++ blanks).getLast?, isSymbolChar c = false) ↔
      ∀ u ∈ pre.getLast?, u.endOffset = start → endsInSymbol u = false := by
  rcases blanks.eq_nil_or_concat with rfl | ⟨init, c, rfl⟩
  · rw [List.append_nil]
    rcases pre.eq_nil_or_concat with rfl | ⟨init, u, rfl⟩
    · cases hleft
      simp
    · rw [List.concat_eq_append] at hleft hne ⊢
      have hend := hleft.endOffset_eq
      obtain ⟨as, rfl⟩ := hleft.exists_eq_append_text
      have htext := hne u (List.mem_append_right _ (List.mem_singleton_self u))
      rw [List.map_append, List.map_singleton, List.getLastD_concat, Nat.zero_add] at hend
      rw [byteSize_nil, Nat.add_zero, ← hend] at hstart
      rw [List.getLast?_append_of_ne_nil _ htext, List.getLast?_concat]
      simp [hstart, endsInSymbol, Option.any_eq_false]
  · rw [List.concat_eq_append] at hblanks hstart ⊢
    obtain rfl := hblanks c (List.mem_append_right _ (List.mem_singleton_self c))
    rw [← List.append_assoc, List.getLast?_concat]
    have hspace : isSymbolChar ' ' = false := by decide
    have hlt : byteSize left < start := by
      have hsize := byteSize_pos (List.cons_ne_nil ' ' [])
      rw [byteSize_append] at hstart
      omega
    refine ⟨fun _ u hu hend => ?_, fun _ c hc => Option.some.inj hc ▸ hspace⟩
    have hle := hleft.endOffset_le u (List.mem_of_getLast? hu)
    omega

-- A text that ends in a name is what is left of it, and the name. What is left ends in a character
-- of symbols just when the token before the name touches it and ends in such a character.
theorem EndsInName.exists_eq_append (h : EndsInName text pre first more) :
    ∃ rest, text = rest ++ (first :: more).flatMap (fun t => t.text.toList) ∧
      first.start = byteSize rest ∧
      ((∀ c ∈ rest.getLast?, isSymbolChar c = false) ↔
        ∀ u ∈ pre.getLast?, u.span.stop = first.start → endsInSymbol u = false) := by
  obtain ⟨last, htokens⟩ := h.tokens
  have hmatches := matches_of_lex_eq_append htokens
  obtain ⟨final, hfinal⟩ : ∃ t, (first :: more).getLast? = some t :=
    Option.isSome_iff_exists.mp (by simp)
  have hsize : byteSize text ≤ Span.maxOffset := by
    rw [← h.stop final hfinal]
    exact Nat.min_le_right _ _
  have hlaid := laidOut_lex text
  have hstop : ∀ t ∈ pre ++ first :: more, t.span.stop = t.endOffset := by
    intro t ht
    have hle := hlaid.endOffset_le t (by rw [htokens]; exact List.mem_append_left _ ht)
    rw [Nat.zero_add] at hle
    exact Nat.min_eq_left (hle.trans hsize)
  rw [htokens] at hlaid
  obtain ⟨shown, blanks, htext, hshown, -⟩ := hlaid.exists_append
  obtain ⟨left, name, rfl, hleft, hname⟩ := hshown.exists_append
  -- Nothing comes after the name, since it ends where the text does.
  have hblanks : blanks = [] := by
    have hend := hname.endOffset_eq
    rw [List.getLastD_eq_getLast?, List.getLast?_map, hfinal, Option.map_some, Option.getD_some,
      ← hstop final (List.mem_append_right _ (List.mem_of_getLast? hfinal)), h.stop final hfinal,
      htext, byteSize_append, byteSize_append] at hend
    by_contra hsome
    exact absurd (byteSize_pos hsome) (by omega)
  rw [hblanks, List.append_nil] at htext
  have hchain : (first :: more).IsChain fun a b => b.start = a.endOffset :=
    h.touching.imp_of_mem_imp fun a b ha _ hab =>
      hab.trans (hstop a (List.mem_append_right _ ha))
  cases hname with
  | @cons _ _ _ spaces rest hspaces hstart hmore =>
      rw [List.isChain_cons] at hchain
      rw [hmore.eq_flatMap_of_isChain hchain.1 hchain.2] at htext
      rw [Nat.zero_add] at hstart
      refine ⟨left ++ spaces, by rw [htext]; simp, by rw [hstart, byteSize_append], ?_⟩
      rw [symbol_before_iff hleft (fun u hu => (hmatches u (List.mem_append_left _ hu)).ne_nil)
        hspaces hstart]
      have hmem : ∀ u ∈ pre.getLast?, u.span.stop = u.endOffset := fun u hu =>
        hstop u (List.mem_append_left _ (List.mem_of_getLast? hu))
      exact forall₂_congr fun u hu => by rw [hmem u hu]

-- The completed word is found from the right by its characters, the name at the caret from the left
-- by its tokens. They are the same unless the name has a blank in it, or a token that
-- ends in a character of symbols touches it, as only a keyword or a number can.
theorem start_complete_eq_start_iff (r : Registry Float) {before : List Char} (after : List Char)
    (hname : EndsInName before pre first more) (hpoint : (before ++ after).head? ≠ some '.') :
    ((complete r (String.ofList (before ++ after)) (byteSize before)).1 = first.start ↔
      (∀ t ∈ first :: more, ∀ c ∈ t.text.toList, isBlank c = false) ∧
        ∀ u ∈ pre.getLast?, u.span.stop = first.start → endsInSymbol u = false) ∧
    ∀ u ∈ pre.getLast?, u.span.stop = first.start → endsInSymbol u = true →
      (∃ k, u.kind = .keyword k) ∨ u.kind = .number := by
  have hcommand : ¬ IsCommand before := by
    rintro ⟨hhead, -⟩
    rw [List.head?_append, hhead] at hpoint
    exact hpoint rfl
  obtain ⟨rest, htext, hstart, hleft⟩ := hname.exists_eq_append
  obtain ⟨last, htokens⟩ := hname.tokens
  have hmatches := matches_of_lex_eq_append htokens
  constructor
  · rw [hstart, start_complete_eq_iff htext hcommand, htext, lastWord_append_eq_iff, ← hstart,
      hleft, List.forall_mem_flatMap]
    refine and_congr_left' (forall₂_congr fun t ht => forall₂_congr fun c hc => ?_)
    have hmem := List.mem_append_right pre ht
    exact isSymbolChar_iff (chars_of_isNamePiece (hmatches t hmem) (hname.pieces t ht) c hc)
  · intro u hu htouch hends
    have hmem := List.mem_append_left (first :: more) (List.mem_of_getLast? hu)
    have hpieces := List.forall_mem_cons.mp hname.pieces
    refine kind_of_endsInSymbol (hmatches u hmem) hends ?_
    have htouches := hname.longest u hu
    simpa [Token.touches, hpieces.1, htouch] using htouches

theorem start_complete_eq_start_celsius :
    EndsInName "1 k°C".toList [⟨.number, ⟨0, 0⟩, 0, "1"⟩] ⟨.identifier, ⟨0, 2⟩, 2, "k"⟩
        [⟨.undefined, ⟨0, 3⟩, 3, "°"⟩, ⟨.identifier, ⟨0, 4⟩, 5, "C"⟩] ∧
      (complete (.ofCatalogs []) (String.ofList ("1 k°C".toList ++ " as K".toList))
        (byteSize "1 k°C".toList)).1 = 2 := by
  let first : Token := ⟨.identifier, ⟨0, 2⟩, 2, "k"⟩
  let more : List Token := [⟨.undefined, ⟨0, 3⟩, 3, "°"⟩, ⟨.identifier, ⟨0, 4⟩, 5, "C"⟩]
  have hname : EndsInName "1 k°C".toList [⟨.number, ⟨0, 0⟩, 0, "1"⟩] first more := by
    refine ⟨⟨⟨.endOfFile, ⟨0, 5⟩, 6, ""⟩, ?_⟩, ?_, ?_, ?_, ?_⟩ <;> decide +kernel
  have htext : (first :: more).flatMap (fun t => t.text.toList) = ['k', '°', 'C'] := by
    decide +kernel
  have hblank : ∀ c ∈ ['k', '°', 'C'], isBlank c = false := by simp [isBlank, blankRanges]
  rw [← htext, List.forall_mem_flatMap] at hblank
  have hstart := start_complete_eq_start_iff (.ofCatalogs []) " as K".toList hname (by decide)
  exact ⟨hname, hstart.1.mpr ⟨hblank, by decide⟩⟩

-- A space that does not break a line is part of a name, and of no symbol.
theorem not_forall_start_complete_eq_start :
    ¬ ∀ (r : Registry Float) (before after : List Char) (pre : List Token) (first : Token)
        (more : List Token), EndsInName before pre first more →
      (before ++ after).head? ≠ some '.' →
      (complete r (String.ofList (before ++ after)) (byteSize before)).1 = first.start := by
  intro h
  let text := "a\u00a0b".toList
  have hname : EndsInName text [] ⟨.identifier, ⟨0, 0⟩, 0, "a"⟩
      [⟨.undefined, ⟨0, 1⟩, 1, "\u00a0"⟩, ⟨.identifier, ⟨0, 2⟩, 3, "b"⟩] := by
    refine ⟨⟨⟨.endOfFile, ⟨0, 3⟩, 4, ""⟩, ?_⟩, ?_, ?_, ?_, ?_⟩ <;> decide +kernel
  have hzero := h (.ofCatalogs []) text [] _ _ _ hname (by decide)
  rw [complete_of_not_isCommand (by decide)] at hzero
  exact absurd hzero (by decide)

end UnitCalc.Prompt
