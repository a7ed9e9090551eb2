import UnitCalc.Proofs.Line.Correctness
import UnitCalc.Proofs.Line.Spelling
import UnitCalc.Dimension.Named
import UnitCalc.Proofs.Units.Operation

namespace UnitCalc

open Piece

theorem ofChars_eq_map {cs : List Char} (h : ∀ c ∈ cs, c ≠ '\r' ∧ c ≠ '\n') :
    Glyph.ofChars cs = cs.map Glyph.char := by
  have happend := Glyph.ofChars_append h []
  rwa [List.append_nil, Glyph.ofChars, List.append_nil] at happend

theorem ofGlyphs_one (gs : List Glyph) :
    ofGlyphs {} (.char '1' :: .char ' ' :: gs) = ⟨[], .number, [.char '1'], []⟩ := by
  have hone : (Lexeme.numeral 1).ReadBefore {} (.char ' ' :: gs) := by
    refine Lexeme.readBefore_numeral 1 ?_ ?_ ?_ <;> rintro g ⟨⟩ <;> decide
  exact hone.piece

theorem IsUnitName.ofChars_eq_map {cs : List Char} (h : IsUnitName cs) :
    Glyph.ofChars ('1' :: ' ' :: cs) = .char '1' :: .char ' ' :: cs.map Glyph.char := by
  apply UnitCalc.ofChars_eq_map
  intro c hc
  rcases List.mem_cons.mp hc with rfl | hc
  · decide
  rcases List.mem_cons.mp hc with rfl | hc
  · decide
  constructor
  · rintro rfl
    rcases h.chars _ hc with hc | hc <;> cases hc
  · rintro rfl
    rcases h.chars _ hc with hc | hc <;> cases hc

theorem exists_lex_of_isUnitName {w : String} (h : IsUnitName w.toList) :
    ∃ one ts e, lex {} ("1 " ++ w) = one :: ts ++ [e] ∧ one.kind = .number ∧ one.text = "1" ∧
      e.kind = .endOfFile ∧ List.Forall₂ Token.IsPart ts (nameParts w.toList) ∧ Adjoin ts ∧
      ∀ t ∈ ts.head?, t.start = 2 := by
  have hrest : (Cursor.ofText ("1 " ++ w)).rest =
      .char '1' :: .char ' ' :: w.toList.map Glyph.char := by
    rw [Cursor.ofText, Glyph.ofString, String.toList_append]
    exact h.ofChars_eq_map
  have hread := (Cursor.ofText ("1 " ++ w)).read_eq {} (hrest ▸ ofGlyphs_one _)
  have hrest' : ((Cursor.ofText ("1 " ++ w)).read {}).2.rest =
      [.char ' '] ++ (nameParts w.toList).flatten.map Glyph.char := by
    rw [hread, hrest, flatten_nameParts]
    rfl
  obtain ⟨ts, e, htokens, he, hts, hadjoin, hstart⟩ :=
    exists_tokens_of_parts h.isNamePart (isChain_nameParts _) _ (.inr rfl) hrest'
  refine ⟨((Cursor.ofText ("1 " ++ w)).read {}).1, ts, e, ?_, ?_, ?_, he, hts, hadjoin, ?_⟩
  · rw [lex, Cursor.tokens, if_neg (by simp [hread]), htokens]
    rfl
  · rw [hread]
  · rw [hread]
    rfl
  · intro t ht
    rw [hstart t ht, hread]
    rfl

section

variable {ts : List Token} {ps : List (List Char)}

theorem foldl_text_of_parts (h : List.Forall₂ Token.IsPart ts ps) (symbol : String) :
    ts.foldl (fun symbol u => symbol ++ u.text) symbol = symbol ++ String.ofList ps.flatten := by
  induction h generalizing symbol with
  | nil => simp
  | cons hpart _ ih =>
      rw [List.foldl_cons, ih, hpart.text, List.flatten_cons, String.ofList_append,
        String.append_assoc]

theorem leaf_cons_of_parts {t : Token} (h : List.Forall₂ Token.IsPart (t :: ts) ps) :
    Word.leaf (t :: ts) = .name (String.ofList ps.flatten)
      (ts.foldl (fun span u => ⟨span.start, u.span.stop - span.start⟩) t.span) := by
  have htext := foldl_text_of_parts h ""
  rw [List.foldl_cons, String.empty_append, String.empty_append] at htext
  rw [Word.leaf, htext]

-- The number of bytes of some tokens in a row.
def totalSize (ts : List Token) : Nat :=
  (ts.map fun t => t.text.utf8ByteSize).sum

theorem totalSize_of_parts (h : List.Forall₂ Token.IsPart ts ps) :
    totalSize ts = Text.byteSize ps.flatten := by
  induction h with
  | nil => rfl
  | cons hpart _ ih =>
      rw [totalSize] at ih
      rw [totalSize, List.map_cons, List.sum_cons, ih, hpart.text, Text.utf8ByteSize_ofList,
        List.flatten_cons, Text.byteSize_append]

-- Where tokens adjoin, the span of a name grows by the size of each piece.
theorem foldl_span_of_adjoin (start size : Nat) (hadjoin : Adjoin ts)
    (hstart : ∀ t ∈ ts.head?, t.start = start + size)
    (hfits : start + size + totalSize ts ≤ Span.maxOffset) :
    ts.foldl (fun span u => (⟨span.start, u.span.stop - span.start⟩ : Span)) ⟨start, size⟩ =
      ⟨start, size + totalSize ts⟩ := by
  induction ts generalizing size with
  | nil => rfl
  | cons t ts ih =>
      have ht : t.start = start + size := hstart t rfl
      have htotal : totalSize (t :: ts) = t.text.utf8ByteSize + totalSize ts := List.sum_cons
      have hstop : t.span.stop = start + size + t.text.utf8ByteSize := by
        simp only [Token.span, Span.stop, ht]
        omega
      have hnext : ∀ u ∈ ts.head?, u.start = start + (size + t.text.utf8ByteSize) := by
        intro u hu
        have hu' := (List.isChain_cons.mp hadjoin).1 u hu
        omega
      rw [List.foldl_cons, hstop, htotal]
      have hsize : start + size + t.text.utf8ByteSize - start = size + t.text.utf8ByteSize := by
        omega
      rw [hsize, ih _ hadjoin.tail hnext (by omega)]
      congr 1
      omega

theorem isChain_touches_of_adjoin (start : Nat) (hadjoin : Adjoin ts)
    (hstart : ∀ t ∈ ts.head?, t.start = start) (hpiece : ∀ t ∈ ts, t.isNamePiece = true)
    (hfits : start + totalSize ts ≤ Span.maxOffset) :
    ts.IsChain fun a b => a.touches b := by
  induction ts generalizing start with
  | nil => exact List.isChain_nil
  | cons t ts ih =>
      have ht : t.start = start := hstart t rfl
      have htotal : totalSize (t :: ts) = t.text.utf8ByteSize + totalSize ts := List.sum_cons
      obtain ⟨hnext, htail⟩ := List.isChain_cons.mp hadjoin
      refine List.isChain_cons.mpr ⟨fun u hu => ?_, ?_⟩
      · have hstop : t.span.stop = u.start := by
          rw [hnext u hu]
          simp only [Token.span, Span.stop]
          omega
        simp [Token.touches, hpiece t List.mem_cons_self,
          hpiece u (List.mem_cons_of_mem t (List.mem_of_mem_head? hu)), hstop]
      · exact ih (start + t.text.utf8ByteSize) htail
          (fun u hu => by rw [hnext u hu, ht])
          (fun u hu => hpiece u (List.mem_cons_of_mem t hu)) (by omega)

end

-- Tokens that are no tabs and no ends of lines all count.
theorem significant_eq_self {ts : List Token}
    (h : ∀ t ∈ ts, t.kind ≠ .lineBreak ∧ t.kind ≠ .tab) : significant ts = ts := by
  have hjoin : joinLines ts = ts := by
    fun_induction joinLines ts with
    | case1 a b ts hjoin _ =>
        simp only [Bool.and_eq_true, beq_iff_eq] at hjoin
        exact absurd hjoin.2 (h b (List.mem_cons_of_mem a List.mem_cons_self)).1
    | case2 a b ts hjoin ih => rw [ih fun t ht => h t (List.mem_cons_of_mem a ht)]
    | case3 => rfl
  have hdrop : ∀ depth, dropInnerBreaks depth ts = ts := by
    clear hjoin
    induction ts with
    | nil => exact fun _ => rfl
    | cons t ts ih =>
        intro depth
        rw [dropInnerBreaks, if_neg (fun hbreak => (h t List.mem_cons_self).1 hbreak.1),
          ih fun u hu => h u (List.mem_cons_of_mem t hu)]
  rw [significant, hjoin, hdrop, List.filter_eq_self]
  exact fun t ht => by simpa using (h t ht).2

-- The pieces of a name make one word after a value.
theorem words_value_name {one : Token} {ts : List Token} (hone : one.isNamePiece = false)
    (hne : ts ≠ []) (htouch : ts.IsChain fun a b => a.touches b) :
    words (one :: ts) = [[one], ts] := by
  have hsplit := List.splitBy_append (r := Token.touches) (l := [one]) (m := ts)
    (by simp [Token.touches, hone])
  rw [List.splitBy_of_isChain hne htouch] at hsplit
  exact hsplit

theorem exists_of_mem_forall₂ {α β : Type} {R : α → β → Prop} {as : List α} {bs : List β}
    (h : List.Forall₂ R as bs) : ∀ a ∈ as, ∃ b ∈ bs, R a b := by
  induction h with
  | nil => nofun
  | @cons a b as bs hab _ ih =>
      refine List.forall_mem_cons.mpr ⟨⟨b, List.mem_cons_self, hab⟩, fun a ha => ?_⟩
      obtain ⟨b', hb, hab⟩ := ih a ha
      exact ⟨b', List.mem_cons_of_mem b hb, hab⟩

-- A line of a value and a name is what the grammar reads in the value and the parts of the name.
theorem exists_parseLines_iff {w : String} (h : IsUnitName w.toList) :
    ∃ one ts, one.kind = .number ∧ one.text = "1" ∧ ts ≠ [] ∧
      List.Forall₂ Token.IsPart ts (nameParts w.toList) ∧ Adjoin ts ∧
      (∀ t ∈ ts.head?, t.start = 2) ∧
      ∀ qs, parseLines {} ("1 " ++ w) = .ok qs ↔ Grammar.Script (words (one :: ts)) qs := by
  obtain ⟨one, ts, e, hlex, hone, htext, he, hts, hadjoin, hstart⟩ := exists_lex_of_isUnitName h
  have hne : ts ≠ [] := by
    rintro rfl
    exact List.splitBy_ne_nil.mpr h.ne_nil (List.forall₂_nil_left_iff.mp hts)
  have hkinds : ∀ t ∈ one :: ts, t.kind = .number ∨ (∃ k, t.kind = .keyword k) ∨
      t.kind = .identifier ∨ t.kind = .undefined := by
    refine List.forall_mem_cons.mpr ⟨.inl hone, fun t ht => ?_⟩
    obtain ⟨p, -, hpart⟩ := exists_of_mem_forall₂ hts t ht
    exact .inr hpart.kind
  refine ⟨one, ts, hone, htext, hne, hts, hadjoin, hstart, fun qs => ?_⟩
  rw [parseLines_eq_ok_iff_script hlex _ he, significant_eq_self]
  · intro t ht
    rcases hkinds t ht with hk | ⟨k, hk⟩ | hk | hk <;> simp [hk]
  · intro t ht
    rcases hkinds t ht with hk | ⟨k, hk⟩ | hk | hk <;> simp [hk]

theorem leaf_of_parts {ts : List Token} {ps : List (List Char)} {start : Nat} (hne : ts ≠ [])
    (hts : List.Forall₂ Token.IsPart ts ps) (hadjoin : Adjoin ts)
    (hstart : ∀ t ∈ ts.head?, t.start = start) (hfits : start + totalSize ts ≤ Span.maxOffset) :
    Word.leaf ts = .name (String.ofList ps.flatten) ⟨start, totalSize ts⟩ := by
  obtain ⟨t, ts, rfl⟩ := List.exists_cons_of_ne_nil hne
  have ht : t.start = start := hstart t rfl
  have htotal : totalSize (t :: ts) = t.text.utf8ByteSize + totalSize ts := List.sum_cons
  obtain ⟨hnext, htail⟩ := List.isChain_cons.mp hadjoin
  have hspan := foldl_span_of_adjoin start t.text.utf8ByteSize htail
    (fun u hu => by rw [hnext u hu, ht]) (by omega)
  rw [leaf_cons_of_parts hts, Token.span, ht, hspan, htotal]

theorem parseLines_of_isUnitName {w : String} (h : IsUnitName w.toList)
    (hparts : ∀ p ∈ nameParts w.toList, Keyword.ofWord? (String.ofList p) = none)
    (hfits : 2 + w.utf8ByteSize ≤ Span.maxOffset) :
    parseLines {} ("1 " ++ w) = .ok [⟨1, some (.name w ⟨2, w.utf8ByteSize⟩), none⟩] := by
  obtain ⟨one, ts, hone, htext, hne, hts, hadjoin, hstart, hparse⟩ := exists_parseLines_iff h
  have htotal : totalSize ts = w.utf8ByteSize := by
    rw [totalSize_of_parts hts, flatten_nameParts, Text.byteSize_toList]
  have hpiece : ∀ t ∈ ts, t.isNamePiece = true := by
    intro t ht
    obtain ⟨p, hp, hpart⟩ := exists_of_mem_forall₂ hts t ht
    cases hpart with
    | keyword _ hword => simp [hparts p hp] at hword
    | piece _ _ hpiece => exact hpiece
  have hleaf := leaf_of_parts hne hts hadjoin hstart (by omega)
  rw [flatten_nameParts, String.ofList_toList, htotal] at hleaf
  have htouch := isChain_touches_of_adjoin 2 hadjoin hstart hpiece (by omega)
  have hvalue : Number.read? one.text = some 1 := by
    rw [htext]
    decide +kernel
  have hphrase : Grammar.Phrase .unit [ts] (.name w ⟨2, w.utf8ByteSize⟩) := by
    rw [← hleaf]
    exact .term (.atom (.name ⟨hne, hpiece⟩))
  have hline := Grammar.Line.intro (.positive hone hvalue) (.present hphrase) .absent
  rw [hparse, words_value_name (by simp [Token.isNamePiece, hone]) hne htouch]
  exact .last hline

namespace Grammar

-- A unit that is a name is one word.
theorem Phrase.exists_of_name {k : Category} {ws : List Word} {symbol : String} {span : Span}
    (h : Phrase k ws (.name symbol span)) : ∃ w : Word, ws = [w] ∧ w.IsName := by
  generalize he : UnitExpr.name symbol span = e at h
  induction h with
  | name hw => exact ⟨_, rfl, hw⟩
  | atom _ ih | term _ ih => exact ih he
  | _ => cases he

theorem Numeral.kind_ne_keyword {ws : List Word} {v : Float} (h : Numeral ws v) :
    ∀ w ∈ ws, ∀ t ∈ w, ∀ k, t.kind ≠ .keyword k := by
  cases h with
  | positive hkind => simp [hkind]
  | negative hsign hkind => simp [hsign, hkind]

-- Lines of values and names have no keywords in them.
theorem Script.kind_ne_keyword {ws : List Word} {qs : List Quantity} (h : Script ws qs)
    (hqs : ∀ q ∈ qs, q.target = none ∧ ∃ symbol span, q.unit = some (.name symbol span)) :
    ∀ w ∈ ws, ∀ t ∈ w, ∀ k, t.kind ≠ .keyword k := by
  have hline : ∀ {ws : List Word} {q : Quantity}, Line ws q → q.target = none →
      (∃ symbol span, q.unit = some (.name symbol span)) →
      ∀ w ∈ ws, ∀ t ∈ w, ∀ k, t.kind ≠ .keyword k := by
    rintro ws q ⟨hv, hunit, htarget⟩ rfl ⟨symbol, span, rfl⟩ w hw t ht k
    cases htarget
    cases hunit with
    | present hphrase =>
        obtain ⟨name, rfl, hname⟩ := hphrase.exists_of_name
        rw [List.append_nil] at hw
        rcases List.mem_append.mp hw with hw | hw
        · exact hv.kind_ne_keyword w hw t ht k
        · obtain rfl := List.mem_singleton.mp hw
          rcases Token.kind_of_isNamePiece (hname.2 t ht) with hk | hk <;> simp [hk]
  induction h with
  | nil => nofun
  | blank hend _ ih => exact List.forall_mem_cons.mpr ⟨by simp [hend], ih hqs⟩
  | last hq =>
      obtain ⟨htarget, hunit⟩ := hqs _ List.mem_cons_self
      exact hline hq htarget hunit
  | cons hq hend _ ih =>
      obtain ⟨htarget, hunit⟩ := hqs _ List.mem_cons_self
      intro w hw
      rcases List.mem_append.mp hw with hw | hw
      · exact hline hq htarget hunit w hw
      · exact List.forall_mem_cons.mpr
          ⟨by simp [hend], ih fun q hq => hqs q (List.mem_cons_of_mem _ hq)⟩ w hw

end Grammar

theorem ofWord?_eq_none_of_parseLines {w : String} (h : IsUnitName w.toList) {v : Float}
    {span : Span} (hparse : parseLines {} ("1 " ++ w) = .ok [⟨v, some (.name w span), none⟩]) :
    ∀ p ∈ nameParts w.toList, Keyword.ofWord? (String.ofList p) = none := by
  obtain ⟨one, ts, -, -, -, hts, -, -, hiff⟩ := exists_parseLines_iff h
  have hkeyword := ((hiff _).mp hparse).kind_ne_keyword (by simp)
  intro p hp
  obtain ⟨t, ht, hpart⟩ := exists_of_mem_forall₂ hts.flip p hp
  cases hpart with
  | piece _ hword => exact hword
  | @keyword k _ _ hkind =>
      have hmem : t ∈ (words (one :: ts)).flatten := by
        rw [words, List.flatten_splitBy]
        exact List.mem_cons_of_mem one ht
      obtain ⟨w, hw, ht⟩ := List.mem_flatten.mp hmem
      exact absurd hkind (hkeyword w hw t ht k)

-- A line of a value and a name has the unit that the name stands for, just when no part of the name
-- is a keyword.
theorem value_name_line (r : Registry Float) {w : String} (h : IsUnitName w.toList)
    (hfits : 2 + w.utf8ByteSize ≤ Span.maxOffset) :
    (∀ p ∈ nameParts w.toList, Keyword.ofWord? (String.ofList p) = none) ↔
      ∃ span, parseLines {} ("1 " ++ w) = .ok [⟨1, some (.name w span), none⟩] ∧
        (UnitExpr.name w span).reduce r =
          match r.find? w with
          | some u => .ok u.measure
          | none => .error (.unknownSymbol w) := by
  constructor
  · intro hparts
    refine ⟨_, parseLines_of_isUnitName h hparts hfits, ?_⟩
    simp only [UnitExpr.reduce, Registry.find]
    cases r.find? w <;> rfl
  · rintro ⟨span, hparse, -⟩
    exact ofWord?_eq_none_of_parseLines h hparse

theorem isUnitName_micrometre : IsUnitName ['µ', 'm'] where
  ne_nil := by decide
  chars := by simp [isIdentifierPart, isBeyondAscii]
  first := by
    rintro c ⟨⟩
    rfl
  after := by decide

theorem value_name_line_micrometre :
    IsUnitName "µm".toList ∧
      ∃ span, parseLines {} "1 µm" = .ok [⟨1, some (.name "µm" span), none⟩] := by
  have h : IsUnitName "µm".toList := isUnitName_micrometre
  have hparts : ∀ p ∈ nameParts "µm".toList, Keyword.ofWord? (String.ofList p) = none := by
    decide
  obtain ⟨span, hparse, -⟩ := (value_name_line Registry.empty h (by decide)).mp hparts
  exact ⟨h, span, hparse⟩

-- The second, with the multiple that gives it the symbol of a keyword.
def attosecondCatalog : Catalog Float where
  standard := .si
  multiples := [⟨"atto", "a", 1e-18, -18⟩]
  units := [(UnitDef.multiplicative .si "time" "second" "s" Dimension.Named.time 1.0).withMultiples]

theorem isUnitName_as : IsUnitName ['a', 's'] where
  ne_nil := by decide
  chars := by simp [isIdentifierPart]
  first := by
    rintro c ⟨⟩
    rfl
  after := by decide

-- The symbol of the attosecond is a keyword, so that it is no unit in a line.
theorem not_forall_listed_name :
    ¬ ∀ (r : Registry Float) (w : String), r.Reachable → (w ∈ r.symbols ∨ w ∈ r.aliases) →
      IsUnitName w.toList →
      ∃ v span, parseLines {} ("1 " ++ w) = .ok [⟨v, some (.name w span), none⟩] := by
  intro h
  have hreachable : (Registry.ofCatalogs [attosecondCatalog]).Reachable :=
    ⟨[.loadDefaults [attosecondCatalog]], rfl⟩
  have hlisted : "as" ∈ (Registry.ofCatalogs [attosecondCatalog]).symbols := by decide +kernel
  have hname : IsUnitName "as".toList := isUnitName_as
  obtain ⟨v, span, hparse⟩ := h _ "as" hreachable (.inl hlisted) hname
  have hkeyword := ofWord?_eq_none_of_parseLines hname hparse "as".toList (by decide)
  exact absurd hkeyword (by decide)

end UnitCalc
