import UnitCalc.Proofs.Line.Printing
import UnitCalc.Proofs.Token.Space
import UnitCalc.Units.Default

namespace UnitCalc

-- A text that is one number and nothing else.
def IsOneNumber (n : String) : Prop :=
  ∃ t last, lex {} n = [t, last] ∧ t.kind = .number ∧ t.text = n

-- A text that is one name and nothing else. The parser may glue it from several tokens.
def IsOneName (a : String) : Prop :=
  ∃ (w : Word) (last : Token) (span : Span),
    words (lex {} a) = [w, [last]] ∧ w.IsName ∧ w.leaf = .name a span

theorem IsOneNumber.exists_tokens {n : String} (h : IsOneNumber n) {c : Cursor}
    (hrest : c.rest = Glyph.ofString n) :
    ∃ t last, c.tokens {} = [t] ++ [last] ∧ t.kind = .number ∧ t.text = n := by
  obtain ⟨t, last, hlex, hkind, htext⟩ := h
  have hsame := Cursor.map_tokens_of_rest_eq (o := {}) (c := .ofText n) hrest
  have htokens : (Cursor.ofText n).tokens {} = [t, last] := hlex
  rw [htokens] at hsame
  obtain ⟨t', rest, hc, ht, hrest⟩ := List.map_eq_cons_iff.mp hsame
  obtain ⟨last', rest, rfl, -, hnil⟩ := List.map_eq_cons_iff.mp hrest
  obtain rfl := List.map_eq_nil_iff.mp hnil
  obtain ⟨hkind', htext'⟩ := Prod.mk.inj ht
  exact ⟨t', last', hc, hkind'.trans hkind, htext'.trans htext⟩

-- Such a name falls apart again into the pieces that it is glued from.
theorem IsOneName.isSymbol {a : String} (h : IsOneName a) : IsSymbol a.toList := by
  obtain ⟨w, last, span, hwords, hname, hleaf⟩ := h
  obtain ⟨ts, e, htokens, hts, he, -⟩ := (Cursor.ofText a).exists_tokens_eq_append {}
  have hlex : lex {} a = ts ++ [e] := htokens
  have hw : words ts = [w] := by
    have hboth : words ts ++ [[e]] = [w] ++ [[last]] := by
      rw [← words_append_of_endOfFile ts he, ← hlex]
      exact hwords
    exact (List.append_singleton_inj.mp hboth).1
  have hkind : ∀ t ∈ ts, t.kind ≠ .lineBreak ∧ t.kind ≠ .tab := by
    have hflatten := List.flatten_splitBy Token.touches ts
    rw [← words, hw, List.flatten_singleton] at hflatten
    intro t ht
    rcases Token.kind_of_isNamePiece (hname.2 t (hflatten ▸ ht)) with hk | hk <;> simp [hk]
  have hmem : w ∈ words (significant (lex {} a)) := by
    rw [hlex, significant_append_of_endOfFile ts he, significant_eq_self hkind,
      words_append_of_endOfFile ts he, hw]
    exact List.mem_append_left _ (List.mem_singleton_self w)
  obtain ⟨symbol, span', hleaf', hsymbol⟩ := isSymbol_of_mem_words hmem hname
  rw [hleaf] at hleaf'
  cases hleaf'
  exact hsymbol

def Lexeme.asWord : Lexeme := ⟨.keyword .asWord, ['a', 's']⟩

theorem Lexeme.exists_tokens_asWord {c : Cursor} (hrest : c.rest = asWord.glyphs) :
    ∃ t last, c.tokens {} = [t] ++ [last] ∧ t.Spells asWord := by
  have hread : asWord.ReadBefore {} [] := ⟨by decide +kernel, nofun⟩
  have hreadable : Readable {} [asWord] := ⟨hread, trivial⟩
  obtain ⟨ts, last, htokens, -, hts, -⟩ := exists_tokens_of_readable hreadable c (by simp [hrest])
  obtain ⟨t, rfl, ht⟩ := exists_of_forall₂_singleton hts
  exact ⟨t, last, htokens, ht⟩

-- A minus sign at the start is a token whatever comes after it.
theorem Lexeme.exists_lex_minus (source : String) :
    ∃ sign, ∃ c : Cursor, lex {} ("-" ++ source) = sign :: c.tokens {} ∧ sign.Spells minus ∧
      c.rest = Glyph.ofString source := by
  have hminus : minus.ReadBefore {} (Glyph.ofString source) := readBefore_of_mem (by simp)
  have hrest : (Cursor.ofText ("-" ++ source)).rest = minus.glyphs ++ Glyph.ofString source := by
    rw [Cursor.ofText, Glyph.ofString, String.toList_append]
    exact Glyph.ofChars_cons (by decide) _
  have hread := (Cursor.ofText ("-" ++ source)).read_eq {} (hrest ▸ hminus.piece)
  have hsign : ((Cursor.ofText ("-" ++ source)).read {}).1.Spells minus := by
    rw [hread]
    exact ⟨rfl, Glyph.text_map_char minus.chars⟩
  refine ⟨_, ((Cursor.ofText ("-" ++ source)).read {}).2, ?_, hsign, ?_⟩
  · rw [lex, Cursor.tokens, if_neg (by rw [hsign.1]; decide)]
  · rw [hread, hrest]
    exact List.drop_left

theorem Glyph.ofString_conversion (n e f : String) :
    ofString (n ++ " " ++ e ++ " as " ++ f) = ofString n ++ .char ' ' :: (ofString e ++
      .char ' ' :: (Lexeme.asWord.glyphs ++ .char ' ' :: ofString f)) := by
  have hchars : (n ++ " " ++ e ++ " as " ++ f).toList =
      n.toList ++ ' ' :: (e.toList ++ ' ' :: (['a', 's'] ++ ' ' :: f.toList)) := by simp
  rw [ofString, hchars, ofChars_append_space, ofChars_append_space, ofChars_append_space]
  rfl

namespace Grammar

open Lexeme

variable {n : String} {e f : UnitExpr}

-- The words of a value, a printed unit and a printed target.
theorem Tree.exists_words_conversion (hn : IsOneNumber n) (he : Tree .unit e) (hf : Tree .unit f)
    {c : Cursor} (hrest : c.rest = Glyph.ofString (n ++ " " ++ e.display ++ " as " ++ f.display)) :
    ∃ t us as vs ws last e' f', c.tokens {} = ([t] :: (us ++ [as] :: vs)).flatten ++ [last] ∧
      last.kind = .endOfFile ∧ SpelledBy ([t] :: (us ++ [as] :: vs)) ws ∧
      t.kind = .number ∧ t.text = n ∧ as.kind = .keyword .asWord ∧
      (Phrase .unit us e' ∧ e'.bare = e.bare) ∧ Phrase .unit vs f' ∧ f'.bare = f.bare := by
  rw [Glyph.ofString_conversion] at hrest
  obtain ⟨ts₁, last₁, b₁, c₁, hb₁, htokens₁, hlast₁, hc₁, hsplit₁⟩ :=
    Cursor.exists_tokens_of_space (o := {}) rfl rfl hrest
  obtain ⟨ts₂, last₂, b₂, c₂, hb₂, htokens₂, hlast₂, hc₂, hsplit₂⟩ :=
    Cursor.exists_tokens_of_space (o := {}) rfl rfl hc₁
  obtain ⟨ts₃, last₃, b₃, c₃, hb₃, htokens₃, hlast₃, hc₃, hsplit₃⟩ :=
    Cursor.exists_tokens_of_space (o := {}) rfl rfl hc₂
  obtain ⟨t, end₁, hone, hnumber, htext⟩ := hn.exists_tokens hb₁
  obtain ⟨us, end₂, hunit, -, hus, hadjoin⟩ := he.exists_tokens {} hb₂
  obtain ⟨as, end₃, hkeyword, has⟩ := exists_tokens_asWord hb₃
  obtain ⟨vs, last, htarget, hlast, hvs, hadjoin'⟩ := hf.exists_tokens {} hc₃
  obtain ⟨e', hphrase, hbare, hspelled⟩ := he.exists_phrase_spelledBy hus hadjoin
  obtain ⟨f', hphrase', hbare', hspelled'⟩ := hf.exists_phrase_spelledBy hvs hadjoin'
  obtain rfl : ts₁ = [t] := (List.append_singleton_inj.mp (htokens₁.symm.trans hone)).1
  obtain rfl : ts₂ = us.flatten := (List.append_singleton_inj.mp (htokens₂.symm.trans hunit)).1
  obtain rfl : ts₃ = [as] := (List.append_singleton_inj.mp (htokens₃.symm.trans hkeyword)).1
  have hnumber' : t.Spells ⟨.number, n.toList⟩ := ⟨hnumber, by rw [htext, String.ofList_toList]⟩
  have hrow := SpelledBy.nil.append_cons hnumber' (by simp [IsMark])
    (hspelled.append_cons has (by simp [IsMark, asWord]) hspelled')
  refine ⟨t, us, as, vs, _, last, e', f', ?_, hlast, hrow, hnumber, htext, has.1,
    ⟨hphrase, hbare⟩, hphrase', hbare'⟩
  rw [hsplit₁, hsplit₂, hsplit₃, htarget]
  simp

-- The line of a value and two printed units is read as these, but for the places of the names.
theorem Tree.exists_parseLines_conversion {v : Float} (hn : IsOneNumber n)
    (hv : Number.read? n = some v) (he : Tree .unit e) (hf : Tree .unit f)
    (hfits : (n ++ " " ++ e.display ++ " as " ++ f.display).utf8ByteSize ≤ Span.maxOffset) :
    ∃ e' f', parseLines {} (n ++ " " ++ e.display ++ " as " ++ f.display) =
      .ok [⟨v, some e', some f'⟩] ∧ e'.bare = e.bare ∧ f'.bare = f.bare := by
  obtain ⟨t, us, as, vs, ws, last, e', f', hlex, hlast, hrow, hkind, htext, has,
    ⟨hphrase, hbare⟩, hphrase', hbare'⟩ := he.exists_words_conversion hn hf (c := .ofText _) rfl
  have hline := Line.intro (.positive hkind (by rw [htext]; exact hv)) (.present hphrase)
    (.present has hphrase')
  exact ⟨e', f', (hrow.parseLines_iff_script hlex hlast hfits _).mpr (.last hline), hbare, hbare'⟩

-- With a minus sign before it, it is read with the negative value.
theorem Tree.exists_parseLines_conversion_neg {v : Float} (hn : IsOneNumber n)
    (hv : Number.read? n = some v) (he : Tree .unit e) (hf : Tree .unit f)
    (hfits : ("-" ++ (n ++ " " ++ e.display ++ " as " ++ f.display)).utf8ByteSize ≤
      Span.maxOffset) :
    ∃ e' f', parseLines {} ("-" ++ (n ++ " " ++ e.display ++ " as " ++ f.display)) =
      .ok [⟨-v, some e', some f'⟩] ∧ e'.bare = e.bare ∧ f'.bare = f.bare := by
  obtain ⟨sign, c, hlex, hsign, hrest⟩ :=
    exists_lex_minus (n ++ " " ++ e.display ++ " as " ++ f.display)
  obtain ⟨t, us, as, vs, ws, last, e', f', htokens, hlast, hrow, hkind, htext, has,
    ⟨hphrase, hbare⟩, hphrase', hbare'⟩ := he.exists_words_conversion hn hf hrest
  rw [htokens] at hlex
  have hsigned := SpelledBy.nil.append_cons hsign (by simp [IsMark, minus]) hrow
  have hline := Line.intro (.negative hsign.1 hkind (by rw [htext]; exact hv)) (.present hphrase)
    (.present has hphrase')
  have hparse := (hsigned.parseLines_iff_script hlex hlast hfits _).mpr (.last hline)
  exact ⟨e', f', hparse, hbare, hbare'⟩

end Grammar

namespace UnitExpr

variable {r : Registry Float}

theorem display_bare (e : UnitExpr) : e.bare.display = e.display := by
  induction e with
  | name symbol span => rfl
  | mul left right ihl ihr | div left right ihl ihr => simp only [bare, display, ihl, ihr]
  | pow base exponent ih | group base ih => simp only [bare, display, ih]

-- Where the names of a unit stand does not count for what it measures.
theorem reduce_bare (e : UnitExpr) : e.bare.reduce r = e.reduce r := by
  induction e with
  | name symbol span => rfl
  | mul left right ihl ihr | div left right ihl ihr =>
      simp only [bare, reduce, operand, display, display_bare, ihl, ihr]
  | pow base exponent ih => simp only [bare, reduce, operand, display, display_bare, ih]
  | group inner ih => exact ih

end UnitExpr

section

variable {r : Registry Float} {v : Float} {source n a b : String} {e f e' f' : UnitExpr}

-- A line that is read as a value, a unit and a target gives one value in the target.
theorem evaluateLines_of_bare (hparse : parseLines {} source = .ok [⟨v, some e', some f'⟩])
    (he : e'.bare = e.bare) (hf : f'.bare = f.bare) :
    evaluateLines {} r source =
      ((Quantity.evaluate r ⟨v, some e, some f⟩).map ([·])).mapError EvalError.unit := by
  have hunit : e'.reduce r = e.reduce r := by rw [← e'.reduce_bare, he, e.reduce_bare]
  have htarget : f'.reduce r = f.reduce r := by rw [← f'.reduce_bare, hf, f.reduce_bare]
  have hdisplay : f'.display = f.display := by rw [← f'.display_bare, hf, f.display_bare]
  have hvalue : Quantity.evaluate r ⟨v, some e', some f'⟩ =
      Quantity.evaluate r ⟨v, some e, some f⟩ := by
    simp only [Quantity.evaluate, hunit, htarget, hdisplay]
  rw [evaluateLines, hparse]
  change ([⟨v, some e', some f'⟩].mapM (Quantity.evaluate r)).mapError EvalError.unit = _
  rw [List.mapM_cons, List.mapM_nil, hvalue]
  cases Quantity.evaluate r ⟨v, some e, some f⟩ <;> rfl

-- The conversion of a value between two names is what the registry does for them.
theorem Quantity.evaluate_names (r : Registry Float) (v : Float) (a b : String) (s t : Span) :
    (evaluate r ⟨v, some (.name a s), some (.name b t)⟩).map (fun e => (e.value, e.unit)) =
      (r.convert v a b).map fun x => (x, some b) := by
  simp only [evaluate, UnitExpr.reduce, Registry.convert]
  cases r.find a with
  | error e => rfl
  | ok u =>
      cases r.find b with
      | error e => rfl
      | ok w =>
          simp only [bind, Except.bind, pure, Except.pure]
          cases u.measure.convert w.measure v <;> rfl

theorem evaluateLines_of_names {s t : Span}
    (hparse : parseLines {} source = .ok [⟨v, some e', some f'⟩])
    (he : e'.bare = (UnitExpr.name a s).bare) (hf : f'.bare = (UnitExpr.name b t).bare) :
    (evaluateLines {} r source).map (List.map fun e => (e.value, e.unit)) =
      ((r.convert v a b).map fun x => [(x, some b)]).mapError EvalError.unit := by
  have hlist : (r.convert v a b).map (fun x => [(x, some b)]) =
      ((r.convert v a b).map fun x => (x, some b)).map ([·]) := by
    cases r.convert v a b <;> rfl
  rw [evaluateLines_of_bare hparse he hf, hlist, ← Quantity.evaluate_names r v a b s t]
  cases Quantity.evaluate r ⟨v, some (.name a s), some (.name b t)⟩ <;> rfl

-- To evaluate the line of a value and two names is to convert between the names: both give the same
-- value, or fail with the same error. The line is one that can be held, which has no more bytes
-- than the largest offset.
theorem evaluateLines_conversion (r : Registry Float) (hn : IsOneNumber n)
    (hv : Number.read? n = some v) (ha : IsOneName a) (hb : IsOneName b)
    (hfits : ("-" ++ (n ++ " " ++ a ++ " as " ++ b)).utf8ByteSize ≤ Span.maxOffset) :
    (evaluateLines {} r (n ++ " " ++ a ++ " as " ++ b)).map
        (List.map fun e => (e.value, e.unit)) =
      ((r.convert v a b).map fun x => [(x, some b)]).mapError EvalError.unit ∧
    (evaluateLines {} r ("-" ++ (n ++ " " ++ a ++ " as " ++ b))).map
        (List.map fun e => (e.value, e.unit)) =
      ((r.convert (-v) a b).map fun x => [(x, some b)]).mapError EvalError.unit := by
  have he : Grammar.Tree .unit (.name a ⟨0, 0⟩) := .term (.atom (.name ha.isSymbol))
  have hf : Grammar.Tree .unit (.name b ⟨0, 0⟩) := .term (.atom (.name hb.isSymbol))
  have hfits' : (n ++ " " ++ a ++ " as " ++ b).utf8ByteSize ≤ Span.maxOffset := by
    rw [String.utf8ByteSize_append] at hfits
    omega
  constructor
  · obtain ⟨e', f', hparse, hbare, hbare'⟩ := he.exists_parseLines_conversion hn hv hf hfits'
    exact evaluateLines_of_names hparse hbare hbare'
  · obtain ⟨e', f', hparse, hbare, hbare'⟩ := he.exists_parseLines_conversion_neg hn hv hf hfits
    exact evaluateLines_of_names hparse hbare hbare'

end

-- Degrees Celsius are affine, and their name is glued from two tokens.
theorem evaluateLines_conversion_celsius :
    IsOneNumber "2.5e1" ∧ Number.read? "2.5e1" = some 25 ∧ IsOneName "°C" ∧ IsOneName "K" ∧
    (evaluateLines {} .default "2.5e1 °C as K").map (List.map fun e => (e.value, e.unit)) =
      ((Registry.default.convert 25 "°C" "K").map fun x => [(x, some "K")]).mapError
        EvalError.unit ∧
    (evaluateLines {} .default "-2.5e1 °C as K").map (List.map fun e => (e.value, e.unit)) =
      ((Registry.default.convert (-25) "°C" "K").map fun x => [(x, some "K")]).mapError
        EvalError.unit := by
  have hn : IsOneNumber "2.5e1" :=
    ⟨⟨.number, ⟨0, 0⟩, 0, "2.5e1"⟩, ⟨.endOfFile, ⟨0, 5⟩, 5, ""⟩, by decide +kernel, rfl, rfl⟩
  have hv : Number.read? "2.5e1" = some 25 := by decide +kernel
  have ha : IsOneName "°C" :=
    ⟨[⟨.undefined, ⟨0, 0⟩, 0, "°"⟩, ⟨.identifier, ⟨0, 1⟩, 2, "C"⟩], ⟨.endOfFile, ⟨0, 2⟩, 3, ""⟩,
      ⟨0, 3⟩, by decide +kernel, ⟨nofun, by decide⟩, by decide⟩
  have hb : IsOneName "K" :=
    ⟨[⟨.identifier, ⟨0, 0⟩, 0, "K"⟩], ⟨.endOfFile, ⟨0, 1⟩, 1, ""⟩, ⟨0, 1⟩, by decide +kernel,
      ⟨nofun, by decide⟩, by decide⟩
  have hline : "2.5e1" ++ " " ++ "°C" ++ " as " ++ "K" = "2.5e1 °C as K" := by decide
  have hneg : "-" ++ "2.5e1 °C as K" = "-2.5e1 °C as K" := by decide
  have hboth := evaluateLines_conversion .default hn hv ha hb (by decide)
  rw [hline, hneg] at hboth
  exact ⟨hn, hv, ha, hb, hboth⟩

end UnitCalc
