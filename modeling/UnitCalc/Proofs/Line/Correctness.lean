import UnitCalc.Proofs.Line.Completeness
import UnitCalc.Proofs.Line.Soundness
import UnitCalc.Proofs.Token.Numeral

namespace UnitCalc

theorem mem_of_mem_words_significant {ts : List Token} {w : Word} {t : Token}
    (hw : w ∈ words (significant ts)) (ht : t ∈ w) : t ∈ ts := by
  have hflatten : t ∈ (words (significant ts)).flatten := List.mem_flatten.mpr ⟨w, hw, ht⟩
  rw [words, List.flatten_splitBy] at hflatten
  exact (significant_sublist ts).subset hflatten

-- A text is parsed into some quantities just when the grammar reads them in the significant words
-- before the end token.
theorem parseLines_eq_ok_iff_script {o : LexOptions} {source : String} {ts : List Token} {e : Token}
    (hlex : lex o source = ts ++ [e]) (hts : ∀ t ∈ ts, t.kind ≠ .endOfFile)
    (he : e.kind = .endOfFile) (qs : List Quantity) :
    parseLines o source = .ok qs ↔ Grammar.Script (words (significant ts)) qs := by
  rw [parseLines_eq_runWith_takeWord, hlex, significant_append_of_endOfFile ts he,
    words_append_of_endOfFile _ he]
  constructor
  · intro hrun
    exact Stage.script_of_runWith_takeWord .blank (fun w hw => isWhole_of_mem_words hw)
      (fun w hw t ht => hts t (mem_of_mem_words_significant hw ht)) he hrun
  · intro hscript
    exact Stage.runWith_script hscript he

-- The tokens of a text are those before its end token. The text is parsed into some quantities just
-- when the grammar reads these quantities in the significant words. Any number token is good for a
-- number of the grammar.
theorem parseLines_eq_ok_iff (o : LexOptions) (source : String) :
    ∃ ts e, lex o source = ts ++ [e] ∧ e.kind = .endOfFile ∧
      (∀ t ∈ ts, t.kind ≠ .endOfFile ∧
        (t.kind = .number → ∃ v, Number.read? t.text = some v)) ∧
      ∀ qs, parseLines o source = .ok qs ↔ Grammar.Script (words (significant ts)) qs := by
  obtain ⟨ts, e, hlex, hts, he, -⟩ := (Cursor.ofText source).exists_tokens_eq_append o
  refine ⟨ts, e, hlex, he, fun t ht => ⟨hts t ht, fun hkind => ?_⟩,
    parseLines_eq_ok_iff_script hlex hts he⟩
  have hmem : t ∈ lex o source := by
    rw [lex, hlex]
    exact List.mem_append_left [e] ht
  exact exists_read?_of_mem_lex hmem hkind

end UnitCalc
