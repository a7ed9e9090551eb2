import UnitCalc.Proofs.Line.Names
import UnitCalc.Proofs.Line.Shift
import UnitCalc.Proofs.Token.Seam

namespace UnitCalc

theorem mem_joinLines_or {ts : List Token} {t : Token} (h : t ∈ ts) :
    t ∈ joinLines ts ∨ t.kind = .undefined ∨ t.kind = .lineBreak := by
  fun_induction joinLines ts with
  | case1 a b ts hpair ih =>
      simp only [Token.isBackslash, Bool.and_eq_true, beq_iff_eq] at hpair
      rcases List.mem_cons.mp h with rfl | h
      · exact .inr (.inl hpair.1.1)
      rcases List.mem_cons.mp h with rfl | h
      · exact .inr (.inr hpair.2)
      · exact ih h
  | case2 a b ts hpair ih =>
      rcases List.mem_cons.mp h with rfl | h
      · exact .inl List.mem_cons_self
      · exact (ih h).imp_left (List.mem_cons_of_mem a)
  | case3 ts hts => exact .inl h

theorem joinLines_cons {t : Token} (h : t.isBackslash = false) (ts : List Token) :
    joinLines (t :: ts) = t :: joinLines ts := by
  cases ts with
  | nil => rfl
  | cons u ts => simp [joinLines, h]

-- Lines are joined on either side of a line break by itself, unless a backslash is left before it.
theorem joinLines_append_lineBreak {ts us : List Token} {lineBreak : Token}
    (hbreak : lineBreak.kind = .lineBreak) (hts : ∀ t ∈ joinLines ts, t.isBackslash = false) :
    joinLines (ts ++ lineBreak :: us) = joinLines ts ++ lineBreak :: joinLines us := by
  have hplain : lineBreak.isBackslash = false := by simp [Token.isBackslash, hbreak]
  fun_induction joinLines ts with
  | case1 a b ts hpair ih =>
      rw [List.cons_append, List.cons_append, joinLines, if_pos hpair, ih hts]
  | case2 a b ts hpair ih =>
      have hrest := ih fun t ht => hts t (List.mem_cons_of_mem a ht)
      rw [List.cons_append, joinLines_cons (hts a List.mem_cons_self), hrest, List.cons_append]
  | case3 ts hshort =>
      rcases ts with _ | ⟨a, _ | ⟨b, ts⟩⟩
      · exact joinLines_cons hplain us
      · rw [List.cons_append, joinLines_cons (hts a List.mem_cons_self), List.nil_append,
          joinLines_cons hplain]
        rfl
      · exact absurd rfl (hshort a b ts)

theorem Token.isBackslash_of_isNamePiece {t : Token} (h : t.isNamePiece = true) :
    t.isBackslash = false := by
  by_contra hbackslash
  simp only [isBackslash, Bool.not_eq_false, Bool.and_eq_true, beq_iff_eq] at hbackslash
  have hascii : isAscii "\\" = true := by decide
  simp [isNamePiece, hbackslash.1, hbackslash.2, hascii] at h

namespace Stage

variable {s s' : Stage} {t last lineBreak : Token} {line : Option Quantity}

-- A token that a move takes cannot run on to another line, nor join its line with the next.
theorem Moves.staysInLine (h : Moves s t s' line) :
    t.kind.StaysInLine ∧ t.isBackslash = false := by
  have hkind {k : TokenKind} (h : t.kind = k) (hk : k.StaysInLine) (hu : k ≠ .undefined) :
      t.kind.StaysInLine ∧ t.isBackslash = false := by
    subst h
    exact ⟨hk, by simp [Token.isBackslash, hu]⟩
  have hend (h : t.endsLine = true) : t.kind.StaysInLine ∧ t.isBackslash = false := by
    rcases Token.kind_of_endsLine h with hk | hk <;> exact hkind hk ⟨rfl, nofun⟩ nofun
  have hpiece (h : t.isNamePiece = true) : t.kind.StaysInLine ∧ t.isBackslash = false := by
    refine ⟨?_, Token.isBackslash_of_isNamePiece h⟩
    rcases Token.kind_of_isNamePiece h with hk | hk <;> rw [hk] <;> exact ⟨rfl, nofun⟩
  cases h with
  | blank h | endOfValue h | endOfUnit _ _ _ h | endOfTarget _ _ _ h => exact hend h
  | piece _ h | glue h _ => exact hpiece h
  | positive h | negative h | exponent h _ => exact hkind (kind_of_number h) ⟨rfl, nofun⟩ nofun
  | sign h | opening _ h | caret _ h | exponentSign h | times _ h | divide _ h | closing _ _ h
  | targetOfValue h | targetOfUnit _ _ _ h => exact hkind h ⟨rfl, nofun⟩ nofun

theorem staysInLine_of_next (h : s.next t = .ok (s', line)) :
    t.kind.StaysInLine ∧ t.isBackslash = false := by
  rcases next_cases h with ⟨hskips, -, -⟩ | ⟨-, -, hstep⟩
  · rcases kind_of_skips hskips with hk | ⟨hk, -⟩ <;>
      simp [Token.isBackslash, hk, TokenKind.StaysInLine, TokenKind.isQuoted]
  · exact (moves_of_step hstep).staysInLine

-- At the end of a line nothing goes on with an atom.
theorem step_of_unitEnds {u : Token} {c : Context} {e : UnitExpr} (h : UnitEnds s t c e)
    (hu : u.endsLine = true) : s.step u = afterTerm c e u := by
  have hpiece : u.isNamePiece = false := by
    rcases Token.kind_of_endsLine hu with hk | hk <;> simp [Token.isNamePiece, hk]
  have hpower : u.isOperator .power = false := by
    rcases Token.kind_of_endsLine hu with hk | hk <;> simp [Token.isOperator, hk]
  cases h with
  | atom h => cases h <;> simp [step, afterAtom, hpiece, hpower]
  | term => rfl

-- A move over the end of a text could be one over the end of a line.
theorem Moves.step_lineBreak (h : Moves s last s' line) (hlast : last.kind = .endOfFile)
    (hbreak : lineBreak.kind = .lineBreak) :
    s' = Stage.blank ∧ s.depth = 0 ∧ s.step lineBreak = .ok (Stage.blank, line) := by
  have hend : lineBreak.endsLine = true := by simp [Token.endsLine, hbreak]
  have hpiece (h : last.isNamePiece = true) : False := by
    rcases Token.kind_of_isNamePiece h with hk | hk <;> simp [hk] at hlast
  cases h with
  | blank _ => exact ⟨rfl, rfl, by simp [step, hend]⟩
  | endOfValue _ =>
      refine ⟨rfl, rfl, ?_⟩
      simp [step, Token.startsAtom, Token.isNamePiece, afterUnit, endLine, hend, hbreak]
  | endOfUnit hs houter htarget _ =>
      refine ⟨rfl, by rw [hs.depth_eq, houter]; rfl, ?_⟩
      rw [step_of_unitEnds hs hend, afterTerm_of_endsUnit (.inr hend) houter]
      simp [htarget, afterUnit, endLine, hend, hbreak]
  | endOfTarget hs houter htarget _ =>
      refine ⟨rfl, by rw [hs.depth_eq, houter]; rfl, ?_⟩
      rw [step_of_unitEnds hs hend, afterTerm_of_endsUnit (.inr hend) houter]
      simp [htarget, endLine, hend]
  | piece _ h | glue h _ => exact (hpiece h).elim
  | positive h | negative h | exponent h _ => simp [kind_of_number h] at hlast
  | sign h | opening _ h | caret _ h | exponentSign h | times _ h | divide _ h | closing _ _ h
  | targetOfValue h | targetOfUnit _ _ _ h => simp [h] at hlast

-- What is read to the end of a text can be read to the end of a line, with the same line made of
-- it. No parenthesis is open there.
theorem next_lineBreak (hlast : last.kind = .endOfFile) (hbreak : lineBreak.kind = .lineBreak)
    (h : s.next last = .ok (s', line)) : s' = blank ∧ s.next lineBreak = .ok (blank, line) := by
  have hskips : s.skips last = false := by simp [skips, hlast]
  have hfault : LexError.ofToken? last = none := by
    simp [LexError.ofToken?, hlast, TokenKind.fault?]
  rw [next, if_neg (by simp [hskips]), hfault] at h
  obtain ⟨hblank, hdepth, hstep⟩ := (moves_of_step h).step_lineBreak hlast hbreak
  refine ⟨hblank, ?_⟩
  have hskips' : s.skips lineBreak = false := by simp [skips, hbreak, hdepth]
  have hfault' : LexError.ofToken? lineBreak = none := by
    simp [LexError.ofToken?, hbreak, TokenKind.fault?]
  rw [next, if_neg (by simp [hskips']), hfault', hstep]

theorem exists_of_run_cons_eq_ok {ts : List Token} {qs : List Quantity}
    (h : s.run (t :: ts) = .ok qs) :
    ∃ s' line qs', s.next t = .ok (s', line) ∧ s'.run ts = .ok qs' ∧ qs = line.toList ++ qs' := by
  rw [run_eq_runWith_next] at h
  simpa only [run_eq_runWith_next] using exists_of_runWith_cons_eq_ok h

theorem staysInLine_of_run {ts : List Token} {qs : List Quantity} (h : s.run ts = .ok qs) :
    ∀ t ∈ ts, t.kind.StaysInLine ∧ t.isBackslash = false := by
  induction ts generalizing s qs with
  | nil => exact fun t ht => absurd ht List.not_mem_nil
  | cons u ts ih =>
      obtain ⟨s', line, qs', hnext, hrun, -⟩ := exists_of_run_cons_eq_ok h
      intro t ht
      rcases List.mem_cons.mp ht with rfl | ht
      · exact staysInLine_of_next hnext
      · exact ih hrun t ht

-- The lines after some tokens that make up whole lines are made as from a new start.
theorem run_append_lineBreak {ts us : List Token} {qs : List Quantity}
    (hlast : last.kind = .endOfFile) (hbreak : lineBreak.kind = .lineBreak)
    (h : s.run (ts ++ [last]) = .ok qs) :
    s.run (ts ++ lineBreak :: us) =
      match blank.run us with
      | .ok rs => .ok (qs ++ rs)
      | .error e => .error e := by
  induction ts generalizing s qs with
  | nil =>
      obtain ⟨s', line, qs', hnext, hrun, rfl⟩ := exists_of_run_cons_eq_ok h
      obtain ⟨rfl, hnext'⟩ := next_lineBreak hlast hbreak hnext
      cases hrun
      rw [List.nil_append, run, hnext']
      simp only [bind, Except.bind]
      cases blank.run us <;> simp [pure, Except.pure]
  | cons t ts ih =>
      obtain ⟨s', line, qs', hnext, hrun, rfl⟩ := exists_of_run_cons_eq_ok h
      rw [List.cons_append, run, hnext]
      simp only [bind, Except.bind, ih hrun]
      cases blank.run us <;> simp [pure, Except.pure]

end Stage

-- From the start of a text to what follows the line feed after it.
def Shift.past (a : String) : Shift :=
  ⟨a.utf8ByteSize + 1, (Glyph.ofString a).countP Glyph.isLineEnd + 1⟩

namespace Cursor

variable {a b : String}

theorem ofText_append_lineFeed (hlast : ¬ ['\r'] <:+ a.toList) (hfirst : ¬ ['\r'] <+: b.toList) :
    ofText (a ++ "\n" ++ b) = (ofText a).before .lf (Glyph.ofString b) := by
  have hchars : (a ++ "\n" ++ b).toList = a.toList ++ '\n' :: b.toList := by simp
  rw [ofText, Glyph.ofString, hchars, Glyph.ofChars_append_lineFeed hlast hfirst]
  rfl

theorem pastLine_ofText :
    (ofText a).pastLine .lf (Glyph.ofString b) = (ofText b).moved (.past a) := by
  have hwidth : (Glyph.lineEnd .lf).width = 1 := by decide
  have hline := Position.line_after .origin (Glyph.ofString a)
  have horigin : Position.origin.line = 0 := rfl
  simp only [pastLine, moved, ofText, Shift.past, Position.moved, Position.next,
    Glyph.size_ofString, hwidth, hline, horigin, Nat.zero_add]
  rfl

theorem span_fits_of_mem_lex {o : LexOptions}
    (hsize : (a ++ "\n" ++ b).utf8ByteSize ≤ Span.maxOffset) {t : Token} (ht : t ∈ lex o b) :
    t.span.Fits (.past a) := by
  have hstop := stop_le_of_mem_lex ht
  have hfeed : "\n".utf8ByteSize = 1 := by decide
  rw [String.utf8ByteSize_append, String.utf8ByteSize_append, hfeed] at hsize
  simp only [Span.Fits, Token.span, Shift.past]
  omega

end Cursor

-- The tokens of a text that can be parsed stay in their lines.
theorem staysInLine_of_parseLines {o : LexOptions} {source : String} {qs : List Quantity}
    (h : parseLines o source = .ok qs) : ∀ t ∈ lex o source, t.kind.StaysInLine := by
  intro t ht
  rcases mem_joinLines_or ht with hmem | hk | hk
  · exact (Stage.staysInLine_of_run h t hmem).1
  · rw [hk]
    decide
  · rw [hk]
    decide

-- The tokens that the parser gets for a text after a line feed, when those before it can be parsed.
theorem joinLines_lex_append {o : LexOptions} {a b : String} {qs : List Quantity}
    (ha : parseLines o a = .ok qs) (hlast : ¬ ['\r'] <:+ a.toList)
    (hfirst : ¬ ['\r'] <+: b.toList) :
    ∃ ts last lineBreak, joinLines (lex o a) = ts ++ [last] ∧ last.kind = .endOfFile ∧
      lineBreak.kind = .lineBreak ∧
      joinLines (lex o (a ++ "\n" ++ b)) =
        ts ++ lineBreak :: (joinLines (lex o b)).map (Token.moved (.past a)) := by
  have hjoined := Stage.staysInLine_of_run ha
  obtain ⟨ts, last, lineBreak, hlex, hend, hbreak, hboth⟩ :=
    Cursor.tokens_before .lf (Glyph.ofString b) (staysInLine_of_parseLines ha)
  rw [← Cursor.ofText_append_lineFeed hlast hfirst, Cursor.pastLine_ofText,
    Cursor.tokens_moved] at hboth
  have hsplit : joinLines (lex o a) = joinLines ts ++ [last] := by
    rw [lex, hlex, joinLines_append_of_endOfFile ts hend]
  have hno : ∀ t ∈ joinLines ts, t.isBackslash = false := by
    intro t ht
    exact (hjoined t (by rw [hsplit]; exact List.mem_append_left _ ht)).2
  refine ⟨joinLines ts, last, lineBreak, hsplit, hend, hbreak, ?_⟩
  rw [lex, hboth, joinLines_append_lineBreak hbreak hno, joinLines_moved, lex]

-- If a text can be read, the lines of what follows it after a line feed are as if that stood alone,
-- but for their places, and so is the error if there is one. The text is one that can be held,
-- which has no more bytes than the largest offset.
theorem parseLines_append_line {o : LexOptions} {a b : String} {qs : List Quantity}
    (ha : parseLines o a = .ok qs) (hlast : ¬ ['\r'] <:+ a.toList)
    (hfirst : ¬ ['\r'] <+: b.toList)
    (hsize : (a ++ "\n" ++ b).utf8ByteSize ≤ Span.maxOffset) :
    parseLines o (a ++ "\n" ++ b) =
      match parseLines o b with
      | .ok rs => .ok (qs ++ rs.map (Quantity.moved (.past a)))
      | .error e => .error (e.moved (.past a)) := by
  obtain ⟨ts, last, lineBreak, hts, hend, hbreak, hboth⟩ := joinLines_lex_append ha hlast hfirst
  have hfits : ∀ t ∈ joinLines (lex o b), t.span.Fits (.past a) := fun t ht =>
    Cursor.span_fits_of_mem_lex hsize ((joinLines_sublist _).subset ht)
  have hmoved := Stage.run_moved (s := .blank) trivial hfits
  unfold parseLines at ha ⊢
  rw [hts] at ha
  rw [hboth, Stage.run_append_lineBreak hend hbreak ha]
  have hblank : Stage.moved (.past a) .blank = .blank := rfl
  rw [hblank] at hmoved
  rw [hmoved]
  cases Stage.blank.run (joinLines (lex o b)) <;> rfl

theorem parseLines_append_line_micrometre :
    ¬ ['\r'] <:+ "1 µm".toList ∧ ¬ ['\r'] <+: "1 µm".toList ∧
    parseLines {} "1 µm" = .ok [⟨1, some (.name "µm" ⟨2, 3⟩), none⟩] ∧
    parseLines {} "1 µm\n1 µm" =
      .ok [⟨1, some (.name "µm" ⟨2, 3⟩), none⟩, ⟨1, some (.name "µm" ⟨8, 3⟩), none⟩] := by
  have hparts : ∀ p ∈ nameParts "µm".toList, Keyword.ofWord? (String.ofList p) = none := by
    decide
  have hname : IsUnitName "µm".toList := isUnitName_micrometre
  have hline : parseLines {} "1 µm" = .ok [⟨1, some (.name "µm" ⟨2, 3⟩), none⟩] :=
    parseLines_of_isUnitName hname hparts (by decide)
  have hlast : ¬ ['\r'] <:+ "1 µm".toList := by decide
  have hfirst : ¬ ['\r'] <+: "1 µm".toList := by decide
  have hboth := parseLines_append_line hline hlast hfirst (by decide)
  rw [hline] at hboth
  exact ⟨hlast, hfirst, hline, hboth⟩

end UnitCalc
