import UnitCalc.Proofs.Line.Stray
import UnitCalc.Proofs.Prompt.Scan

namespace UnitCalc

namespace Stage

variable {s s' : Stage} {t : Token} {line : Option Quantity}

theorem Moves.depth_pos (h : Moves s t s' line) (hclosing : t.kind = .closing .round) :
    0 < s.depth := by
  have hend (h : t.endsLine = true) : 0 < s.depth := by
    rcases Token.kind_of_endsLine h with hk | hk <;> simp [hk] at hclosing
  have hpiece (h : t.isNamePiece = true) : 0 < s.depth := by
    rcases Token.kind_of_isNamePiece h with hk | hk <;> simp [hk] at hclosing
  cases h with
  | closing hs houter h =>
      rw [hs.depth_eq, houter]
      exact Nat.succ_pos _
  | blank h | endOfValue h | endOfUnit _ _ _ h | endOfTarget _ _ _ h => exact hend h
  | piece _ h | glue h _ => exact hpiece h
  | positive h | negative h | exponent h _ => simp [kind_of_number h] at hclosing
  | sign h | opening _ h | caret _ h | exponentSign h | times _ h | divide _ h
  | targetOfValue h | targetOfUnit _ _ _ h => simp [h] at hclosing

theorem depthAfter_eq_add {t : Token} {depth : Nat}
    (h : t.kind = .closing .round → 0 < depth) :
    (t.depthAfter depth : Int) = depth + t.kind.nesting := by
  unfold Token.depthAfter
  split
  · rename_i hopening
    rw [hopening]
    rfl
  split
  · rename_i hclosing
    have hpos := h hclosing
    rw [hclosing]
    simp only [TokenKind.nesting]
    omega
  · rename_i hopening hclosing
    have hzero : t.kind.nesting = 0 := by
      unfold TokenKind.nesting
      split <;> simp_all
    omega

theorem depth_of_next (h : s.next t = .ok (s', line)) :
    (s'.depth : Int) = s.depth + t.kind.nesting := by
  rcases next_cases h with ⟨hskips, rfl, -⟩ | ⟨-, -, hstep⟩
  · have hzero : t.kind.nesting = 0 := by
      rcases kind_of_skips hskips with hk | ⟨hk, -⟩ <;> rw [hk] <;> rfl
    omega
  · have hmoves := moves_of_step hstep
    rw [hmoves.depth_eq, depthAfter_eq_add hmoves.depth_pos]

-- A stage has as many parentheses open as the tokens that lead to it leave open.
theorem Leads.depth_eq {ts : List Token} (h : Leads s ts s') :
    (s'.depth : Int) = s.depth + tokenNesting ts := by
  induction h with
  | nil => simp
  | cons hnext _ ih =>
      rw [ih, depth_of_next hnext, tokenNesting_cons, Int.add_assoc]

theorem exists_of_stop? {ts : List Token} (h : s.stop? ts = some (s', t)) :
    ∃ before after, ts = before ++ t :: after ∧ (∀ u ∈ before, u.kind.StaysInLine) ∧
      (s'.depth : Int) = s.depth + tokenNesting before := by
  obtain ⟨before, after, rfl, hleads⟩ := exists_leads_of_stop? h
  exact ⟨before, after, rfl, fun u hu => (hleads.staysInLine u hu).1, hleads.depth_eq⟩

-- A run that ends with the end token leaves no parenthesis open.
theorem depth_of_run {ts : List Token} {last : Token} {qs : List Quantity}
    (hlast : last.kind = .endOfFile) (h : s.run (ts ++ [last]) = .ok qs) :
    (s.depth : Int) + tokenNesting ts = 0 := by
  induction ts generalizing s qs with
  | nil =>
      obtain ⟨s', line, qs', hnext, -, -⟩ := exists_of_run_cons_eq_ok h
      have hdepth := depth_of_next hnext
      have hbreak : ({ last with kind := .lineBreak } : Token).kind = .lineBreak := rfl
      obtain ⟨rfl, -⟩ := next_lineBreak hlast hbreak hnext
      have hzero : last.kind.nesting = 0 := by
        rw [hlast]
        rfl
      have hblank : Stage.blank.depth = 0 := rfl
      rw [tokenNesting_nil]
      omega
  | cons t ts ih =>
      obtain ⟨s', line, qs', hnext, hrun, -⟩ := exists_of_run_cons_eq_ok h
      have hstep := depth_of_next hnext
      have hrest := ih hrun
      rw [tokenNesting_cons]
      omega

end Stage

-- Tokens that are joined to the next line open and close nothing.
theorem exists_of_joinLines_eq_append {ts before after : List Token} {t : Token}
    (h : joinLines ts = before ++ t :: after) :
    ∃ before' after', ts = before' ++ t :: after' ∧ tokenNesting before' = tokenNesting before ∧
      ∀ u ∈ before', u ∈ before ∨ u.kind = .undefined ∨ u.kind = .lineBreak := by
  fun_induction joinLines ts generalizing before with
  | case1 a b ts hpair ih =>
      simp only [Token.isBackslash, Bool.and_eq_true, beq_iff_eq] at hpair
      obtain ⟨before', after', rfl, hnesting, hmem⟩ := ih h
      refine ⟨a :: b :: before', after', rfl, ?_, ?_⟩
      · simp [hpair.1.1, hpair.2, TokenKind.nesting, hnesting]
      · intro u hu
        rcases List.mem_cons.mp hu with rfl | hu
        · exact .inr (.inl hpair.1.1)
        rcases List.mem_cons.mp hu with rfl | hu
        · exact .inr (.inr hpair.2)
        · exact hmem u hu
  | case2 a b ts hpair ih =>
      cases before with
      | nil =>
          obtain ⟨rfl, -⟩ := List.cons.inj h
          exact ⟨[], b :: ts, rfl, rfl, List.forall_mem_nil _⟩
      | cons u before =>
          obtain ⟨rfl, hrest⟩ := List.cons.inj h
          obtain ⟨before', after', hsplit, hnesting, hmem⟩ := ih hrest
          refine ⟨a :: before', after', by rw [hsplit]; rfl, by simp [hnesting], ?_⟩
          intro u hu
          rcases List.mem_cons.mp hu with rfl | hu
          · exact .inl List.mem_cons_self
          · exact (hmem u hu).imp_left (List.mem_cons_of_mem a)
  | case3 ts hts => exact ⟨before, after, h, rfl, fun u hu => .inl hu⟩

namespace Prompt

variable {o : LexOptions} {source : String}

-- The scan of a text, carried on from one of the tokens that the parser gets.
theorem exists_leftOpen_of_joinLines_lex {before after : List Token} {t : Token}
    (h : joinLines (lex o source) = before ++ t :: after)
    (hbefore : ∀ u ∈ before, u.kind.StaysInLine) :
    ∃ c : Cursor, (∀ g ∈ c.rest, g.Proper) ∧ (c.read o).1 = t ∧
      leftOpen o.comments 0 source.toList =
        leftOpen o.comments (tokenNesting before) (c.rest.flatMap Glyph.chars) := by
  obtain ⟨before', after', hlex, hnesting, hmem⟩ := exists_of_joinLines_eq_append h
  have hplain : ∀ u ∈ before', u.kind.StaysInLine := by
    intro u hu
    rcases hmem u hu with hu | hk | hk
    · exact hbefore u hu
    · rw [hk]
      decide
    · rw [hk]
      decide
  have hproper : ∀ g ∈ (Cursor.ofText source).rest, g.Proper := Glyph.proper_ofChars _
  have hchars : (Cursor.ofText source).rest.flatMap Glyph.chars = source.toList :=
    Glyph.flatMap_chars_ofChars source.toList
  obtain ⟨c, hc, ht, hscan⟩ :=
    Cursor.exists_leftOpen_of_tokens_eq_append hproper hlex hplain 0
  rw [hchars, Int.zero_add, hnesting] at hscan
  exact ⟨c, hc, ht, hscan⟩

-- A text that can be read is complete, unless a backslash is at its end.
theorem needsMore_of_parseLines_eq_ok {qs : List Quantity} (h : parseLines o source = .ok qs)
    (hbackslash : (Text.trimEnd source.toList).getLast? ≠ some '\\') :
    needsMore o source = false := by
  obtain ⟨ts, last, hlex, -, hlast, -⟩ := (Cursor.ofText source).exists_tokens_eq_append o
  have hjoined : joinLines (lex o source) = joinLines ts ++ [last] := by
    rw [lex, hlex, joinLines_append_of_endOfFile ts hlast]
  have hrun := h
  rw [parseLines, hjoined] at hrun
  have hplain : ∀ u ∈ joinLines ts, u.kind.StaysInLine := fun u hu =>
    (Stage.staysInLine_of_run hrun u (List.mem_append_left _ hu)).1
  have hdepth : tokenNesting (joinLines ts) = 0 := by
    simpa [Stage.depth] using Stage.depth_of_run hlast hrun
  obtain ⟨c, hproper, hread, hscan⟩ := exists_leftOpen_of_joinLines_lex hjoined hplain
  rw [hdepth, Cursor.leftOpen_read_endOfFile hproper (by rw [hread, hlast])] at hscan
  rw [← Bool.not_eq_true, needsMore_iff, hscan]
  simp [hbackslash]

theorem needsMore_of_parseLines_eq_ok_metre :
    parseLines {} "1 m" = .ok [⟨1, some (.name "m" ⟨2, 1⟩), none⟩] ∧
    (Text.trimEnd "1 m".toList).getLast? ≠ some '\\' ∧ needsMore {} "1 m" = false := by
  have hparse : parseLines {} "1 m" = .ok [⟨1, some (.name "m" ⟨2, 1⟩), none⟩] := by
    decide +kernel
  have hlast : (Text.trimEnd "1 m".toList).getLast? ≠ some '\\' := by decide
  exact ⟨hparse, hlast, needsMore_of_parseLines_eq_ok hparse hlast⟩

-- A line that a backslash joins with an empty last line can be read.
theorem not_forall_needsMore_of_parseLines_eq_ok :
    ¬ ∀ (o : LexOptions) (source : String), source.utf8ByteSize < 2 ^ 31 →
      (∃ qs, parseLines o source = .ok qs) → needsMore o source = false := by
  intro h
  have hparse : parseLines {} "1 m \\\n" = .ok [⟨1, some (.name "m" ⟨2, 1⟩), none⟩] := by
    decide +kernel
  have hmore : needsMore {} "1 m \\\n" = true := by decide
  have hless := h {} "1 m \\\n" (by decide) ⟨_, hparse⟩
  rw [hmore] at hless
  cases hless

-- A text that breaks off inside parentheses or a comment goes on.
theorem needsMore_of_parseLines_eq_error {e : ParseError} (h : parseLines o source = .error e) :
    ∃ s t, Stage.blank.stop? (joinLines (lex o source)) = some (s, t) ∧ s.next t = .error e ∧
      (t.kind = .endOfFile ∧ s.depth ≠ 0 ∨ t.kind = .fault .unterminatedComment →
        needsMore o source = true) := by
  obtain ⟨s, t, hstop, herror⟩ := Stage.exists_stop?_of_run_eq_error h
  refine ⟨s, t, hstop, herror, ?_⟩
  intro hbroken
  obtain ⟨before, after, hjoined, hplain, hdepth⟩ := Stage.exists_of_stop? hstop
  obtain ⟨c, hproper, hread, hscan⟩ := exists_leftOpen_of_joinLines_lex hjoined hplain
  rw [needsMore_iff, hscan]
  rcases hbroken with ⟨hend, hopen⟩ | hcomment
  · rw [Cursor.leftOpen_read_endOfFile hproper (by rw [hread, hend])]
    have hblank : Stage.blank.depth = 0 := rfl
    have hpos : 0 < tokenNesting before := by omega
    exact .inr (.inl hpos)
  · rw [Cursor.leftOpen_read_comment hproper (by rw [hread, hcomment])]
    exact .inl rfl

theorem needsMore_of_parseLines_eq_error_open :
    parseLines {} "1 (m" = .error (.unexpected "end of input" ⟨4, 0⟩) ∧
      needsMore {} "1 (m" = true := by
  have hparse : parseLines {} "1 (m" = .error (.unexpected "end of input" ⟨4, 0⟩) := by
    decide +kernel
  obtain ⟨s, t, hstop, -, hmore⟩ := needsMore_of_parseLines_eq_error hparse
  have hplace : (Stage.blank.stop? (joinLines (lex {} "1 (m"))).map
      (fun (s, t) => (t.kind, s.depth)) = some (.endOfFile, 1) := by
    decide +kernel
  rw [hstop] at hplace
  obtain ⟨hkind, hdepth⟩ := Prod.mk.inj (Option.some.inj hplace)
  exact ⟨hparse, hmore (.inl ⟨hkind, by simp only [hdepth]; decide⟩)⟩

end Prompt

end UnitCalc
