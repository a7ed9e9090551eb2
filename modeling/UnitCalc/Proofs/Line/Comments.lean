import UnitCalc.Proofs.Line.Words
import UnitCalc.Proofs.Token.Comments

namespace UnitCalc

def LexError.unplaced (e : LexError) : LexError :=
  { e with pos := .origin }

-- An error without its line and column. Its bytes stay.
def ParseError.unplaced : ParseError → ParseError
  | lexical e => lexical e.unplaced
  | e => e

namespace Stage

-- What follows a token, with an error that has no line and column.
def Next.unplaced (r : Next) : Next :=
  r.mapError ParseError.unplaced

theorem number_unplaced (t : Token) (negative : Bool) :
    number t.unplaced negative = (number t negative).mapError ParseError.unplaced := by
  have htext : t.unplaced.text = t.text := rfl
  rw [number, number, apply_ite (Except.mapError ParseError.unplaced), htext]
  cases Number.read? t.text <;> rfl

theorem unexpected_unplaced (t : Token) : t.unplaced.unexpected = t.unexpected.unplaced := by
  rw [Token.unexpected, Token.unexpected, apply_ite ParseError.unplaced]
  rfl

theorem startAtom_unplaced (c : Context) (t : Token) :
    startAtom c t.unplaced = Next.unplaced (startAtom c t) := by
  rw [startAtom, startAtom, unexpected_unplaced, apply_ite Next.unplaced,
    apply_ite Next.unplaced, apply_ite Next.unplaced]
  rfl

theorem endLine_unplaced (q : Quantity) (t : Token) :
    endLine q t.unplaced = Next.unplaced (endLine q t) := by
  rw [endLine, endLine, unexpected_unplaced, apply_ite Next.unplaced]
  rfl

theorem afterUnit_unplaced (v : Float) (unit : Option UnitExpr) (t : Token) :
    afterUnit v unit t.unplaced = Next.unplaced (afterUnit v unit t) := by
  rw [afterUnit, afterUnit, apply_ite Next.unplaced, endLine_unplaced]
  rfl

theorem afterTerm_unplaced (c : Context) (e : UnitExpr) (t : Token) :
    afterTerm c e t.unplaced = Next.unplaced (afterTerm c e t) := by
  rw [afterTerm, afterTerm, startAtom_unplaced, unexpected_unplaced, endLine_unplaced,
    afterUnit_unplaced]
  simp only [apply_ite Next.unplaced]
  cases c.outer <;> simp only [apply_ite Next.unplaced] <;> rfl

theorem afterAtom_unplaced (c : Context) (e : UnitExpr) (t : Token) :
    afterAtom c e t.unplaced = Next.unplaced (afterAtom c e t) := by
  rw [afterAtom, afterAtom, apply_ite Next.unplaced, afterTerm_unplaced]
  rfl

theorem step_unplaced (s : Stage) (t : Token) :
    s.step t.unplaced = Next.unplaced (s.step t) := by
  cases s with
  | blank =>
      rw [step, step, number_unplaced, apply_ite Next.unplaced, apply_ite Next.unplaced]
      cases number t false <;> rfl
  | sign =>
      rw [step, step, number_unplaced]
      cases number t true <;> rfl
  | value v =>
      rw [step, step, startAtom_unplaced, afterUnit_unplaced, apply_ite Next.unplaced]
      rfl
  | operand c => exact startAtom_unplaced c t
  | name c symbol span =>
      rw [step, step, afterAtom_unplaced, apply_ite Next.unplaced]
      rfl
  | atom c e => exact afterAtom_unplaced c e t
  | exponent c base negative =>
      rw [step, step, number_unplaced, apply_ite Next.unplaced]
      cases number t negative with
      | error e => rfl
      | ok x => cases hx : exponent? x <;> simp [bind, Except.bind, hx, Except.mapError] <;> rfl
  | term c e => exact afterTerm_unplaced c (c.left.join e) t

theorem next_unplaced (s : Stage) (t : Token) :
    s.next t.unplaced = Next.unplaced (s.next t) := by
  have hskips : s.skips t.unplaced = s.skips t := rfl
  have hfault : LexError.ofToken? t.unplaced = (LexError.ofToken? t).map LexError.unplaced := by
    rw [LexError.ofToken?, LexError.ofToken?, Option.map_map]
    rfl
  rw [next, next, hskips, hfault, step_unplaced, apply_ite Next.unplaced]
  cases LexError.ofToken? t <;> rfl

theorem run_unplaced (s : Stage) (ts : List Token) :
    s.run (ts.map Token.unplaced) = (s.run ts).mapError ParseError.unplaced := by
  induction ts generalizing s with
  | nil => rfl
  | cons t ts ih =>
      rw [List.map_cons, run, run, next_unplaced]
      cases s.next t with
      | error e => rfl
      | ok r =>
          obtain ⟨s', line⟩ := r
          simp only [Next.unplaced, Except.mapError, bind, Except.bind, ih]
          cases s'.run ts <;> rfl

-- What the parser makes of some tokens goes by all but their lines and columns.
theorem run_joinLines_unplaced (s : Stage) (ts : List Token) :
    s.run (joinLines (ts.map Token.unplaced)) =
      (s.run (joinLines ts)).mapError ParseError.unplaced := by
  rw [joinLines_map (f := Token.unplaced) (fun _ => rfl) (fun _ => rfl), run_unplaced]

end Stage

-- Comments are blanks: with each of their bytes made a space a text has tokens of the same kinds at
-- the same bytes, and the parser finds the same quantities in it or the same error at the same
-- bytes.
theorem parseLines_blankComments {o : LexOptions} (hquoted : o.quotedStrings = false)
    (hcomments : o.comments = true) {source blanked : String}
    (h : Text.blankComments? source = some blanked) :
    (lex { o with comments := false } blanked).map (fun t => (t.kind, t.span, t.text)) =
      (lex o source).map (fun t => (t.kind, t.span, t.text)) ∧
    (parseLines { o with comments := false } blanked).mapError ParseError.unplaced =
      (parseLines o source).mapError ParseError.unplaced := by
  have hlex := lex_blankComments hquoted hcomments h
  constructor
  · have hmap := congrArg (List.map fun t : Token => (t.kind, t.span, t.text)) hlex
    rw [List.map_map, List.map_map] at hmap
    exact hmap
  · rw [parseLines, parseLines, ← Stage.run_joinLines_unplaced, ← Stage.run_joinLines_unplaced,
      hlex]

theorem parseLines_blankComments_accent :
    Text.blankComments? "6 m/* é */as ft // to feet\n7" =
      some "6 m        as ft           \n7" ∧
    (lex { comments := true } "6 m/* é */as ft // to feet\n7").map (fun t => (t.kind, t.span)) =
      (lex {} "6 m        as ft           \n7").map (fun t => (t.kind, t.span)) ∧
    (parseLines { comments := true } "6 m/* é */as ft // to feet\n7").mapError
        ParseError.unplaced =
      .ok [⟨6, some (.name "m" ⟨2, 1⟩), some (.name "ft" ⟨14, 2⟩)⟩, ⟨7, none, none⟩] := by
  have hblank : Text.blankComments? "6 m/* é */as ft // to feet\n7" =
      some "6 m        as ft           \n7" := by decide +kernel
  have hparse : parseLines {} "6 m        as ft           \n7" =
      .ok [⟨6, some (.name "m" ⟨2, 1⟩), some (.name "ft" ⟨14, 2⟩)⟩, ⟨7, none, none⟩] := by
    decide +kernel
  obtain ⟨htokens, hlines⟩ :=
    parseLines_blankComments (o := { comments := true }) rfl rfl hblank
  refine ⟨hblank, ?_, ?_⟩
  · have hkinds := congrArg (List.map fun t : TokenKind × Span × String => (t.1, t.2.1)) htokens
    rw [List.map_map, List.map_map] at hkinds
    exact hkinds.symm
  · rw [← hlines, hparse]
    rfl

end UnitCalc
