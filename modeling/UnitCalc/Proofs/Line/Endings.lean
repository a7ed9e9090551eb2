import UnitCalc.Proofs.Line.Printing
import UnitCalc.Proofs.Token.Endings

namespace UnitCalc

def Quantity.bare (q : Quantity) : Quantity :=
  ⟨q.value, q.unit.map UnitExpr.bare, q.target.map UnitExpr.bare⟩

def LexError.bare (e : LexError) : LexError :=
  ⟨e.fault, e.pos, ⟨0, 0⟩⟩

-- An error without its place and the text found there.
def ParseError.bare : ParseError → ParseError
  | expectedNumber _ _ => expectedNumber "" ⟨0, 0⟩
  | expectedUnit _ _ => expectedUnit "" ⟨0, 0⟩
  | unexpected _ _ => unexpected "" ⟨0, 0⟩
  | invalidNumber text _ => invalidNumber text ⟨0, 0⟩
  | lexical e => lexical e.bare

def LeftSide.bare (left : LeftSide) : LeftSide :=
  left.map fun (e, j) => (e.bare, j)

def Context.bare (c : Context) : Context :=
  ⟨c.value, c.unit.map UnitExpr.bare, c.isTarget, LeftSide.bare c.left,
    c.outer.map LeftSide.bare⟩

def Stage.bare : Stage → Stage
  | blank => blank
  | sign => sign
  | value v => value v
  | operand c => operand c.bare
  | name c symbol _ => name c.bare symbol ⟨0, 0⟩
  | atom c e => atom c.bare e.bare
  | exponent c base negative => exponent c.bare base.bare negative
  | term c e => term c.bare e.bare

def Stage.Next.bare : Next → Next
  | .ok (s, line) => .ok (s.bare, line.map Quantity.bare)
  | .error e => .error e.bare

-- A token of which it only counts whether it touches the name before it.
def Token.bare (touching : Bool) (t : Token) : Token :=
  ⟨t.kind, t.pos, if touching then 0 else 1, if t.kind.holdsLineEnd then "" else t.text⟩

@[simp] theorem UnitExpr.bare_bare (e : UnitExpr) : e.bare.bare = e.bare := by
  induction e <;> simp_all [bare]

@[simp] theorem UnitExpr.bare_comp_bare : UnitExpr.bare ∘ UnitExpr.bare = UnitExpr.bare :=
  funext bare_bare

@[simp] theorem Quantity.bare_bare (q : Quantity) : q.bare.bare = q.bare := by
  simp [bare]

@[simp] theorem LeftSide.bare_bare (left : LeftSide) :
    LeftSide.bare (LeftSide.bare left) = LeftSide.bare left := by
  rcases left with _ | ⟨l, j⟩ <;> simp [bare]

@[simp] theorem Context.bare_bare (c : Context) : c.bare.bare = c.bare := by
  simp [bare, Function.comp_def]

theorem LeftSide.join_bare (left : LeftSide) (e : UnitExpr) :
    LeftSide.join (LeftSide.bare left) e.bare = (left.join e).bare := by
  rcases left with _ | ⟨l, _ | _⟩ <;> rfl

namespace Token

variable (touching : Bool) (t : Token)

@[simp] theorem kind_bare : (t.bare touching).kind = t.kind := rfl

@[simp] theorem isNamePiece_bare : (t.bare touching).isNamePiece = t.isNamePiece := by
  unfold isNamePiece bare
  cases t.kind <;> rfl

@[simp] theorem startsAtom_bare : (t.bare touching).startsAtom = t.startsAtom := by
  rw [startsAtom, startsAtom, kind_bare, isNamePiece_bare]

variable {t}

theorem text_bare (h : t.kind.holdsLineEnd = false) : (t.bare touching).text = t.text := by
  simp [bare, h]

theorem text_bare_of_isNamePiece (h : t.isNamePiece = true) :
    (t.bare touching).text = t.text := by
  apply text_bare
  rcases kind_of_isNamePiece h with hk | hk <;> rw [hk] <;> rfl

end Token

namespace Stage

variable {touching : Bool}

theorem number_bare (t : Token) (negative : Bool) :
    (number (t.bare touching) negative).mapError ParseError.bare =
      (number t negative).mapError ParseError.bare := by
  rw [number, number, Token.kind_bare]
  by_cases hkind : t.kind = .number
  · have hholds : t.kind.holdsLineEnd = false := by
      rw [hkind]
      rfl
    rw [hkind, Token.text_bare _ hholds]
    cases Number.read? t.text <;> rfl
  · rw [if_neg (by simpa using hkind), if_neg (by simpa using hkind)]
    rfl

-- A number is the same, or else the error is.
theorem bare_bind_number {t : Token} {negative : Bool} {f g : Float → Next}
    (h : ∀ x, Next.bare (f x) = Next.bare (g x)) :
    Next.bare (number (t.bare touching) negative >>= f) = Next.bare (number t negative >>= g) := by
  have hnumber := @number_bare touching t negative
  cases hbare : number (t.bare touching) negative with
  | error e =>
      cases ht : number t negative with
      | error e' =>
          rw [hbare, ht] at hnumber
          exact congrArg Except.error (Except.error.inj hnumber)
      | ok x =>
          rw [hbare, ht] at hnumber
          cases hnumber
  | ok x =>
      cases ht : number t negative with
      | error e' =>
          rw [hbare, ht] at hnumber
          cases hnumber
      | ok y =>
          rw [hbare, ht] at hnumber
          cases hnumber
          exact h x

theorem unexpected_bare (t : Token) :
    (t.bare touching).unexpected.bare = t.unexpected.bare := by
  rw [Token.unexpected, Token.unexpected, Token.kind_bare, apply_ite ParseError.bare,
    apply_ite ParseError.bare]
  rfl

theorem startAtom_bare (c : Context) (t : Token) :
    Next.bare (startAtom c.bare (t.bare touching)) = Next.bare (startAtom c t) := by
  rw [startAtom, startAtom, Token.kind_bare, Token.isNamePiece_bare]
  split
  · simp [Next.bare, Stage.bare, Context.bare, Context.opened]
  split
  · rename_i h
    rw [Token.text_bare_of_isNamePiece _ h]
    simp [Next.bare, Stage.bare]
  split
  · exact congrArg Except.error (unexpected_bare t)
  · rfl

theorem endLine_bare (q : Quantity) (t : Token) :
    Next.bare (endLine q.bare (t.bare touching)) = Next.bare (endLine q t) := by
  have hends : (t.bare touching).endsLine = t.endsLine := rfl
  rw [endLine, endLine, hends]
  split
  · simp [Next.bare]
  · exact congrArg Except.error (unexpected_bare t)

theorem afterUnit_bare (v : Float) (unit : Option UnitExpr) (t : Token) :
    Next.bare (afterUnit v (unit.map UnitExpr.bare) (t.bare touching)) =
      Next.bare (afterUnit v unit t) := by
  rw [afterUnit, afterUnit, Token.kind_bare]
  split
  · simp [Next.bare, Stage.bare, Context.bare, Context.ofTarget]
  · exact endLine_bare ⟨v, unit, none⟩ t

theorem afterTerm_bare (c : Context) (e : UnitExpr) (t : Token) :
    Next.bare (afterTerm c.bare e.bare (t.bare touching)) = Next.bare (afterTerm c e t) := by
  have hoperator (op : Operator) : (t.bare touching).isOperator op = t.isOperator op := rfl
  have hjoined (j : Joint) : c.bare.joined e.bare j = (c.joined e j).bare := rfl
  rw [afterTerm, afterTerm, hoperator, hoperator, Token.startsAtom_bare, hjoined, hjoined]
  split
  · simp [Next.bare, Stage.bare]
  split
  · simp [Next.bare, Stage.bare]
  split
  · exact startAtom_bare (c.joined e .mul) t
  obtain ⟨v, unit, isTarget, left, outer⟩ := c
  cases outer with
  | nil =>
      simp only [Context.bare, List.map_nil]
      split
      · exact endLine_bare ⟨v, unit, some e⟩ t
      · exact afterUnit_bare v (some e) t
  | cons first outer =>
      simp only [Context.bare, List.map_cons, Token.kind_bare]
      split
      · simp [Next.bare, Stage.bare, Context.bare, UnitExpr.bare]
      · exact congrArg Except.error (unexpected_bare t)

theorem afterAtom_bare (c : Context) (e : UnitExpr) (t : Token) :
    Next.bare (afterAtom c.bare e.bare (t.bare touching)) = Next.bare (afterAtom c e t) := by
  have hoperator : (t.bare touching).isOperator .power = t.isOperator .power := rfl
  have hleft : c.bare.left.join e.bare = (c.left.join e).bare := LeftSide.join_bare c.left e
  rw [afterAtom, afterAtom, hoperator, hleft]
  split
  · simp [Next.bare, Stage.bare]
  · exact afterTerm_bare c (c.left.join e) t

-- Where the name that is being read ends.
def end? : Stage → Option Nat
  | name _ _ span => some span.stop
  | _ => none

-- Whether a token touches the name that is being read.
def touches (s : Stage) (t : Token) : Bool :=
  s.end? = some t.start

theorem step_bare (s : Stage) (t : Token) :
    Next.bare (s.bare.step (t.bare (s.touches t))) = Next.bare (s.step t) := by
  cases s with
  | blank =>
      have hends : (t.bare (blank.touches t)).endsLine = t.endsLine := rfl
      have hminus : (t.bare (blank.touches t)).isOperator .minus = t.isOperator .minus := rfl
      rw [bare, step, step, hends, hminus]
      split
      · rfl
      split
      · rfl
      · exact bare_bind_number fun x => rfl
  | sign => exact bare_bind_number fun x => rfl
  | value v =>
      rw [bare, step, step, Token.startsAtom_bare]
      split
      · exact startAtom_bare (.ofUnit v) t
      · exact afterUnit_bare v none t
  | operand c => exact startAtom_bare c t
  | name c symbol span =>
      have htouches : ((t.bare ((name c symbol span).touches t)).start == Span.stop ⟨0, 0⟩) =
          (t.start == span.stop) := by
        have hzero : Span.stop ⟨0, 0⟩ = 0 := rfl
        rw [hzero]
        by_cases h : span.stop = t.start
        · simp [Token.bare, touches, end?, h]
        · simp [Token.bare, touches, end?, h, Ne.symm h]
      rw [bare, step, step, Token.isNamePiece_bare, htouches]
      split
      · rename_i h
        rw [Token.text_bare_of_isNamePiece _ (Bool.and_eq_true_iff.mp h).1]
        simp [Next.bare, bare]
      · exact afterAtom_bare c (.name symbol span) t
  | atom c e => exact afterAtom_bare c e t
  | exponent c base negative =>
      have hminus : (t.bare ((exponent c base negative).touches t)).isOperator .minus =
        t.isOperator .minus := rfl
      rw [bare, step, step, hminus]
      split
      · simp [Next.bare, bare]
      · apply bare_bind_number
        intro x
        cases exponent? x with
        | some n => simp [Next.bare, bare, pure, Except.pure, UnitExpr.bare]
        | none => rfl
  | term c e =>
      have hleft : c.bare.left.join e.bare = (c.left.join e).bare := LeftSide.join_bare c.left e
      rw [bare, step, step, hleft]
      exact afterTerm_bare c (c.left.join e) t

theorem skips_bare (s : Stage) (t : Token) (touching : Bool) :
    s.bare.skips (t.bare touching) = s.skips t := by
  have hdepth : s.bare.depth = s.depth := by
    cases s <;> simp [bare, depth, Context.bare]
  rw [skips, skips, hdepth, Token.kind_bare]

@[simp] theorem bare_bare (s : Stage) : s.bare.bare = s.bare := by
  cases s <;> simp [bare]

theorem next_bare (s : Stage) (t : Token) :
    Next.bare (s.bare.next (t.bare (s.touches t))) = Next.bare (s.next t) := by
  rw [next, next, skips_bare]
  split
  · simp [Next.bare]
  · have hfault : LexError.ofToken? (t.bare (s.touches t)) =
        t.kind.fault?.map fun f => ⟨f, t.pos, (t.bare (s.touches t)).span⟩ := rfl
    rw [hfault, LexError.ofToken?]
    cases t.kind.fault? with
    | some f => rfl
    | none => exact step_bare s t

-- A token that counts starts a name, goes on with one or is in none.
theorem end?_of_moves {s s' : Stage} {t : Token} {line : Option Quantity} {stop : Nat}
    (h : Moves s t s' line) (hstop : s'.end? = some stop) : stop = t.span.stop := by
  cases h with
  | piece => exact (Option.some.inj hstop).symm
  | @glue t c symbol span hpiece htouch =>
      obtain rfl := Option.some.inj hstop
      simp only [Span.stop, Token.span] at htouch ⊢
      omega
  | _ => cases hstop

theorem end?_of_next {s s' : Stage} {t : Token} {line : Option Quantity} {stop : Nat}
    (h : s.next t = .ok (s', line)) (hstop : s'.end? = some stop) :
    s.skips t = true ∧ s.end? = some stop ∨ s.skips t = false ∧ stop = t.span.stop := by
  rcases next_cases h with ⟨hskips, rfl, -⟩ | ⟨hskips, -, hstep⟩
  · exact .inl ⟨hskips, hstop⟩
  · exact .inr ⟨hskips, end?_of_moves (moves_of_step hstep) hstop⟩

-- Stages that differ in the places of names alone. Where the name that is being read ends, as many
-- glyphs are passed.
structure Respelled (e : LineEnding) (c : Cursor) (s s' : Stage) : Prop where
  bare : s'.bare = s.bare
  ends : ∀ stop stop', s.end? = some stop → s'.end? = some stop' → c.SamePlace e stop stop'

end Stage

theorem Token.Respelled.bare {e : LineEnding} {c : Cursor} {t t' : Token}
    (h : Respelled e c t t') (touching : Bool) : t'.bare touching = t.bare touching := by
  unfold Token.bare
  rw [h.kind, h.pos]
  cases hholds : t.kind.holdsLineEnd with
  | true => rfl
  | false => rw [h.text hholds]

namespace Stage

variable {e : LineEnding} {c : Cursor} {s s' : Stage} {t t' : Token}

theorem Respelled.touches (hs : Respelled e c s s') (ht : Token.Respelled e c t t') :
    s'.touches t' = s.touches t := by
  have hsome (s : Stage) : s.bare.end?.isSome = s.end?.isSome := by
    cases s <;> rfl
  have hboth : s'.end?.isSome = s.end?.isSome := by
    rw [← hsome s', hs.bare, hsome]
  unfold Stage.touches
  cases hend : s.end? with
  | none =>
      have hnone : s'.end? = none := by
        simpa [hend] using hboth
      rw [hnone]
      rfl
  | some stop =>
      obtain ⟨stop', hend'⟩ := Option.isSome_iff_exists.mp (hboth.trans (by rw [hend]; rfl))
      have hiff := (hs.ends stop stop' hend hend').eq_iff ht.start
      simp [hend', hiff]

theorem Respelled.bare_next (hs : Respelled e c s s') (ht : Token.Respelled e c t t') :
    Next.bare (s'.next t') = Next.bare (s.next t) := by
  rw [← next_bare s', ← next_bare s, hs.bare, hs.touches ht, ht.bare]

theorem Respelled.next {s₁ s₁' : Stage} {line line' : Option Quantity}
    (hs : Respelled e c s s') (ht : Token.Respelled e c t t')
    (hstop : c.SamePlace e t.span.stop t'.span.stop)
    (h : s.next t = .ok (s₁, line)) (h' : s'.next t' = .ok (s₁', line')) :
    Respelled e c s₁ s₁' ∧ line'.map Quantity.bare = line.map Quantity.bare := by
  have hnext := hs.bare_next ht
  rw [h, h'] at hnext
  obtain ⟨hbare, hline⟩ := Prod.mk.inj (Except.ok.inj hnext)
  have hskips : s'.skips t' = s.skips t := by
    rw [← skips_bare s' t' false, ← skips_bare s t false, hs.bare, ht.bare]
  refine ⟨⟨hbare, fun stop stop' hend hend' => ?_⟩, hline⟩
  rcases end?_of_next h hend with ⟨hskip, hs'⟩ | ⟨hskip, rfl⟩
  · rcases end?_of_next h' hend' with ⟨-, hs''⟩ | ⟨hno, -⟩
    · exact hs.ends _ _ hs' hs''
    · simp [hskips, hskip] at hno
  · rcases end?_of_next h' hend' with ⟨hyes, -⟩ | ⟨-, rfl⟩
    · simp [hskips, hskip] at hyes
    · exact hstop

-- The lines that were read, or the error, but for places and found texts.
def bareResult (r : Except ParseError (List Quantity)) : Except ParseError (List Quantity) :=
  (r.map (List.map Quantity.bare)).mapError ParseError.bare

-- One more line before those that were read.
theorem bareResult_append {line line' : Option Quantity}
    {r r' : Except ParseError (List Quantity)}
    (hline : line'.map Quantity.bare = line.map Quantity.bare) (hr : bareResult r' = bareResult r) :
    bareResult (do return line'.toList ++ (← r')) =
      bareResult (do return line.toList ++ (← r)) := by
  have hlist : line'.toList.map Quantity.bare = line.toList.map Quantity.bare := by
    rw [← Option.toList_map, ← Option.toList_map, hline]
  cases r with
  | error e =>
      cases r' with
      | error e' => exact hr
      | ok qs' => cases hr
  | ok qs =>
      cases r' with
      | error e' => cases hr
      | ok qs' =>
          have hqs : qs'.map Quantity.bare = qs.map Quantity.bare := Except.ok.inj hr
          apply congrArg Except.ok
          rw [List.map_append, List.map_append, hlist, hqs]

theorem Respelled.run (hs : Respelled e c s s') {ts ts' : List Token}
    (hts : List.Forall₂ (fun t t' => Token.Respelled e c t t' ∧
      c.SamePlace e t.span.stop t'.span.stop) ts ts') :
    bareResult (s'.run ts') = bareResult (s.run ts) := by
  induction hts generalizing s s' with
  | nil => rfl
  | @cons t t' ts ts' ht hts ih =>
      have hnext := hs.bare_next ht.1
      rw [Stage.run, Stage.run]
      cases h : s.next t with
      | error err =>
          cases h' : s'.next t' with
          | error err' =>
              rw [h, h'] at hnext
              exact congrArg Except.error (Except.error.inj hnext)
          | ok r' =>
              rw [h, h'] at hnext
              cases hnext
      | ok r =>
          cases h' : s'.next t' with
          | error err' =>
              rw [h, h'] at hnext
              cases hnext
          | ok r' =>
              obtain ⟨s₁, line⟩ := r
              obtain ⟨s₁', line'⟩ := r'
              obtain ⟨hs₁, hline⟩ := hs.next ht.1 ht.2 h h'
              exact bareResult_append hline (ih hs₁)

end Stage

theorem Token.Respelled.isBackslash {e : LineEnding} {c : Cursor} {t t' : Token}
    (h : Respelled e c t t') : t'.isBackslash = t.isBackslash := by
  rw [Token.isBackslash, Token.isBackslash, h.kind]
  cases hundefined : t.kind == .undefined with
  | false => rfl
  | true =>
      have hholds : t.kind.holdsLineEnd = false := by
        rw [eq_of_beq hundefined]
        rfl
      rw [h.text hholds]

theorem forall₂_joinLines {e : LineEnding} {c : Cursor} {R : Token → Token → Prop}
    {ts ts' : List Token} (hR : ∀ t t', R t t' → Token.Respelled e c t t')
    (h : List.Forall₂ R ts ts') : List.Forall₂ R (joinLines ts) (joinLines ts') := by
  fun_induction joinLines ts generalizing ts' with
  | case1 a b ts hpair ih =>
      cases h with
      | cons ha h =>
          cases h with
          | cons hb h =>
              rw [joinLines, (hR _ _ ha).isBackslash, (hR _ _ hb).kind, if_pos hpair]
              exact ih h
  | case2 a b ts hpair ih =>
      cases h with
      | cons ha h =>
          cases h with
          | cons hb h =>
              rw [joinLines, (hR _ _ ha).isBackslash, (hR _ _ hb).kind, if_neg hpair]
              exact .cons ha (ih (.cons hb h))
  | case3 ts hts =>
      rcases ts with _ | ⟨a, _ | ⟨b, ts⟩⟩
      · cases h
        exact .nil
      · cases h with
        | cons ha h =>
            cases h
            exact .cons ha .nil
      · exact absurd rfl (hts a b ts)

namespace Cursor

theorem offset_pass_le (c : Cursor) (n : Nat) :
    (c.pass n).offset ≤ c.offset + Glyph.size c.rest := by
  have hsize := congrArg Glyph.size (List.take_append_drop n c.rest)
  rw [Glyph.size_append] at hsize
  simp only [pass]
  omega

theorem end_ofText (source : String) :
    (ofText source).offset + Glyph.size (ofText source).rest = source.utf8ByteSize := by
  rw [ofText, Nat.zero_add, Glyph.size_ofString]

end Cursor

theorem Token.Respelled.samePlace_stop {e : LineEnding} {source : String} {t t' : Token}
    (h : Respelled e (.ofText source) t t') (hreturn : '\r' ∉ source.toList)
    (hsize : (Text.withLineEnds e source).utf8ByteSize ≤ Span.maxOffset) :
    (Cursor.ofText source).SamePlace e t.span.stop t'.span.stop := by
  have hsame {t : Token} (h : t.start + t.text.utf8ByteSize ≤ Span.maxOffset) :
      t.span.stop = t.start + t.text.utf8ByteSize := Nat.min_eq_left h
  obtain ⟨n, hn, hstop, hstop'⟩ := h.stop
  have hle := (Cursor.ofText source).offset_pass_le n
  have hle' := ((Cursor.ofText source).withEnding e).offset_pass_le n
  have hsmaller := Text.utf8ByteSize_le_withLineEnds e source
  rw [← hstop, Cursor.end_ofText] at hle
  rw [← hstop', ← Cursor.ofText_withLineEnds e hreturn, Cursor.end_ofText] at hle'
  refine ⟨n, hn, ?_, ?_⟩
  · rw [hsame (by omega), hstop]
  · rw [hsame (by omega), hstop']

-- Whichever way the line ends of a text are spelled, its tokens have the same kinds, lines and
-- columns, and the parser finds the same lines or the same fault. For the parser the text is one
-- that can be held, which has no more bytes than the largest offset.
theorem parseLines_withLineEnds (o : LexOptions) (e : LineEnding) {source : String}
    (hreturn : '\r' ∉ source.toList) :
    (lex o (Text.withLineEnds e source)).map (fun t => (t.kind, t.pos)) =
      (lex o source).map (fun t => (t.kind, t.pos)) ∧
    ((Text.withLineEnds e source).utf8ByteSize ≤ Span.maxOffset →
      Stage.bareResult (parseLines o (Text.withLineEnds e source)) =
        Stage.bareResult (parseLines o source)) := by
  have hlex := respelled_lex o e hreturn
  constructor
  · have hmaps : List.Forall₂ Eq
        ((lex o (Text.withLineEnds e source)).map fun t => (t.kind, t.pos))
        ((lex o source).map fun t => (t.kind, t.pos)) := by
      rw [List.forall₂_map_left_iff, List.forall₂_map_right_iff]
      exact hlex.flip.imp fun t' t h => Prod.ext h.kind h.pos
    rwa [List.forall₂_eq_eq_eq] at hmaps
  · intro hsize
    have hboth := hlex.imp fun t t' h => And.intro h (h.samePlace_stop hreturn hsize)
    have hblank : Stage.Respelled e (.ofText source) .blank .blank := ⟨rfl, nofun⟩
    exact hblank.run (forall₂_joinLines (fun t t' h => h.1) hboth)

theorem parseLines_withLineEnds_crlf :
    '\r' ∉ "1 m \\\nas ft\n2".toList ∧
    Text.withLineEnds .crlf "1 m \\\nas ft\n2" = "1 m \\\r\nas ft\r\n2" ∧
    parseLines {} "1 m \\\nas ft\n2" =
      .ok [⟨1, some (.name "m" ⟨2, 1⟩), some (.name "ft" ⟨9, 2⟩)⟩, ⟨2, none, none⟩] ∧
    (lex {} "1 m \\\r\nas ft\r\n2").map (fun t => (t.kind, t.pos)) =
      (lex {} "1 m \\\nas ft\n2").map (fun t => (t.kind, t.pos)) ∧
    Stage.bareResult (parseLines {} "1 m \\\r\nas ft\r\n2") =
      .ok [⟨1, some (.name "m" ⟨0, 0⟩), some (.name "ft" ⟨0, 0⟩)⟩, ⟨2, none, none⟩] := by
  have hreturn : '\r' ∉ "1 m \\\nas ft\n2".toList := by decide
  have hspelled : Text.withLineEnds .crlf "1 m \\\nas ft\n2" = "1 m \\\r\nas ft\r\n2" := by decide
  have hparse : parseLines {} "1 m \\\nas ft\n2" =
      .ok [⟨1, some (.name "m" ⟨2, 1⟩), some (.name "ft" ⟨9, 2⟩)⟩, ⟨2, none, none⟩] := by
    decide +kernel
  obtain ⟨htokens, hlines⟩ := parseLines_withLineEnds {} .crlf hreturn
  rw [hspelled] at htokens hlines
  refine ⟨hreturn, hspelled, hparse, htokens, ?_⟩
  rw [hlines (by decide), hparse]
  rfl

end UnitCalc
