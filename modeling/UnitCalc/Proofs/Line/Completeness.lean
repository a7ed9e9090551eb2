import UnitCalc.Proofs.Line.Words

namespace UnitCalc

open Grammar

theorem first_eq_of_cons_eq {t u : Token} {ts us : List Token} {vs ws : List Word}
    (h : (t :: ts) :: vs = (u :: us) :: ws) : t = u :=
  (List.cons.inj (List.cons.inj h).1).1

-- Whether some words are the first of an atom.
def StartsAtom (ws : List Word) : Prop :=
  ∃ t ts vs, ws = (t :: ts) :: vs ∧ t.startsAtom = true

theorem StartsAtom.append {ws : List Word} (h : StartsAtom ws) (vs : List Word) :
    StartsAtom (ws ++ vs) := by
  obtain ⟨t, ts, us, rfl, ht⟩ := h
  exact ⟨t, ts, us ++ vs, rfl, ht⟩

theorem Grammar.Phrase.startsAtom {k : Category} {ws : List Word} {e : UnitExpr}
    (h : Phrase k ws e) : StartsAtom ws := by
  induction h with
  | @name w hw =>
      obtain ⟨t, ts, rfl⟩ := List.exists_cons_of_ne_nil hw.1
      have ht : t.isNamePiece = true := hw.2 t List.mem_cons_self
      exact ⟨t, ts, [], rfl, by simp [Token.startsAtom, ht]⟩
  | @group opening closing ws e hopening _ _ _ =>
      exact ⟨opening, [], _, rfl, by simp [Token.startsAtom, hopening]⟩
  | atom _ ih | term _ ih => exact ih
  | power _ _ _ ih => exact ih.append _
  | times _ _ _ ih | divide _ _ _ ih | beside _ _ ih => exact ih.append _

-- Where a term cannot be raised to a power.
def NoCaret (ws : List Word) : Prop :=
  ∀ t ts vs, ws = (t :: ts) :: vs → t.kind ≠ .operator .power

theorem Token.kind_of_startsAtom {t : Token} (h : t.startsAtom = true) :
    t.kind = .opening .round ∨ t.kind = .identifier ∨ t.kind = .undefined := by
  simp only [startsAtom, Bool.or_eq_true, beq_iff_eq] at h
  exact h.imp_right kind_of_isNamePiece

-- A unit ends before `as` and at the end of a line.
def Token.EndsUnit (t : Token) : Prop :=
  t.kind = .keyword .asWord ∨ t.endsLine = true

theorem Token.EndsUnit.kind {t : Token} (h : t.EndsUnit) :
    t.kind = .keyword .asWord ∨ t.kind = .lineBreak ∨ t.kind = .endOfFile :=
  h.imp_right kind_of_endsLine

theorem noCaret_of_startsAtom {ws : List Word} (h : StartsAtom ws) : NoCaret ws := by
  obtain ⟨t, ts, vs, rfl, ht⟩ := h
  intro t' ts' vs' heq hcaret
  obtain rfl := first_eq_of_cons_eq heq
  simp [Token.startsAtom, Token.isNamePiece, hcaret] at ht

theorem noCaret_of_kind {t : Token} (ts : List Token) (vs : List Word)
    (h : t.kind ≠ .operator .power) : NoCaret ((t :: ts) :: vs) := by
  intro t' ts' vs' heq
  obtain rfl := first_eq_of_cons_eq heq
  exact h

namespace Stage

section

variable {s s' : Stage} {t : Token} {ws : List Word}

theorem accept_of_step {line : Option Quantity} (hfault : LexError.ofToken? t = none)
    (h : s.step t = .ok (s', line)) : s.accept t = .ok (s', line) := by
  rw [accept, hfault, h]

-- A step over a token that is no name piece takes its word.
theorem runWith_takeWord_of_step (hfault : LexError.ofToken? t = none)
    (h : s.step t = .ok (s', none)) (hnaming : ¬ s'.IsNaming) :
    runWith takeWord s ([t] :: ws) = runWith takeWord s' ws := by
  have hword := takeWord_of_ok [] (accept_of_step hfault h)
  rw [named_of_not_isNaming hnaming] at hword
  exact runWith_of_none hword

-- What follows depends on the first token of the next word alone.
theorem runWith_takeWord_congr (h : ∀ t ts vs, ws = (t :: ts) :: vs → s.step t = s'.step t) :
    runWith takeWord s ws = runWith takeWord s' ws := by
  cases ws with
  | nil => rfl
  | cons w vs =>
      cases w with
      | nil => rfl
      | cons t ts => simp only [runWith, takeWord, accept, h t ts vs rfl]

end

section

variable {c : Context} {e : UnitExpr} {t : Token} {ws vs : List Word} {v : Float}

theorem number_eq_ok (negative : Bool) (hkind : t.kind = .number)
    (hvalue : Number.read? t.text = some v) :
    number t negative = .ok (if negative then -v else v) := by
  simp [number, hkind, hvalue]

theorem exponent?_eq {n : Int} (h : Number.toInt? v = some n) (hle : n.natAbs ≤ 2 ^ 31 - 1) :
    exponent? v = some n := by
  have hmax : n.natAbs ≤ maxExponent := hle
  simp [exponent?, h, hmax]

theorem runWith_numeral (h : Numeral ws v) :
    runWith takeWord blank (ws ++ vs) = runWith takeWord (value v) vs := by
  cases h with
  | @positive t v hkind hvalue =>
      apply runWith_takeWord_of_step _ _ id
      · simp [LexError.ofToken?, hkind, TokenKind.fault?]
      · simp [step, Token.endsLine, Token.isEnd, Token.isOperator, hkind,
          number_eq_ok false hkind hvalue, bind, Except.bind, pure, Except.pure]
  | @negative sign t v hsign hkind hvalue =>
      have hminus : runWith takeWord blank ([sign] :: [t] :: vs) =
          runWith takeWord .sign ([t] :: vs) := by
        apply runWith_takeWord_of_step _ _ id
        · simp [LexError.ofToken?, hsign, TokenKind.fault?]
        · simp [step, Token.endsLine, Token.isEnd, Token.isOperator, hsign]
      refine hminus.trans ?_
      apply runWith_takeWord_of_step _ _ id
      · simp [LexError.ofToken?, hkind, TokenKind.fault?]
      · simp [step, number_eq_ok true hkind hvalue, bind, Except.bind, pure, Except.pure]

theorem runWith_exponent {n : Int} (h : Exponent ws n) :
    runWith takeWord (exponent c e false) (ws ++ vs) =
      runWith takeWord (term c (.pow e n)) vs := by
  obtain ⟨v, hv, htoInt, hle⟩ := h
  have hn := exponent?_eq htoInt hle
  cases hv with
  | @positive t v hkind hvalue =>
      apply runWith_takeWord_of_step _ _ id
      · simp [LexError.ofToken?, hkind, TokenKind.fault?]
      · simp [step, Token.isOperator, hkind, number_eq_ok false hkind hvalue, hn, bind,
          Except.bind, pure, Except.pure]
  | @negative sign t v hsign hkind hvalue =>
      have hminus : runWith takeWord (exponent c e false) ([sign] :: [t] :: vs) =
          runWith takeWord (exponent c e true) ([t] :: vs) := by
        apply runWith_takeWord_of_step _ _ id
        · simp [LexError.ofToken?, hsign, TokenKind.fault?]
        · simp [step, Token.isOperator, hsign]
      refine hminus.trans ?_
      apply runWith_takeWord_of_step _ _ id
      · simp [LexError.ofToken?, hkind, TokenKind.fault?]
      · simp [step, number_eq_ok true hkind hvalue, hn, bind, Except.bind, pure, Except.pure]

-- An atom with no exponent is a term.
theorem runWith_atom_eq_term (h : NoCaret ws) :
    runWith takeWord (atom c e) ws = runWith takeWord (term c e) ws := by
  apply runWith_takeWord_congr
  intro t ts vs heq
  have hcaret := h t ts vs heq
  simp [step, afterAtom, Token.isOperator, hcaret]

-- A term has been joined with what is to the left of it.
theorem runWith_term_eq_join (ws : List Word) :
    runWith takeWord (term c e) ws =
      runWith takeWord (term { c with left := none } (c.left.join e)) ws := by
  apply runWith_takeWord_congr
  intro t ts vs heq
  rfl

-- A term can stand right beside another.
theorem runWith_term_eq_operand (h : StartsAtom ws) :
    runWith takeWord (term c e) ws =
      runWith takeWord (operand (c.joined (c.left.join e) .mul)) ws := by
  obtain ⟨u, us, vs, rfl, hu⟩ := h
  apply runWith_takeWord_congr
  intro t ts vs' heq
  obtain rfl := first_eq_of_cons_eq heq
  have hkind := Token.kind_of_startsAtom hu
  have htimes : u.kind ≠ .operator .times := by
    rcases hkind with hk | hk | hk <;> simp [hk]
  have hdivide : u.kind ≠ .operator .divide := by
    rcases hkind with hk | hk | hk <;> simp [hk]
  simp [step, afterTerm, Token.isOperator, htimes, hdivide, hu]

theorem runWith_value_eq_operand (h : StartsAtom ws) :
    runWith takeWord (value v) ws = runWith takeWord (operand (.ofUnit v)) ws := by
  obtain ⟨u, us, vs, rfl, hu⟩ := h
  apply runWith_takeWord_congr
  intro t ts vs' heq
  obtain rfl := first_eq_of_cons_eq heq
  simp [step, hu]

-- How the parser goes over a phrase, up to the words after it.
def GoesOver : Category → List Word → UnitExpr → Prop
  | .atom, ws, e => ∀ (c : Context) (vs : List Word),
      runWith takeWord (operand c) (ws ++ vs) = runWith takeWord (atom c e) vs
  | .term, ws, e => ∀ (c : Context) (vs : List Word), NoCaret vs →
      runWith takeWord (operand c) (ws ++ vs) = runWith takeWord (term c e) vs
  | .unit, ws, e => ∀ (c : Context) (vs : List Word), c.left = none → NoCaret vs →
      runWith takeWord (operand c) (ws ++ vs) = runWith takeWord (term c e) vs

theorem goesOver_name {w : Word} (hw : w.IsName) : GoesOver .atom [w] w.leaf := by
  intro c vs
  obtain ⟨t, ts, rfl⟩ := List.exists_cons_of_ne_nil hw.1
  have hpiece : t.isNamePiece = true := hw.2 t List.mem_cons_self
  have hopening : t.kind ≠ .opening .round := by
    rcases Token.kind_of_isNamePiece hpiece with hk | hk <;> simp [hk]
  have hstep : step (operand c) t = .ok (name c t.text t.span, none) := by
    simp [step, startAtom, hopening, hpiece]
  have hword := takeWord_of_ok ts (accept_of_step (ofToken?_of_isNamePiece hpiece) hstep)
  exact runWith_of_none hword

theorem goesOver_group {opening closing : Token} (hopening : opening.kind = .opening .round)
    (h : GoesOver .unit ws e) (hclosing : closing.kind = .closing .round) :
    GoesOver .atom ([opening] :: (ws ++ [[closing]])) (.group e) := by
  intro c vs
  have hopen : runWith takeWord (operand c) ([opening] :: (ws ++ [closing] :: vs)) =
      runWith takeWord (operand c.opened) (ws ++ [closing] :: vs) := by
    apply runWith_takeWord_of_step _ _ id
    · simp [LexError.ofToken?, hopening, TokenKind.fault?]
    · simp [step, startAtom, hopening]
  have hinner := h c.opened ([closing] :: vs) rfl (noCaret_of_kind _ _ (by simp [hclosing]))
  have hclose : runWith takeWord (term c.opened e) ([closing] :: vs) =
      runWith takeWord (atom c (.group e)) vs := by
    apply runWith_takeWord_of_step _ _ id
    · simp [LexError.ofToken?, hclosing, TokenKind.fault?]
    · simp [step, afterTerm, Token.isOperator, Token.startsAtom, Token.isNamePiece, hclosing,
        Context.opened, LeftSide.join]
  calc runWith takeWord (operand c) ([opening] :: (ws ++ [[closing]]) ++ vs)
      = runWith takeWord (operand c) ([opening] :: (ws ++ [closing] :: vs)) := by simp
    _ = runWith takeWord (atom c (.group e)) vs := hopen.trans (hinner.trans hclose)

theorem goesOver_power {ns : List Word} {caret : Token} {n : Int} (h : GoesOver .atom ws e)
    (hcaret : caret.kind = .operator .power) (hn : Exponent ns n) :
    GoesOver .term (ws ++ [caret] :: ns) (.pow e n) := by
  intro c vs _
  have hpower : runWith takeWord (atom c e) ([caret] :: (ns ++ vs)) =
      runWith takeWord (exponent c e false) (ns ++ vs) := by
    apply runWith_takeWord_of_step _ _ id
    · simp [LexError.ofToken?, hcaret, TokenKind.fault?]
    · simp [step, afterAtom, Token.isOperator, hcaret]
  calc runWith takeWord (operand c) (ws ++ [caret] :: ns ++ vs)
      = runWith takeWord (operand c) (ws ++ [caret] :: (ns ++ vs)) := by simp
    _ = runWith takeWord (atom c e) ([caret] :: (ns ++ vs)) := h c _
    _ = runWith takeWord (term c (.pow e n)) vs := hpower.trans (runWith_exponent hn)

-- A term to the right of a unit goes into one unit with it.
theorem runWith_joined {f : UnitExpr} {j : Joint} (h : GoesOver .term ws f) (c : Context)
    (hleft : c.left = none) (hvs : NoCaret vs) :
    runWith takeWord (operand (c.joined e j)) (ws ++ vs) =
      runWith takeWord (term c (LeftSide.join (some (e, j)) f)) vs := by
  have hc : ({ c.joined e j with left := none } : Context) = c := by
    obtain ⟨value, unit, isTarget, left, outer⟩ := c
    obtain rfl : left = none := hleft
    rfl
  calc runWith takeWord (operand (c.joined e j)) (ws ++ vs)
      = runWith takeWord (term (c.joined e j) f) vs := h _ vs hvs
    _ = runWith takeWord (term c (LeftSide.join (some (e, j)) f)) vs := by
        rw [runWith_term_eq_join, hc]
        rfl

theorem runWith_times (hkind : t.kind = .operator .times) :
    runWith takeWord (term c e) ([t] :: vs) =
      runWith takeWord (operand (c.joined (c.left.join e) .mul)) vs := by
  apply runWith_takeWord_of_step _ _ id
  · simp [LexError.ofToken?, hkind, TokenKind.fault?]
  · simp [step, afterTerm, Token.isOperator, hkind]

theorem runWith_divide (hkind : t.kind = .operator .divide) :
    runWith takeWord (term c e) ([t] :: vs) =
      runWith takeWord (operand (c.joined (c.left.join e) .div)) vs := by
  apply runWith_takeWord_of_step _ _ id
  · simp [LexError.ofToken?, hkind, TokenKind.fault?]
  · simp [step, afterTerm, Token.isOperator, hkind]

theorem goesOver_sign {us : List Word} {f : UnitExpr} {j : Joint} (he : GoesOver .unit ws e)
    (ht : t.kind ≠ .operator .power)
    (hsign : ∀ c vs, runWith takeWord (term c e) ([t] :: vs) =
      runWith takeWord (operand (c.joined (c.left.join e) j)) vs)
    (hf : GoesOver .term us f) :
    GoesOver .unit (ws ++ [t] :: us) (LeftSide.join (some (e, j)) f) := by
  intro c vs hleft hvs
  calc runWith takeWord (operand c) (ws ++ [t] :: us ++ vs)
      = runWith takeWord (operand c) (ws ++ [t] :: (us ++ vs)) := by simp
    _ = runWith takeWord (term c e) ([t] :: (us ++ vs)) := he c _ hleft (noCaret_of_kind _ _ ht)
    _ = runWith takeWord (operand (c.joined e j)) (us ++ vs) := by
        rw [hsign, hleft]
        rfl
    _ = runWith takeWord (term c (LeftSide.join (some (e, j)) f)) vs :=
        runWith_joined hf c hleft hvs

theorem goesOver_beside {us : List Word} {f : UnitExpr} (he : GoesOver .unit ws e)
    (hus : ∀ vs, StartsAtom (us ++ vs)) (hf : GoesOver .term us f) :
    GoesOver .unit (ws ++ us) (.mul e f) := by
  intro c vs hleft hvs
  calc runWith takeWord (operand c) (ws ++ us ++ vs)
      = runWith takeWord (operand c) (ws ++ (us ++ vs)) := by simp
    _ = runWith takeWord (term c e) (us ++ vs) := he c _ hleft (noCaret_of_startsAtom (hus vs))
    _ = runWith takeWord (operand (c.joined e .mul)) (us ++ vs) := by
        rw [runWith_term_eq_operand (hus vs), hleft]
        rfl
    _ = runWith takeWord (term c (.mul e f)) vs := runWith_joined hf c hleft hvs

theorem goesOver_phrase {k : Category} (h : Phrase k ws e) : GoesOver k ws e := by
  induction h with
  | name hw => exact goesOver_name hw
  | group hopening _ hclosing ih => exact goesOver_group hopening ih hclosing
  | atom _ ih =>
      intro c vs hvs
      rw [ih c vs, runWith_atom_eq_term hvs]
  | power _ hcaret hn ih => exact goesOver_power ih hcaret hn
  | term _ ih =>
      intro c vs _ hvs
      exact ih c vs hvs
  | times _ ht _ he hf =>
      exact goesOver_sign he (by simp [ht]) (fun _ _ => runWith_times ht) hf
  | divide _ ht _ he hf =>
      exact goesOver_sign he (by simp [ht]) (fun _ _ => runWith_divide ht) hf
  | beside _ hphrase he hf => exact goesOver_beside he (fun vs => hphrase.startsAtom.append vs) hf

-- A token that ends a unit does so with no parentheses open.
theorem afterTerm_of_endsUnit (ht : t.EndsUnit) (houter : c.outer = []) :
    afterTerm c e t =
      if c.isTarget then endLine ⟨c.value, c.unit, some e⟩ t else afterUnit c.value (some e) t := by
  rcases ht.kind with hk | hk | hk <;>
    simp [afterTerm, Token.isOperator, Token.startsAtom, Token.isNamePiece, hk, houter]

theorem exists_runWith_optionalUnit {unit : Option UnitExpr} (h : OptionalUnit ws unit)
    (v : Float) :
    ∃ s, (∀ vs, NoCaret vs → runWith takeWord (value v) (ws ++ vs) = runWith takeWord s vs) ∧
      ∀ t, t.EndsUnit → s.step t = afterUnit v unit t := by
  cases h with
  | absent =>
      refine ⟨value v, fun _ _ => rfl, fun t ht => ?_⟩
      rcases ht.kind with hk | hk | hk <;>
        simp [step, Token.startsAtom, Token.isNamePiece, hk]
  | @present _ e h =>
      refine ⟨term (.ofUnit v) e, fun vs hvs => ?_, fun t ht => ?_⟩
      · rw [runWith_value_eq_operand (h.startsAtom.append vs)]
        exact goesOver_phrase h _ vs rfl hvs
      · exact afterTerm_of_endsUnit ht rfl

theorem exists_runWith_optionalTarget {s : Stage} {unit target : Option UnitExpr}
    (h : OptionalTarget ws target) (hs : ∀ t, t.EndsUnit → s.step t = afterUnit v unit t) :
    ∃ s', (∀ vs, NoCaret vs → runWith takeWord s (ws ++ vs) = runWith takeWord s' vs) ∧
      ∀ t, t.endsLine = true → s'.step t = .ok (blank, some ⟨v, unit, target⟩) := by
  cases h with
  | absent =>
      refine ⟨s, fun _ _ => rfl, fun t ht => ?_⟩
      have has : t.kind ≠ .keyword .asWord := by
        rcases Token.kind_of_endsLine ht with hk | hk <;> simp [hk]
      simp [hs t (.inr ht), afterUnit, has, endLine, ht]
  | @present as us e has h =>
      refine ⟨term (.ofTarget v unit) e, fun vs hvs => ?_, fun t ht => ?_⟩
      · have hword : runWith takeWord s ([as] :: (us ++ vs)) =
            runWith takeWord (operand (.ofTarget v unit)) (us ++ vs) := by
          apply runWith_takeWord_of_step _ _ id
          · simp [LexError.ofToken?, has, TokenKind.fault?]
          · simp [hs as (.inl has), afterUnit, has]
        exact hword.trans (goesOver_phrase h _ vs rfl hvs)
      · have hterm := afterTerm_of_endsUnit (c := .ofTarget v unit) (e := e) (.inr ht) rfl
        refine hterm.trans ?_
        simp [Context.ofTarget, endLine, ht]

-- A line ends in the quantity that the grammar reads in it.
theorem runWith_line {q : Quantity} (h : Line ws q) (hend : t.endsLine = true) :
    runWith takeWord blank (ws ++ [t] :: vs) =
      (runWith takeWord blank vs).map ([q] ++ ·) := by
  cases h with
  | @intro ns us ts v unit target hv hunit htarget =>
      have hkind := Token.kind_of_endsLine hend
      have hcaret : NoCaret ([t] :: vs) :=
        noCaret_of_kind _ _ (by rcases hkind with hk | hk <;> simp [hk])
      have htarget' : NoCaret (ts ++ [t] :: vs) := by
        cases htarget with
        | absent => exact hcaret
        | present has _ => exact noCaret_of_kind _ _ (by simp [has])
      obtain ⟨s, hrun, hs⟩ := exists_runWith_optionalUnit hunit v
      obtain ⟨s', hrun', hs'⟩ := exists_runWith_optionalTarget htarget hs
      have hfault : LexError.ofToken? t = none := by
        rcases hkind with hk | hk <;> simp [LexError.ofToken?, hk, TokenKind.fault?]
      have hword := takeWord_of_ok [] (accept_of_step hfault (hs' t hend))
      calc runWith takeWord blank (ns ++ us ++ ts ++ [t] :: vs)
          = runWith takeWord blank (ns ++ (us ++ (ts ++ [t] :: vs))) := by simp
        _ = runWith takeWord (value v) (us ++ (ts ++ [t] :: vs)) := runWith_numeral hv
        _ = runWith takeWord s (ts ++ [t] :: vs) := hrun _ htarget'
        _ = runWith takeWord s' ([t] :: vs) := hrun' _ hcaret
        _ = (runWith takeWord blank vs).map ([_] ++ ·) := runWith_of_ok hword

-- The parser makes of the words of some lines what the grammar makes of them.
theorem runWith_script {qs : List Quantity} (h : Script ws qs) {e : Token}
    (he : e.kind = .endOfFile) : runWith takeWord blank (ws ++ [[e]]) = .ok qs := by
  have hend : e.endsLine = true := by simp [Token.endsLine, Token.isEnd, he]
  have hblank : ∀ {t : Token} {vs : List Word}, t.endsLine = true →
      runWith takeWord blank ([t] :: vs) = runWith takeWord blank vs := by
    intro t vs ht
    apply runWith_takeWord_of_step _ _ id
    · rcases Token.kind_of_endsLine ht with hk | hk <;>
        simp [LexError.ofToken?, hk, TokenKind.fault?]
    · simp [step, ht]
  induction h with
  | nil => exact hblank hend
  | blank hbreak _ ih =>
      exact (hblank (by simp [Token.endsLine, hbreak])).trans ih
  | last hq => exact runWith_line hq hend
  | @cons ws vs lineEnd q qs hq hbreak _ ih =>
      have hend : lineEnd.endsLine = true := by simp [Token.endsLine, hbreak]
      rw [List.append_assoc, List.cons_append, runWith_line hq hend, ih]
      rfl

end

end Stage

end UnitCalc
