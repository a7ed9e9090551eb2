import UnitCalc.Proofs.Line.Words

namespace UnitCalc

namespace Stage

-- Whether a number must come next.
def needsNumber : Stage → Bool
  | blank | sign | exponent _ _ _ => true
  | _ => false

-- Whether some tokens take one stage to another.
inductive Leads : Stage → List Token → Stage → Prop where
  | nil {s : Stage} : Leads s [] s
  | cons {s s' s'' : Stage} {t : Token} {ts : List Token} {line : Option Quantity}
      (h : s.next t = .ok (s', line)) (hts : Leads s' ts s'') : Leads s (t :: ts) s''

-- Whether some tokens that count take one stage to another.
inductive Walks : Stage → List Token → Stage → Prop where
  | nil {s : Stage} : Walks s [] s
  | cons {s s' s'' : Stage} {t : Token} {ts : List Token} {line : Option Quantity}
      (h : Moves s t s' line) (hts : Walks s' ts s'') : Walks s (t :: ts) s''

-- What a stage can refuse a token for, with the error.
inductive Refuses : Stage → Token → ParseError → Prop where
  | fault {s : Stage} {t : Token} {e : LexError} (h : LexError.ofToken? t = some e) :
      Refuses s t (.lexical e)
  | notNumber {s : Stage} {t : Token} (hs : s.needsNumber = true) (h : t.kind ≠ .number) :
      Refuses s t (.expectedNumber t.found t.span)
  | unreadable {s : Stage} {t : Token} (hs : s.needsNumber = true) (hkind : t.kind = .number)
      (h : Number.read? t.text = none) : Refuses s t (.invalidNumber t.text t.span)
  | exponent {c : Context} {base : UnitExpr} {negative : Bool} {t : Token} {x : Float}
      (hx : number t negative = .ok x) (h : exponent? x = none) :
      Refuses (exponent c base negative) t (.invalidNumber (Number.display x) t.span)
  | unknown {s : Stage} {t : Token} (hs : s.needsNumber = false) (h : t.kind = .undefined) :
      Refuses s t (.lexical ⟨.unknownCharacter, t.pos, t.span⟩)
  | noUnit {c : Context} {t : Token} (h : t.kind ≠ .undefined) :
      Refuses (operand c) t (.expectedUnit t.found t.span)
  | unexpected {s : Stage} {t : Token} (hs : s.needsNumber = false) (h : t.kind ≠ .undefined) :
      Refuses s t (.unexpected t.found t.span)

section

variable {s s' : Stage} {t : Token} {ts : List Token} {line : Option Quantity} {e : ParseError}

theorem Leads.run_append_of_error (h : Leads s ts s') (herror : s'.next t = .error e)
    (after : List Token) : s.run (ts ++ t :: after) = .error e := by
  induction h with
  | nil => simp [run, herror, bind, Except.bind]
  | cons hnext _ ih => simp [run, hnext, ih herror, bind, Except.bind]

-- The tokens that count are those that the stages on the way do not skip.
theorem Leads.walks (h : Leads s ts s') :
    Walks s ((dropInnerBreaks s.depth ts).filter fun t => t.kind ≠ .tab) s' := by
  induction h with
  | nil => exact .nil
  | @cons s s' s'' t ts line hnext _ ih =>
      rw [dropInnerBreaks]
      rcases next_cases hnext with ⟨hskips, rfl, -⟩ | ⟨hskips, -, hstep⟩
      · split
        · exact ih
        · rename_i hbreak
          have htab : t.kind = .tab := (kind_of_skips hskips).resolve_right hbreak
          rw [Token.depthAfter_eq_self (by simp [htab]) (by simp [htab]),
            List.filter_cons_of_neg (by simp [htab])]
          exact ih
      · have hmoves := moves_of_step hstep
        simp only [skips, Bool.or_eq_false_iff, Bool.and_eq_false_iff, beq_eq_false_iff_ne,
          bne_eq_false_iff_eq] at hskips
        have hbreak : ¬ (t.kind = .lineBreak ∧ s.depth ≠ 0) := by tauto
        rw [if_neg hbreak, List.filter_cons_of_pos (by simp [hskips.1]), ← hmoves.depth_eq]
        exact .cons hmoves ih

-- The stage and the token at which a run breaks off.
def stop? : Stage → List Token → Option (Stage × Token)
  | _, [] => none
  | s, t :: ts =>
      match s.next t with
      | .ok (s', _) => s'.stop? ts
      | .error _ => some (s, t)

theorem exists_stop?_of_run_eq_error (h : s.run ts = .error e) :
    ∃ s' t, s.stop? ts = some (s', t) ∧ s'.next t = .error e := by
  induction ts generalizing s with
  | nil => cases h
  | cons t ts ih =>
      rw [run] at h
      cases hnext : s.next t with
      | error e' =>
          rw [hnext] at h
          cases h
          exact ⟨s, t, by simp [stop?, hnext], hnext⟩
      | ok r =>
          obtain ⟨s', line⟩ := r
          rw [hnext] at h
          cases hrun : s'.run ts with
          | ok qs => simp [bind, Except.bind, hrun, pure, Except.pure] at h
          | error e' =>
              simp only [bind, Except.bind, hrun] at h
              cases h
              obtain ⟨s'', u, hstop, herror⟩ := ih hrun
              exact ⟨s'', u, by simpa [stop?, hnext] using hstop, herror⟩

theorem exists_leads_of_stop? (h : s.stop? ts = some (s', t)) :
    ∃ before after, ts = before ++ t :: after ∧ Leads s before s' := by
  induction ts generalizing s with
  | nil => cases h
  | cons u ts ih =>
      rw [stop?] at h
      split at h
      · rename_i s₁ line hnext
        obtain ⟨before, after, rfl, hleads⟩ := ih h
        exact ⟨u :: before, after, rfl, .cons hnext hleads⟩
      · cases h
        exact ⟨[], ts, rfl, .nil⟩

-- A run that fails does so at one token, which tokens that are taken up lead to.
theorem run_eq_error_iff :
    s.run ts = .error e ↔
      ∃ before t after s', ts = before ++ t :: after ∧ Leads s before s' ∧
        s'.next t = .error e := by
  constructor
  · intro h
    obtain ⟨s', t, hstop, herror⟩ := exists_stop?_of_run_eq_error h
    obtain ⟨before, after, rfl, hleads⟩ := exists_leads_of_stop? hstop
    exact ⟨before, t, after, s', rfl, hleads, herror⟩
  · rintro ⟨before, t, after, s', rfl, hleads, herror⟩
    exact hleads.run_append_of_error herror after

theorem refuses_of_number {negative : Bool} (hs : s.needsNumber = true)
    (h : number t negative = .error e) : s.Refuses t e := by
  unfold number at h
  split at h
  · rename_i hkind
    split at h
    · cases h
    · rename_i hread
      cases h
      exact .unreadable hs (by simpa using hkind) hread
  · rename_i hkind
    cases h
    exact .notNumber hs (by simpa using hkind)

theorem refuses_unexpected (hs : s.needsNumber = false) : s.Refuses t t.unexpected := by
  unfold Token.unexpected
  split
  · rename_i hkind
    exact .unknown hs (by simpa using hkind)
  · rename_i hkind
    exact .unexpected hs (by simpa using hkind)

theorem refuses_of_endLine {q : Quantity} (hs : s.needsNumber = false)
    (h : endLine q t = .error e) : s.Refuses t e := by
  unfold endLine at h
  split at h
  · cases h
  · cases h
    exact refuses_unexpected hs

theorem refuses_of_afterUnit {v : Float} {unit : Option UnitExpr} (hs : s.needsNumber = false)
    (h : afterUnit v unit t = .error e) : s.Refuses t e := by
  unfold afterUnit at h
  split at h
  · cases h
  · exact refuses_of_endLine hs h

-- An atom is started wherever one can be.
theorem startAtom_ne_error {c : Context} (ht : t.startsAtom = true) :
    startAtom c t ≠ .error e := by
  simp only [Token.startsAtom, Bool.or_eq_true] at ht
  unfold startAtom
  split
  · nofun
  · rename_i hopening
    rw [if_pos (ht.resolve_left hopening)]
    nofun

theorem refuses_of_afterTerm {c : Context} {f : UnitExpr} (hs : s.needsNumber = false)
    (h : afterTerm c f t = .error e) : s.Refuses t e := by
  unfold afterTerm at h
  split at h
  · cases h
  split at h
  · cases h
  split at h
  · rename_i hstarts
    exact absurd h (startAtom_ne_error hstarts)
  split at h
  · split at h
    · cases h
    · cases h
      exact refuses_unexpected hs
  · split at h
    · exact refuses_of_endLine hs h
    · exact refuses_of_afterUnit hs h

theorem refuses_of_afterAtom {c : Context} {f : UnitExpr} (hs : s.needsNumber = false)
    (h : afterAtom c f t = .error e) : s.Refuses t e := by
  unfold afterAtom at h
  split at h
  · cases h
  · exact refuses_of_afterTerm hs h

theorem refuses_of_step (h : s.step t = .error e) : s.Refuses t e := by
  cases s with
  | blank =>
      simp only [step] at h
      split at h
      · cases h
      split at h
      · cases h
      · cases hv : number t false with
        | error err =>
            rw [hv] at h
            cases h
            exact refuses_of_number rfl hv
        | ok v =>
            rw [hv] at h
            cases h
  | sign =>
      simp only [step] at h
      cases hv : number t true with
      | error err =>
          rw [hv] at h
          cases h
          exact refuses_of_number rfl hv
      | ok v =>
          rw [hv] at h
          cases h
  | value v =>
      simp only [step] at h
      split at h
      · rename_i hstarts
        exact absurd h (startAtom_ne_error hstarts)
      · exact refuses_of_afterUnit rfl h
  | operand c =>
      simp only [step, startAtom] at h
      split at h
      · cases h
      split at h
      · cases h
      split at h
      · cases h
        exact refuses_unexpected rfl
      · rename_i hkind
        cases h
        exact .noUnit (by simpa using hkind)
  | name c symbol span =>
      simp only [step] at h
      split at h
      · cases h
      · exact refuses_of_afterAtom rfl h
  | atom c f => exact refuses_of_afterAtom rfl h
  | exponent c base negative =>
      simp only [step] at h
      split at h
      · cases h
      · cases hx : number t negative with
        | error err =>
            rw [hx] at h
            cases h
            exact refuses_of_number rfl hx
        | ok x =>
            rw [hx] at h
            simp only [bind, Except.bind] at h
            split at h
            · cases h
            · rename_i hnone
              cases h
              exact .exponent hx hnone
  | term c f => exact refuses_of_afterTerm rfl h

-- A token that is not taken up is refused for one of the reasons there are.
theorem refuses_of_next (h : s.next t = .error e) : s.Refuses t e := by
  unfold next at h
  split at h
  · cases h
  split at h
  · rename_i hfault
    cases h
    exact .fault hfault
  · exact refuses_of_step h

end

end Stage

-- A text that cannot be parsed has a token that is refused.
theorem exists_refuses_of_parseLines {o : LexOptions} {source : String} {e : ParseError}
    (h : parseLines o source = .error e) :
    ∃ before t after s, joinLines (lex o source) = before ++ t :: after ∧ t ∈ lex o source ∧
      Stage.blank.Leads before s ∧ s.Refuses t e := by
  obtain ⟨before, t, after, s, hsplit, hleads, herror⟩ := Stage.run_eq_error_iff.mp h
  have hmem : t ∈ joinLines (lex o source) := by
    rw [hsplit]
    exact List.mem_append_right _ List.mem_cons_self
  exact ⟨before, t, after, s, hsplit, (joinLines_sublist _).subset hmem, hleads,
    Stage.refuses_of_next herror⟩

end UnitCalc
