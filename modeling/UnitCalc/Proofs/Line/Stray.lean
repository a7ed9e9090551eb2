import UnitCalc.Proofs.Line.Independence
import UnitCalc.Proofs.Line.Refusals

namespace UnitCalc

namespace Token

-- Whether a number must come after a token.
def leadsNumber (t : Token) : Bool :=
  t.endsLine || t.isOperator .minus || t.isOperator .power

-- Whether a token is a character that is in no class and in no name.
def isStray (t : Token) : Bool :=
  t.kind == .undefined && isAscii t.text

end Token

namespace Stage

section

variable {s s' : Stage} {t : Token} {ts : List Token} {line : Option Quantity}

theorem Leads.staysInLine (h : Leads s ts s') :
    ∀ u ∈ ts, u.kind.StaysInLine ∧ u.isBackslash = false := by
  induction h with
  | nil => exact List.forall_mem_nil _
  | cons hnext _ ih => exact List.forall_mem_cons.mpr ⟨staysInLine_of_next hnext, ih⟩

theorem Moves.needsNumber_eq (h : Moves s t s' line) : s'.needsNumber = t.leadsNumber := by
  have hpiece (h : t.isNamePiece = true) : t.leadsNumber = false := by
    rcases Token.kind_of_isNamePiece h with hk | hk <;>
      simp [Token.leadsNumber, Token.endsLine, Token.isEnd, Token.isOperator, hk]
  have hnumber (h : t.kind = .number) : t.leadsNumber = false := by
    simp [Token.leadsNumber, Token.endsLine, Token.isEnd, Token.isOperator, h]
  cases h with
  | blank h | endOfValue h | endOfUnit _ _ _ h | endOfTarget _ _ _ h =>
      simp [needsNumber, Token.leadsNumber, h]
  | piece _ h | glue h _ => exact (hpiece h).symm
  | positive h | negative h | exponent h _ => exact (hnumber (kind_of_number h)).symm
  | sign h | opening _ h | caret _ h | exponentSign h | times _ h | divide _ h
  | closing _ _ h | targetOfValue h | targetOfUnit _ _ _ h =>
      simp [needsNumber, Token.leadsNumber, Token.endsLine, Token.isEnd, Token.isOperator, h]

theorem Walks.needsNumber_eq (h : Walks s ts s') :
    s'.needsNumber = ts.getLast?.elim s.needsNumber Token.leadsNumber := by
  induction h with
  | nil => rfl
  | @cons s s' s'' t ts line hmoves _ ih =>
      rw [ih, hmoves.needsNumber_eq, List.getLast?_cons]
      cases ts.getLast? <;> rfl

-- The last token that counts says whether a number must come next.
theorem Leads.needsNumber_eq (h : Leads s ts s') :
    s'.needsNumber = ((dropInnerBreaks s.depth ts).filter fun t => t.kind ≠ .tab).getLast?.elim
      s.needsNumber Token.leadsNumber :=
  h.walks.needsNumber_eq

end

section

variable {s s' : Stage} {t : Token} {line : Option Quantity} (h : t.isStray = true)

include h

theorem kind_of_isStray : t.kind = .undefined := by
  simp only [Token.isStray, Bool.and_eq_true, beq_iff_eq] at h
  exact h.1

theorem isNamePiece_of_isStray : t.isNamePiece = false := by
  simp only [Token.isStray, Bool.and_eq_true, beq_iff_eq] at h
  simp [Token.isNamePiece, h]

theorem not_moves_of_isStray : ¬ Moves s t s' line := by
  have hkind := kind_of_isStray h
  have hpiece := isNamePiece_of_isStray h
  intro hmoves
  cases hmoves with
  | blank hend | endOfValue hend | endOfUnit _ _ _ hend | endOfTarget _ _ _ hend =>
      rcases Token.kind_of_endsLine hend with hk | hk <;> simp [hk] at hkind
  | piece _ hp | glue hp _ =>
      rw [hp] at hpiece
      cases hpiece
  | positive hv | negative hv | exponent hv _ => simp [kind_of_number hv] at hkind
  | sign hk | opening _ hk | caret _ hk | exponentSign hk | times _ hk | divide _ hk
  | closing _ _ hk | targetOfValue hk | targetOfUnit _ _ _ hk => simp [hk] at hkind

-- No stage takes up a stray character.
theorem next_of_isStray (s : Stage) :
    s.next t = .error (if s.needsNumber then .expectedNumber t.text t.span
      else .lexical ⟨.unknownCharacter, t.pos, t.span⟩) := by
  have hkind := kind_of_isStray h
  cases hnext : s.next t with
  | ok r =>
      rcases next_cases hnext with ⟨hskips, -, -⟩ | ⟨-, -, hstep⟩
      · rcases kind_of_skips hskips with hk | ⟨hk, -⟩ <;> simp [hk] at hkind
      · exact absurd (moves_of_step hstep) (not_moves_of_isStray h)
  | error e =>
      cases refuses_of_next hnext with
      | fault hfault => simp [LexError.ofToken?, TokenKind.fault?, hkind] at hfault
      | notNumber hs => simp [hs, Token.found, Token.isEnd, hkind]
      | unreadable _ hnumber => simp [hnumber] at hkind
      | exponent hx => simp [kind_of_number hx] at hkind
      | unknown hs => simp [hs]
      | noUnit hno | unexpected _ hno => exact absurd hkind hno

end

end Stage

-- Where the tokens before a stray character are taken up, it is the error of the text. Where the
-- last of them that counts is a sign or a caret or ends a line, and where there is none, a number
-- is missing; everywhere else the character is unknown.
theorem parseLines_of_isStray {o : LexOptions} {source : String} {before after : List Token}
    {t : Token} {s : Stage} (hsplit : joinLines (lex o source) = before ++ t :: after)
    (hbefore : Stage.blank.Leads before s) (hstray : t.isStray = true) :
    parseLines o source = .error
      (if ((dropInnerBreaks 0 before).filter fun t => t.kind ≠ .tab).getLast?.elim true
          Token.leadsNumber
        then .expectedNumber t.text t.span
        else .lexical ⟨.unknownCharacter, t.pos, t.span⟩) := by
  have herror := hbefore.run_append_of_error (Stage.next_of_isStray hstray s) after
  rw [hbefore.needsNumber_eq, ← hsplit] at herror
  exact herror

theorem parseLines_of_isStray_question :
    Stage.blank.Leads [⟨.number, ⟨0, 0⟩, 0, "1"⟩] (.value 1) ∧
      parseLines {} "1 ?" = .error (.lexical ⟨.unknownCharacter, ⟨0, 2⟩, ⟨2, 1⟩⟩) := by
  have hnext : Stage.blank.next ⟨.number, ⟨0, 0⟩, 0, "1"⟩ = .ok (.value 1, none) := by
    decide +kernel
  have hbefore : Stage.blank.Leads [⟨.number, ⟨0, 0⟩, 0, "1"⟩] (.value 1) := .cons hnext .nil
  have hsplit : joinLines (lex {} "1 ?") = [⟨.number, ⟨0, 0⟩, 0, "1"⟩] ++
      ⟨.undefined, ⟨0, 2⟩, 2, "?"⟩ :: [⟨.endOfFile, ⟨0, 3⟩, 3, ""⟩] := by
    decide +kernel
  exact ⟨hbefore, parseLines_of_isStray hsplit hbefore (by decide)⟩

-- At the start of a line a stray character is reported as a missing number.
theorem not_forall_unknownCharacter :
    ¬ ∀ (o : LexOptions) (source : String) (before after : List Token) (t : Token) (s : Stage),
      joinLines (lex o source) = before ++ t :: after → Stage.blank.Leads before s →
      t.isStray = true →
      parseLines o source = .error (.lexical ⟨.unknownCharacter, t.pos, t.span⟩) := by
  intro h
  have hsplit : joinLines (lex {} "?") = [] ++
      ⟨.undefined, ⟨0, 0⟩, 0, "?"⟩ :: [⟨.endOfFile, ⟨0, 1⟩, 1, ""⟩] := by
    decide +kernel
  have hunknown := h {} "?" _ _ _ _ hsplit .nil (by decide)
  have hnumber : parseLines {} "?" = .error (.expectedNumber "?" ⟨0, 1⟩) := by
    decide +kernel
  rw [hnumber] at hunknown
  cases hunknown

end UnitCalc
