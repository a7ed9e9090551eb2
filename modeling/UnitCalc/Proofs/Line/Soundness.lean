import UnitCalc.Proofs.Line.Words

namespace UnitCalc

open Grammar

-- The words that stand to the left of a term inside its parentheses.
inductive LeftSide.Reads : LeftSide → List Word → Prop where
  | start : Reads none []
  | times {ws : List Word} {e : UnitExpr} {t : Token} (he : Phrase .unit ws e)
      (ht : t.kind = .operator .times) : Reads (some (e, .mul)) (ws ++ [[t]])
  | divide {ws : List Word} {e : UnitExpr} {t : Token} (he : Phrase .unit ws e)
      (ht : t.kind = .operator .divide) : Reads (some (e, .div)) (ws ++ [[t]])
  | beside {ws : List Word} {e : UnitExpr} (he : Phrase .unit ws e) : Reads (some (e, .mul)) ws

-- With a term on its right, a left side makes up a unit.
theorem LeftSide.Reads.join {left : LeftSide} {ws vs : List Word} {f : UnitExpr}
    (h : left.Reads ws) (hf : Phrase .term vs f) : Phrase .unit (ws ++ vs) (left.join f) := by
  cases h with
  | start => exact .term hf
  | times he ht =>
      rw [List.append_assoc]
      exact .times he ht hf
  | divide he ht =>
      rw [List.append_assoc]
      exact .divide he ht hf
  | beside he => exact .beside he hf

-- The words up to the innermost open parenthesis, from the start of a unit on.
inductive Opens : List LeftSide → List Word → Prop where
  | nil : Opens [] []
  | cons {left : LeftSide} {outer : List LeftSide} {ws vs : List Word} {t : Token}
      (houter : Opens outer ws) (hleft : left.Reads vs) (ht : t.kind = .opening .round) :
      Opens (left :: outer) (ws ++ vs ++ [[t]])

-- The words before the unit or the target of a line.
inductive Heads : Float → Option UnitExpr → Bool → List Word → Prop where
  | unit {ns : List Word} {v : Float} (hv : Numeral ns v) : Heads v none false ns
  | target {ns us : List Word} {v : Float} {unit : Option UnitExpr} {t : Token}
      (hv : Numeral ns v) (hunit : OptionalUnit us unit) (ht : t.kind = .keyword .asWord) :
      Heads v unit true (ns ++ us ++ [[t]])

namespace Context

-- The words before what stands inside the innermost open parenthesis.
inductive Around (c : Context) : List Word → Prop where
  | intro {ws vs : List Word} (hhead : Heads c.value c.unit c.isTarget ws)
      (houter : Opens c.outer vs) : Around c (ws ++ vs)

-- The words before a term.
inductive Reads (c : Context) : List Word → Prop where
  | intro {ws vs : List Word} (haround : c.Around ws) (hleft : c.left.Reads vs) :
      Reads c (ws ++ vs)

variable {c : Context} {ws vs : List Word} {e : UnitExpr} {t : Token}

theorem Reads.ofUnit {v : Float} (hv : Numeral ws v) : (Context.ofUnit v).Reads ws := by
  have h : (Context.ofUnit v).Reads (ws ++ [] ++ []) := .intro (.intro (.unit hv) .nil) .start
  simpa using h

theorem Reads.ofTarget {v : Float} {unit : Option UnitExpr} {us : List Word} (hv : Numeral ws v)
    (hunit : OptionalUnit us unit) (ht : t.kind = .keyword .asWord) :
    (Context.ofTarget v unit).Reads (ws ++ us ++ [[t]]) := by
  have h : (Context.ofTarget v unit).Reads (ws ++ us ++ [[t]] ++ [] ++ []) :=
    .intro (.intro (.target hv hunit ht) .nil) .start
  simpa using h

theorem Reads.opened (h : c.Reads ws) (ht : t.kind = .opening .round) :
    c.opened.Reads (ws ++ [[t]]) := by
  obtain @⟨_, ls, @⟨hs, os, hhead, houter⟩, hleft⟩ := h
  have h : c.opened.Reads (hs ++ (os ++ ls ++ [[t]]) ++ []) :=
    .intro (.intro hhead (.cons houter hleft ht)) .start
  simpa using h

-- Closing a parenthesis goes back to what is around it.
theorem Around.closed {left : LeftSide} {outer : List LeftSide} (h : c.Around ws)
    (houter : c.outer = left :: outer) (he : Phrase .unit vs e) (ht : t.kind = .closing .round) :
    ∃ us ps, ws ++ vs ++ [[t]] = us ++ ps ∧ Phrase .atom ps (.group e) ∧
      ({ c with left := left, outer := outer } : Context).Reads us := by
  obtain @⟨hs, os, hhead, hopens⟩ := h
  rw [houter] at hopens
  cases hopens with
  | cons hopens hleft hopening =>
      rename_i os ls opening
      exact ⟨hs ++ os ++ ls, [opening] :: (vs ++ [[t]]), by simp, .group hopening he ht,
        .intro (.intro hhead hopens) hleft⟩

-- A context in which all parentheses are closed makes a line with its last unit.
theorem Around.line (h : c.Around ws) (houter : c.outer = []) (he : Phrase .unit vs e) :
    Line (ws ++ vs)
      (if c.isTarget then ⟨c.value, c.unit, some e⟩ else ⟨c.value, some e, none⟩) := by
  obtain ⟨hhead, hopens⟩ := h
  rw [houter] at hopens
  cases hopens
  rw [List.append_nil]
  generalize c.isTarget = isTarget, c.unit = unit at hhead
  cases hhead with
  | unit hv =>
      have h := Line.intro hv (.present he) .absent
      rwa [List.append_nil] at h
  | target hv hunit ht =>
      rw [List.append_assoc]
      exact .intro hv hunit (.present ht he)

theorem Around.numeral (h : c.Around ws) (houter : c.outer = []) (htarget : c.isTarget = false) :
    Numeral ws c.value := by
  obtain ⟨hhead, hopens⟩ := h
  rw [houter] at hopens
  cases hopens
  rw [List.append_nil]
  rw [htarget] at hhead
  generalize c.unit = unit at hhead
  cases hhead with
  | unit hv => exact hv

end Context

namespace Stage

-- The words of a line that bring the parser to a stage.
inductive Reads : Stage → List Word → Prop where
  | blank : Reads .blank []
  | sign {t : Token} (ht : t.kind = .operator .minus) : Reads sign [[t]]
  | value {ws : List Word} {v : Float} (hv : Numeral ws v) : Reads (value v) ws
  | operand {ws : List Word} {c : Context} (hc : c.Reads ws) : Reads (operand c) ws
  | atom {ws vs : List Word} {c : Context} {e : UnitExpr} (hc : c.Reads ws)
      (he : Phrase .atom vs e) : Reads (atom c e) (ws ++ vs)
  | exponent {ws vs : List Word} {c : Context} {e : UnitExpr} {t : Token} (hc : c.Reads ws)
      (he : Phrase .atom vs e) (ht : t.kind = .operator .power) :
      Reads (exponent c e false) (ws ++ (vs ++ [[t]]))
  | exponentSign {ws vs : List Word} {c : Context} {e : UnitExpr} {t u : Token} (hc : c.Reads ws)
      (he : Phrase .atom vs e) (ht : t.kind = .operator .power) (hu : u.kind = .operator .minus) :
      Reads (exponent c e true) (ws ++ (vs ++ [[t], [u]]))
  | term {ws vs : List Word} {c : Context} {e : UnitExpr} (hc : c.Reads ws)
      (he : Phrase .term vs e) : Reads (term c e) (ws ++ vs)

variable {s s' : Stage} {ws : List Word} {t : Token} {c : Context} {e : UnitExpr}
  {line : Option Quantity}

-- No name is half read between words.
theorem Reads.not_isNaming (h : s.Reads ws) : ¬ s.IsNaming := by
  cases h <;> exact id

theorem AtomEnds.exists_reads (hs : AtomEnds s t c e) (h : s.Reads ws) :
    ∃ us vs, ws = us ++ vs ∧ c.Reads us ∧ Phrase .atom vs e := by
  cases hs with
  | name => cases h
  | atom =>
      cases h with
      | atom hc he => exact ⟨_, _, rfl, hc, he⟩

theorem UnitEnds.exists_around (hs : UnitEnds s t c e) (h : s.Reads ws) :
    ∃ us vs, ws = us ++ vs ∧ c.Around us ∧ Phrase .unit vs e := by
  have hjoin : ∀ {us vs : List Word} {f : UnitExpr}, c.Reads us → Phrase .term vs f →
      ∃ us' vs', us ++ vs = us' ++ vs' ∧ c.Around us' ∧ Phrase .unit vs' (c.left.join f) := by
    intro us vs f hc hf
    obtain ⟨haround, hleft⟩ := hc
    exact ⟨_, _, List.append_assoc _ _ _, haround, hleft.join hf⟩
  cases hs with
  | atom hs =>
      obtain ⟨us, vs, rfl, hc, he⟩ := hs.exists_reads h
      exact hjoin hc (.atom he)
  | term =>
      cases h with
      | term hc he => exact hjoin hc he

theorem AtomStarts.reads (hs : AtomStarts s t c) (h : s.Reads ws) : c.Reads ws := by
  cases hs with
  | value =>
      cases h with
      | value hv => exact .ofUnit hv
  | operand =>
      cases h with
      | operand hc => exact hc
  | beside hs =>
      obtain ⟨us, vs, rfl, haround, he⟩ := hs.exists_around h
      obtain ⟨hhead, houter⟩ := haround
      exact .intro (.intro hhead houter) (.beside he)

theorem exists_read?_of_number {negative : Bool} {v : Float} (h : number t negative = .ok v) :
    ∃ x, Number.read? t.text = some x ∧ v = if negative then -x else x := by
  unfold number at h
  split at h
  · split at h
    · rename_i x hx
      cases h
      exact ⟨x, hx, rfl⟩
    · cases h
  · cases h

theorem exponent?_eq_some {x : Float} {n : Int} (h : exponent? x = some n) :
    Number.toInt? x = some n ∧ n.natAbs ≤ maxExponent := by
  unfold exponent? at h
  split at h
  · rename_i m hm
    split at h
    · rename_i hle
      cases h
      exact ⟨hm, hle⟩
    · cases h
  · cases h

-- A token brings the words of a line to the next stage, or ends the line.
theorem Reads.moves (h : s.Reads ws) (hmoves : Moves s t s' line) (hnaming : ¬ s'.IsNaming) :
    (t.endsLine = false ∧ line = none ∧ s'.Reads (ws ++ [[t]])) ∨
    (t.endsLine = true ∧ s' = .blank ∧
      (ws = [] ∧ line = none ∨ ∃ q, line = some q ∧ Line ws q)) := by
  cases hmoves with
  | blank hend =>
      cases h
      exact .inr ⟨hend, rfl, .inl ⟨rfl, rfl⟩⟩
  | sign ht =>
      cases h
      exact .inl ⟨Token.endsLine_eq_false ht nofun nofun, rfl, .sign ht⟩
  | positive hv =>
      cases h
      obtain ⟨x, hx, rfl⟩ := exists_read?_of_number hv
      have ht := kind_of_number hv
      exact .inl ⟨Token.endsLine_eq_false ht nofun nofun, rfl, .value (.positive ht hx)⟩
  | negative hv =>
      cases h with
      | sign hsign =>
          obtain ⟨x, hx, rfl⟩ := exists_read?_of_number hv
          have ht := kind_of_number hv
          exact .inl ⟨Token.endsLine_eq_false ht nofun nofun, rfl,
            .value (.negative hsign ht hx)⟩
  | opening hs ht =>
      exact .inl ⟨Token.endsLine_eq_false ht nofun nofun, rfl,
        .operand ((hs.reads h).opened ht)⟩
  | piece => exact absurd trivial hnaming
  | glue => exact absurd trivial hnaming
  | caret hs ht =>
      obtain ⟨us, vs, rfl, hc, he⟩ := hs.exists_reads h
      rw [List.append_assoc]
      exact .inl ⟨Token.endsLine_eq_false ht nofun nofun, rfl, .exponent hc he ht⟩
  | exponentSign ht =>
      cases h with
      | exponent hc he hcaret =>
          rw [List.append_assoc, List.append_assoc]
          exact .inl ⟨Token.endsLine_eq_false ht nofun nofun, rfl,
            .exponentSign hc he hcaret ht⟩
  | exponent hx hn =>
      have ht := kind_of_number hx
      obtain ⟨y, hy, rfl⟩ := exists_read?_of_number hx
      obtain ⟨htoInt, hle⟩ := exponent?_eq_some hn
      refine .inl ⟨Token.endsLine_eq_false ht nofun nofun, rfl, ?_⟩
      cases h with
      | exponent hc he hcaret =>
          rw [List.append_assoc, List.append_assoc]
          exact .term hc (.power he hcaret ⟨_, .positive ht hy, htoInt, hle⟩)
      | exponentSign hc he hcaret hsign =>
          rw [List.append_assoc, List.append_assoc]
          exact .term hc (.power he hcaret ⟨_, .negative hsign ht hy, htoInt, hle⟩)
  | times hs ht =>
      obtain ⟨us, vs, rfl, ⟨hhead, houter⟩, he⟩ := hs.exists_around h
      rw [List.append_assoc]
      exact .inl ⟨Token.endsLine_eq_false ht nofun nofun, rfl,
        .operand (.intro (.intro hhead houter) (.times he ht))⟩
  | divide hs ht =>
      obtain ⟨us, vs, rfl, ⟨hhead, houter⟩, he⟩ := hs.exists_around h
      rw [List.append_assoc]
      exact .inl ⟨Token.endsLine_eq_false ht nofun nofun, rfl,
        .operand (.intro (.intro hhead houter) (.divide he ht))⟩
  | closing hs houter ht =>
      obtain ⟨us, vs, rfl, haround, he⟩ := hs.exists_around h
      obtain ⟨us, vs, heq, he, hc⟩ := haround.closed houter he ht
      rw [heq]
      exact .inl ⟨Token.endsLine_eq_false ht nofun nofun, rfl, .atom hc he⟩
  | targetOfValue ht =>
      cases h with
      | value hv =>
          refine .inl ⟨Token.endsLine_eq_false ht nofun nofun, rfl, ?_⟩
          have h := Context.Reads.ofTarget hv .absent ht
          rw [List.append_nil] at h
          exact .operand h
  | targetOfUnit hs houter htarget ht =>
      obtain ⟨us, vs, rfl, haround, he⟩ := hs.exists_around h
      exact .inl ⟨Token.endsLine_eq_false ht nofun nofun, rfl,
        .operand (.ofTarget (haround.numeral houter htarget) (.present he) ht)⟩
  | endOfValue hend =>
      cases h with
      | value hv =>
          have h := Line.intro hv .absent .absent
          rw [List.append_nil, List.append_nil] at h
          exact .inr ⟨hend, rfl, .inr ⟨_, rfl, h⟩⟩
  | endOfUnit hs houter htarget hend =>
      obtain ⟨us, vs, rfl, haround, he⟩ := hs.exists_around h
      have hline := haround.line houter he
      rw [htarget] at hline
      exact .inr ⟨hend, rfl, .inr ⟨_, rfl, hline⟩⟩
  | endOfTarget hs houter htarget hend =>
      obtain ⟨us, vs, rfl, haround, he⟩ := hs.exists_around h
      have hline := haround.line houter he
      rw [htarget] at hline
      exact .inr ⟨hend, rfl, .inr ⟨_, rfl, hline⟩⟩

-- So does a word.
theorem Reads.takeWord {w : Word} (h : s.Reads ws) (hw : w.IsWhole)
    (hstep : s.takeWord w = .ok (s', line)) :
    ((∀ t ∈ w, t.endsLine = false) ∧ line = none ∧ s'.Reads (ws ++ [w])) ∨
    (s' = .blank ∧ (∃ t, w = [t] ∧ t.endsLine = true) ∧
      (ws = [] ∧ line = none ∨ ∃ q, line = some q ∧ Line ws q)) := by
  obtain ⟨t, ts, rfl⟩ : ∃ t ts, w = t :: ts := by
    cases hw with
    | name hname => exact List.exists_cons_of_ne_nil hname.1
    | token => exact ⟨_, _, rfl⟩
  cases haccept : s.accept t with
  | error err =>
      rw [takeWord_of_error ts haccept] at hstep
      cases hstep
  | ok r =>
      obtain ⟨s'', line''⟩ := r
      rw [takeWord_of_ok ts haccept] at hstep
      cases hstep
      have hmoves := moves_of_step (step_of_accept haccept).2
      cases hw with
      | name hname =>
          obtain ⟨rfl, c, hs, rfl⟩ :=
            hmoves.of_isNamePiece (hname.2 t List.mem_cons_self) h.not_isNaming
          exact .inl ⟨fun u hu => Token.endsLine_of_isNamePiece (hname.2 u hu), rfl,
            .atom (hs.reads h) (.name hname)⟩
      | token hpiece =>
          have hnaming := hmoves.not_isNaming hpiece
          rw [named_of_not_isNaming hnaming]
          rcases h.moves hmoves hnaming with ⟨hend, hline, hreads⟩ | ⟨hend, hblank, hline⟩
          · exact .inl ⟨by simpa using hend, hline, hreads⟩
          · exact .inr ⟨hblank, ⟨t, rfl, hend⟩, hline⟩

-- The lines that the parser makes of some words are those that the grammar makes of them.
theorem script_of_runWith_takeWord {ws vs : List Word} {e : Token} {qs : List Quantity}
    (h : s.Reads ws) (hwhole : ∀ w ∈ vs, w.IsWhole) (hvs : ∀ w ∈ vs, ∀ t ∈ w, t.kind ≠ .endOfFile)
    (he : e.kind = .endOfFile) (hrun : runWith Stage.takeWord s (vs ++ [[e]]) = .ok qs) :
    Script (ws ++ vs) qs := by
  induction vs generalizing s ws qs with
  | nil =>
      obtain ⟨s', line, qs', hstep, hnil, rfl⟩ := exists_of_runWith_cons_eq_ok hrun
      obtain rfl : [] = qs' := Except.ok.inj hnil
      rw [List.append_nil]
      rcases h.takeWord (.token (by simp [Token.isNamePiece, he])) hstep with
        ⟨hend, -, -⟩ | ⟨-, -, ⟨rfl, rfl⟩ | ⟨q, rfl, hq⟩⟩
      · simp [Token.endsLine, Token.isEnd, he] at hend
      · exact .nil
      · exact .last hq
  | cons w vs ih =>
      obtain ⟨s', line, qs', hstep, hrun', rfl⟩ := exists_of_runWith_cons_eq_ok hrun
      have hrest := fun {us} (h : s'.Reads us) =>
        ih h (fun w hw => hwhole w (List.mem_cons_of_mem _ hw))
          (fun w hw => hvs w (List.mem_cons_of_mem _ hw)) hrun'
      rcases h.takeWord (hwhole w List.mem_cons_self) hstep with
        ⟨-, rfl, hreads⟩ | ⟨rfl, ⟨t, rfl, hend⟩, hline⟩
      · have hscript := hrest hreads
        rwa [List.append_assoc] at hscript
      · have hscript := hrest .blank
        have hbreak : t.kind = .lineBreak :=
          (Token.kind_of_endsLine hend).resolve_right
            (hvs [t] List.mem_cons_self t List.mem_cons_self)
        rcases hline with ⟨rfl, rfl⟩ | ⟨q, rfl, hq⟩
        · exact .blank hbreak hscript
        · exact .cons hq hbreak hscript

end Stage

end UnitCalc
