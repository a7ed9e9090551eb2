import Mathlib.Data.List.SplitBy
import UnitCalc.Proofs.Line.Grammar
import UnitCalc.Proofs.Line.Moves
import UnitCalc.Proofs.Token.Tiling

namespace UnitCalc

namespace Token

variable {t : Token} {depth : Nat}

theorem kind_of_isNamePiece (h : t.isNamePiece = true) :
    t.kind = .identifier ∨ t.kind = .undefined := by
  unfold isNamePiece at h
  split at h
  · rename_i hk
    exact Or.inl hk
  · rename_i hk
    exact Or.inr hk
  · cases h

theorem kind_of_endsLine (h : t.endsLine = true) : t.kind = .lineBreak ∨ t.kind = .endOfFile := by
  simpa [endsLine, isEnd] using h

theorem depthAfter_eq_self (hopening : t.kind ≠ .opening .round)
    (hclosing : t.kind ≠ .closing .round) : t.depthAfter depth = depth := by
  simp [depthAfter, hopening, hclosing]

theorem depthAfter_of_isNamePiece (h : t.isNamePiece = true) : t.depthAfter depth = depth := by
  rcases kind_of_isNamePiece h with hk | hk <;> simp [depthAfter, hk]

theorem endsLine_eq_false {k : TokenKind} (h : t.kind = k) (hbreak : k ≠ .lineBreak)
    (hend : k ≠ .endOfFile) : t.endsLine = false := by
  simp [endsLine, isEnd, h, hbreak, hend]

theorem endsLine_of_isNamePiece (h : t.isNamePiece = true) : t.endsLine = false := by
  rcases kind_of_isNamePiece h with hk | hk <;> exact endsLine_eq_false hk nofun nofun

theorem depthAfter_of_endsLine (h : t.endsLine = true) : t.depthAfter depth = depth := by
  rcases kind_of_endsLine h with hk | hk <;> simp [depthAfter, hk]

end Token

namespace Stage

section

variable {s s' : Stage} {t : Token} {c : Context} {e : UnitExpr} {line : Option Quantity}

theorem kind_of_number {negative : Bool} {v : Float} (h : number t negative = .ok v) :
    t.kind = .number := by
  unfold number at h
  split at h
  · rename_i hk
    simpa using hk
  · cases h

theorem AtomEnds.depth_eq (h : AtomEnds s t c e) : s.depth = c.outer.length := by
  cases h <;> rfl

theorem UnitEnds.depth_eq (h : UnitEnds s t c e) : s.depth = c.outer.length := by
  cases h with
  | atom h => exact h.depth_eq
  | term => rfl

theorem AtomStarts.depth_eq (h : AtomStarts s t c) : s.depth = c.outer.length := by
  cases h with
  | value => rfl
  | operand => rfl
  | beside h => exact h.depth_eq

-- A token opens and closes parentheses in the stage as it does in the text.
theorem Moves.depth_eq (h : Moves s t s' line) : s'.depth = t.depthAfter s.depth := by
  cases h with
  | blank h => rw [Token.depthAfter_of_endsLine h]
  | positive h | negative h | exponent h hn => simp [Token.depthAfter, kind_of_number h, depth]
  | opening hs h =>
      rw [hs.depth_eq]
      simp [Token.depthAfter, h, depth, Context.opened]
  | piece hs h =>
      rw [hs.depth_eq, Token.depthAfter_of_isNamePiece h]
      rfl
  | glue hpiece h =>
      rw [Token.depthAfter_of_isNamePiece hpiece]
      rfl
  | caret hs h =>
      rw [hs.depth_eq]
      simp [Token.depthAfter, h, depth]
  | times hs h | divide hs h =>
      rw [hs.depth_eq]
      simp [Token.depthAfter, h, depth, Context.joined]
  | closing hs houter h =>
      rw [hs.depth_eq]
      simp [Token.depthAfter, h, depth, houter]
  | targetOfUnit hs houter htarget h =>
      rw [hs.depth_eq]
      simp [Token.depthAfter, h, depth, houter, Context.ofTarget]
  | endOfValue h =>
      rw [Token.depthAfter_of_endsLine h]
      rfl
  | endOfUnit hs houter htarget h | endOfTarget hs houter htarget h =>
      rw [hs.depth_eq, Token.depthAfter_of_endsLine h, houter]
      rfl
  | sign h | exponentSign h | targetOfValue h =>
      simp [Token.depthAfter, h, depth, Context.ofTarget]

end

-- What follows a token that is not skipped.
def accept (s : Stage) (t : Token) : Next :=
  match LexError.ofToken? t with
  | some e => .error (.lexical e)
  | none => s.step t

theorem step_of_accept {s s' : Stage} {t : Token} {line : Option Quantity}
    (h : s.accept t = .ok (s', line)) : LexError.ofToken? t = none ∧ s.step t = .ok (s', line) := by
  unfold accept at h
  split at h
  · cases h
  · rename_i hfault
    exact ⟨hfault, h⟩

theorem next_of_not_skips {s : Stage} {t : Token} (h : s.skips t = false) :
    s.next t = s.accept t := by
  simp only [next, h, accept]
  rfl

theorem kind_of_skips {s : Stage} {t : Token} (h : s.skips t = true) :
    t.kind = .tab ∨ t.kind = .lineBreak ∧ s.depth ≠ 0 := by
  simpa only [skips, Bool.or_eq_true, Bool.and_eq_true, beq_iff_eq, bne_iff_ne] using h

-- What is made of a token: it is skipped, or it is no fault and takes a step.
theorem next_cases {s s' : Stage} {t : Token} {line : Option Quantity}
    (h : s.next t = .ok (s', line)) :
    s.skips t = true ∧ s' = s ∧ line = none ∨
    s.skips t = false ∧ LexError.ofToken? t = none ∧ s.step t = .ok (s', line) := by
  cases hskips : s.skips t with
  | true =>
      simp only [next, hskips, if_true] at h
      cases h
      exact .inl ⟨rfl, rfl, rfl⟩
  | false =>
      rw [next_of_not_skips hskips] at h
      exact .inr ⟨rfl, step_of_accept h⟩

-- The lines that some inputs make up from a stage on, by what follows each of them.
def runWith {α : Type} (follow : Stage → α → Next) :
    Stage → List α → Except ParseError (List Quantity)
  | _, [] => .ok []
  | s, a :: as => do
      let (s, line) ← follow s a
      let lines ← runWith follow s as
      return line.toList ++ lines

section

variable {α : Type} {follow : Stage → α → Next} {s s' : Stage} {a : α} {as : List α}

theorem runWith_of_ok {line : Option Quantity} (h : follow s a = .ok (s', line)) :
    runWith follow s (a :: as) = (runWith follow s' as).map (line.toList ++ ·) := by
  rw [runWith, h]
  cases hrun : runWith follow s' as <;>
    simp [bind, Except.bind, hrun, Except.map, pure, Except.pure]

theorem runWith_of_none (h : follow s a = .ok (s', none)) :
    runWith follow s (a :: as) = runWith follow s' as := by
  rw [runWith_of_ok h]
  cases runWith follow s' as <;> rfl

theorem exists_of_runWith_cons_eq_ok {qs : List Quantity}
    (h : runWith follow s (a :: as) = .ok qs) :
    ∃ s' line qs', follow s a = .ok (s', line) ∧ runWith follow s' as = .ok qs' ∧
      qs = line.toList ++ qs' := by
  cases hfollow : follow s a with
  | error err => simp [runWith, hfollow, bind, Except.bind] at h
  | ok r =>
      obtain ⟨s', line⟩ := r
      rw [runWith_of_ok hfollow] at h
      cases hrun : runWith follow s' as with
      | error err => simp [hrun, Except.map] at h
      | ok qs' =>
          rw [hrun] at h
          cases h
          exact ⟨s', line, qs', rfl, hrun, rfl⟩

theorem runWith_of_error {e : ParseError} (h : follow s a = .error e) :
    runWith follow s (a :: as) = .error e := by
  rw [runWith, h]
  rfl

end

theorem run_eq_runWith_next (s : Stage) (ts : List Token) : s.run ts = runWith next s ts := by
  induction ts generalizing s with
  | nil => rfl
  | cons t ts ih => simp only [run, runWith, ih]

-- Skipping tabs and inner line ends on the way is leaving them out beforehand.
theorem run_eq_runWith_accept (s : Stage) (ts : List Token) :
    s.run ts = runWith accept s
      ((dropInnerBreaks s.depth ts).filter fun t => t.kind ≠ .tab) := by
  rw [run_eq_runWith_next]
  induction ts generalizing s with
  | nil => rfl
  | cons t ts ih =>
      rw [dropInnerBreaks]
      split
      · rename_i hbreak
        have hskips : s.next t = .ok (s, none) := by
          simp [next, skips, hbreak]
        rw [runWith_of_none hskips, ih]
      · rename_i hbreak
        by_cases htab : t.kind = .tab
        · have hskips : s.next t = .ok (s, none) := by
            simp [next, skips, htab]
          rw [runWith_of_none hskips, ih, Token.depthAfter_eq_self (by simp [htab])
            (by simp [htab]), List.filter_cons_of_neg (by simp [htab])]
        · have hskips : s.skips t = false := by
            simp only [skips]
            simp only [not_and, ne_eq, Decidable.not_not] at hbreak
            by_cases hk : t.kind = .lineBreak <;> simp [htab, hk, hbreak]
          rw [List.filter_cons_of_pos (by simp [htab])]
          have hnext := next_of_not_skips hskips
          cases haccept : s.accept t with
          | error err =>
              rw [runWith_of_error (hnext.trans haccept), runWith_of_error haccept]
          | ok r =>
              obtain ⟨s', line⟩ := r
              have hdepth := (moves_of_step (step_of_accept haccept).2).depth_eq
              rw [runWith_of_ok (hnext.trans haccept), runWith_of_ok haccept, ih, hdepth]

def IsNaming : Stage → Prop
  | name _ _ _ => True
  | _ => False

section

variable {s s' : Stage} {t : Token} {line : Option Quantity}

-- A name piece starts a name unless it goes on with one.
theorem Moves.of_isNamePiece (h : Moves s t s' line) (hpiece : t.isNamePiece = true)
    (hs : ¬ s.IsNaming) : line = none ∧ ∃ c, AtomStarts s t c ∧ s' = name c t.text t.span := by
  have hkind := Token.kind_of_isNamePiece hpiece
  cases h with
  | piece hs h => exact ⟨rfl, _, hs, rfl⟩
  | glue hpiece h => exact False.elim (hs trivial)
  | blank h | endOfValue h | endOfUnit _ _ _ h | endOfTarget _ _ _ h =>
      rcases Token.kind_of_endsLine h with hk | hk <;> simp [hk] at hkind
  | positive h | negative h | exponent h _ => simp [kind_of_number h] at hkind
  | sign h | opening _ h | caret _ h | exponentSign h | times _ h | divide _ h | closing _ _ h
  | targetOfValue h | targetOfUnit _ _ _ h => simp [h] at hkind

theorem Moves.not_isNaming (h : Moves s t s' line) (hpiece : t.isNamePiece = false) :
    ¬ s'.IsNaming := by
  cases h with
  | piece hs h => simp [h] at hpiece
  | glue h => simp [h] at hpiece
  | _ => exact id

theorem ofToken?_of_isNamePiece (h : t.isNamePiece = true) : LexError.ofToken? t = none := by
  rcases Token.kind_of_isNamePiece h with hk | hk <;> simp [LexError.ofToken?, hk, TokenKind.fault?]

end

-- A name goes on over the touching pieces after it, and then ends where the last of them ends.
theorem runWith_accept_name (c : Context) (symbol : String) (span : Span) (last : Token)
    (ts rest : List Token) (hstop : span.stop = last.span.stop) (hstart : span.start ≤ last.start)
    (htouch : (last :: ts).IsChain fun a b => a.touches b)
    (horder : (last :: ts).IsChain fun a b => a.start ≤ b.start) :
    runWith accept (name c symbol span) (ts ++ rest) =
      runWith accept (name c (ts.foldl (fun symbol u => symbol ++ u.text) symbol)
        (ts.foldl (fun span u => ⟨span.start, u.span.stop - span.start⟩) span)) rest ∧
    (ts.foldl (fun span u => (⟨span.start, u.span.stop - span.start⟩ : Span)) span).stop =
      ((last :: ts).getLast (List.cons_ne_nil _ _)).span.stop := by
  induction ts generalizing symbol span last with
  | nil => exact ⟨rfl, hstop⟩
  | cons u ts ih =>
      rw [List.isChain_cons_cons] at htouch horder
      obtain ⟨hlast, htouch⟩ := htouch
      obtain ⟨hle, horder⟩ := horder
      simp only [Token.touches, Bool.and_eq_true, beq_iff_eq] at hlast
      obtain ⟨⟨-, hpiece⟩, hu⟩ := hlast
      have hfits : u.start ≤ u.span.stop := by
        have hmax : u.start ≤ Span.maxOffset := by
          rw [hu]
          exact Nat.min_le_right _ _
        exact Nat.le_min.mpr ⟨Nat.le_add_right _ _, hmax⟩
      have hnext : (⟨span.start, u.span.stop - span.start⟩ : Span).stop = u.span.stop := by
        have hmax : u.span.stop ≤ Span.maxOffset := Nat.min_le_right _ _
        simp only [Span.stop] at hmax hfits ⊢
        omega
      have haccept : accept (name c symbol span) u =
          .ok (name c (symbol ++ u.text) ⟨span.start, u.span.stop - span.start⟩, none) := by
        simp [accept, ofToken?_of_isNamePiece hpiece, step, hpiece, hu, hstop]
      have h := ih (symbol ++ u.text) ⟨span.start, u.span.stop - span.start⟩ u hnext
        (Nat.le_trans hstart hle) htouch horder
      rw [List.cons_append, runWith_of_none haccept]
      exact ⟨h.1, by simpa using h.2⟩

-- Where a name does not go on, it is an atom.
theorem runWith_accept_name_eq_atom (c : Context) (symbol : String) (span : Span)
    (rest : List Token)
    (h : ∀ u ∈ rest.head?, (u.isNamePiece && u.start == span.stop) = false) :
    runWith accept (name c symbol span) rest =
      runWith accept (atom c (.name symbol span)) rest := by
  cases rest with
  | nil => rfl
  | cons u rest =>
      have hu := h u rfl
      have haccept : accept (name c symbol span) u = accept (atom c (.name symbol span)) u := by
        simp [accept, step, hu]
      simp only [runWith, haccept]

-- A name that has been read whole.
def named : Stage → UnitExpr → Stage
  | name c _ _, e => atom c e
  | s, _ => s

theorem named_of_not_isNaming {s : Stage} (h : ¬ s.IsNaming) (e : UnitExpr) : s.named e = s := by
  cases s with
  | name c symbol span => exact False.elim (h trivial)
  | _ => rfl

theorem not_isNaming_named (s : Stage) (e : UnitExpr) : ¬ (s.named e).IsNaming := by
  cases s <;> exact id

-- What follows a word. No word is without tokens.
def takeWord (s : Stage) : Word → Next
  | [] => .ok (blank, none)
  | t :: ts => (s.accept t).map fun (s, line) => (s.named (Word.leaf (t :: ts)), line)

theorem takeWord_of_ok {s s' : Stage} {t : Token} {line : Option Quantity} (ts : List Token)
    (h : s.accept t = .ok (s', line)) :
    s.takeWord (t :: ts) = .ok (s'.named (Word.leaf (t :: ts)), line) := by
  rw [takeWord, h]
  rfl

theorem takeWord_of_error {s : Stage} {t : Token} {e : ParseError} (ts : List Token)
    (h : s.accept t = .error e) : s.takeWord (t :: ts) = .error e := by
  rw [takeWord, h]
  rfl

end Stage

namespace Word

-- A word is a name, or a token that is no piece of one.
inductive IsWhole : Word → Prop where
  | name {w : Word} (h : w.IsName) : IsWhole w
  | token {t : Token} (h : t.isNamePiece = false) : IsWhole [t]

-- With its first token every token of a longest run is a name piece.
theorem isNamePiece_of_isChain {t : Token} {ts : List Token} (hpiece : t.isNamePiece = true)
    (h : (t :: ts).IsChain fun a b => a.touches b) : ∀ u ∈ t :: ts, u.isNamePiece = true := by
  induction ts generalizing t with
  | nil => simpa using hpiece
  | cons u ts ih =>
      rw [List.isChain_cons_cons] at h
      have hu : u.isNamePiece = true := by
        have htouch := h.1
        simp only [Token.touches, Bool.and_eq_true] at htouch
        exact htouch.1.2
      intro v hv
      rcases List.mem_cons.mp hv with rfl | hv
      · exact hpiece
      · exact ih hu h.2 v hv

theorem isWhole_of_isChain {w : Word} (hne : w ≠ []) (h : w.IsChain fun a b => a.touches b) :
    w.IsWhole := by
  cases w with
  | nil => exact absurd rfl hne
  | cons t ts =>
      by_cases hpiece : t.isNamePiece = true
      · exact .name ⟨hne, isNamePiece_of_isChain hpiece h⟩
      · cases ts with
        | nil => exact .token (by simpa using hpiece)
        | cons u ts =>
            have htouches := (List.isChain_cons_cons.mp h).1
            simp only [Token.touches, Bool.and_eq_true] at htouches
            exact absurd htouches.1.1 hpiece

end Word

namespace Stage

theorem exists_of_mem_head?_flatten {ws : List Word} {u : Token} (hne : [] ∉ ws)
    (h : u ∈ ws.flatten.head?) : ∃ us vs, ws = (u :: us) :: vs := by
  cases ws with
  | nil => simp at h
  | cons w ws =>
      cases w with
      | nil => exact absurd List.mem_cons_self hne
      | cons v vs =>
          obtain rfl : v = u := by simpa using h
          exact ⟨vs, ws, rfl⟩

-- Taking tokens one at a time is taking words, when these are longest runs of touching pieces.
theorem runWith_accept_flatten (s : Stage) (ws : List Word) (hs : ¬ s.IsNaming) (hne : [] ∉ ws)
    (htouch : ∀ w ∈ ws, w.IsChain fun a b => a.touches b)
    (hsep : ws.IsChain fun v w => ∃ hv hw, (v.getLast hv).touches (w.head hw) = false)
    (horder : ws.flatten.IsChain fun a b => a.start ≤ b.start) :
    runWith accept s ws.flatten = runWith takeWord s ws := by
  induction ws generalizing s with
  | nil => rfl
  | cons w ws ih =>
      cases w with
      | nil => exact absurd (List.mem_cons_self) hne
      | cons t ts =>
          have hrest := fun s' (hs' : ¬ s'.IsNaming) => ih s' hs'
            (fun h => hne (List.mem_cons_of_mem _ h))
            (fun w hw => htouch w (List.mem_cons_of_mem _ hw)) hsep.tail
            (by rw [List.flatten_cons] at horder; exact horder.right_of_append)
          have hchain := htouch (t :: ts) List.mem_cons_self
          rw [List.flatten_cons, List.cons_append]
          cases haccept : s.accept t with
          | error err =>
              rw [runWith_of_error haccept, runWith_of_error (takeWord_of_error ts haccept)]
          | ok r =>
              obtain ⟨s', line⟩ := r
              have hmoves := moves_of_step (step_of_accept haccept).2
              rw [runWith_of_ok haccept, runWith_of_ok (takeWord_of_ok ts haccept),
                ← hrest _ (not_isNaming_named _ _)]
              congr 1
              cases Word.isWhole_of_isChain (List.cons_ne_nil t ts) hchain with
              | name h =>
                  have hpiece := h.2 t List.mem_cons_self
                  obtain ⟨rfl, c, -, rfl⟩ := hmoves.of_isNamePiece hpiece hs
                  obtain ⟨hrun, hstop⟩ := runWith_accept_name c t.text t.span t ts ws.flatten rfl
                    (Nat.le_refl _) hchain horder.left_of_append
                  rw [hrun, runWith_accept_name_eq_atom]
                  · rfl
                  · intro u hu
                    obtain ⟨w, ws, rfl⟩ := exists_of_mem_head?_flatten
                      (fun h => hne (List.mem_cons_of_mem _ h)) hu
                    obtain ⟨_, _, hlast⟩ := (List.isChain_cons_cons.mp hsep).1
                    simp only [Token.touches, h.2 _ (List.getLast_mem _), List.head_cons,
                      Bool.true_and] at hlast
                    rw [hstop]
                    exact hlast
              | token hpiece =>
                  rw [named_of_not_isNaming (hmoves.not_isNaming hpiece)]
                  rfl

end Stage

-- Joining lines goes by the kinds of the tokens and by which of them are backslashes.
theorem joinLines_map {f : Token → Token} (hback : ∀ t, (f t).isBackslash = t.isBackslash)
    (hkind : ∀ t, (f t).kind = t.kind) (ts : List Token) :
    joinLines (ts.map f) = (joinLines ts).map f := by
  fun_induction joinLines ts with
  | case1 a b ts h ih =>
      rw [List.map_cons, List.map_cons, joinLines, hback, hkind, if_pos h, ih]
  | case2 a b ts h ih =>
      rw [List.map_cons] at ih
      rw [List.map_cons, List.map_cons, joinLines, hback, hkind, if_neg h, ih, List.map_cons]
  | case3 ts h =>
      rcases ts with _ | ⟨a, _ | ⟨b, ts⟩⟩
      · rfl
      · rfl
      · exact absurd rfl (h a b ts)

theorem joinLines_sublist (ts : List Token) : (joinLines ts).Sublist ts := by
  fun_induction joinLines ts with
  | case1 a b ts h ih => exact (ih.cons b).cons a
  | case2 a b ts h ih => exact ih.cons_cons a
  | case3 => exact List.Sublist.refl _

theorem dropInnerBreaks_sublist (depth : Nat) (ts : List Token) :
    (dropInnerBreaks depth ts).Sublist ts := by
  fun_induction dropInnerBreaks depth ts with
  | case1 => exact List.Sublist.refl _
  | case2 depth t ts h ih => exact ih.cons t
  | case3 depth t ts h ih => exact ih.cons_cons t

theorem significant_sublist (ts : List Token) : (significant ts).Sublist ts :=
  List.filter_sublist.trans ((dropInnerBreaks_sublist 0 _).trans (joinLines_sublist ts))

-- The end token counts, whatever comes before it.
theorem joinLines_append_of_endOfFile (ts : List Token) {e : Token} (he : e.kind = .endOfFile) :
    joinLines (ts ++ [e]) = joinLines ts ++ [e] := by
  fun_induction joinLines ts with
  | case1 a b ts h ih =>
      rw [List.cons_append, List.cons_append, joinLines, if_pos h, ih]
  | case2 a b ts h ih =>
      rw [List.cons_append, List.cons_append, joinLines, if_neg h, List.cons_append, ← ih]
      rfl
  | case3 ts h =>
      match ts with
      | [] => rfl
      | [a] => simp [joinLines, he]
      | a :: b :: ts => exact absurd rfl (h a b ts)

theorem dropInnerBreaks_append_of_endOfFile (depth : Nat) (ts : List Token) {e : Token}
    (he : e.kind = .endOfFile) :
    dropInnerBreaks depth (ts ++ [e]) = dropInnerBreaks depth ts ++ [e] := by
  fun_induction dropInnerBreaks depth ts with
  | case1 => simp [dropInnerBreaks, he]
  | case2 depth t ts h ih => rw [List.cons_append, dropInnerBreaks, if_pos h, ih]
  | case3 depth t ts h ih => rw [List.cons_append, dropInnerBreaks, if_neg h, ih, List.cons_append]

theorem significant_append_of_endOfFile (ts : List Token) {e : Token} (he : e.kind = .endOfFile) :
    significant (ts ++ [e]) = significant ts ++ [e] := by
  rw [significant, joinLines_append_of_endOfFile ts he, dropInnerBreaks_append_of_endOfFile 0 _ he,
    List.filter_append, List.filter_singleton]
  simp [significant, he]

theorem words_append_of_endOfFile (ts : List Token) {e : Token} (he : e.kind = .endOfFile) :
    words (ts ++ [e]) = words ts ++ [[e]] := by
  have hpiece : e.isNamePiece = false := by simp [Token.isNamePiece, he]
  rw [words, List.splitBy_append_cons]
  · rfl
  · simp [Token.touches, hpiece]

theorem isWhole_of_mem_words {ts : List Token} {w : Word} (h : w ∈ words ts) : w.IsWhole :=
  Word.isWhole_of_isChain (List.ne_nil_of_mem_splitBy h) (List.isChain_of_mem_splitBy h)

-- The parser reads the significant words.
theorem parseLines_eq_runWith_takeWord (o : LexOptions) (source : String) :
    parseLines o source =
      Stage.runWith Stage.takeWord .blank (words (significant (lex o source))) := by
  have horder : (significant (lex o source)).IsChain fun a b => a.start ≤ b.start :=
    ((Cursor.pairwise_start_tokens o _).sublist (significant_sublist _)).isChain
  have hflatten := List.flatten_splitBy Token.touches (significant (lex o source))
  have h := Stage.runWith_accept_flatten .blank (words (significant (lex o source))) id
    (List.nil_notMem_splitBy _ _) (fun w hw => List.isChain_of_mem_splitBy hw)
    (List.isChain_getLast_head_splitBy _ _) (by rw [words, hflatten]; exact horder)
  rw [parseLines, Stage.run_eq_runWith_accept, ← h, words, hflatten]
  rfl

end UnitCalc
