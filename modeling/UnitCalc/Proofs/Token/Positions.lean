import UnitCalc.Proofs.Text.Stops
import UnitCalc.Proofs.Token.Lookahead

namespace UnitCalc

-- Whether a token starts at a place of a text that a cursor stops at, and has its position.
def Token.StandsIn (t : Token) (source : String) : Prop :=
  ∃ c : Cursor, c.StopsIn source ∧ c.offset = t.start ∧ c.pos = t.pos

namespace Cursor

variable {source : String} {c : Cursor}

theorem StopsIn.take (h : c.StopsIn source) (p : Piece) : (c.take p).2.StopsIn source :=
  ((h.pass _).pass _).pass _

theorem StopsIn.standsIn_take (h : c.StopsIn source) (p : Piece) :
    (c.take p).1.StandsIn source :=
  ⟨c.pass p.skipped.length, h.pass _, rfl, rfl⟩

end Cursor

namespace Reader

-- What a reader can be asked for.
inductive Operation where
  | read
  | next
  | readWord
  | readLiteral (escapes : Bool)
  | moveTo (offset : Nat)
  | moveToPosition (pos : Position)
  | reset

-- The token that an operation gives, if it gives one, and the reader after it. An operation that
-- fails leaves the reader where it was.
def perform (r : Reader) : Operation → Except TokenError (Option Token) × Reader
  | .read => (.ok (some r.read.1), r.read.2)
  | .next => (.ok r.next?.1, r.next?.2)
  | .readWord => orStay (r.readWord.map fun (t, r') => (some t, r'))
  | .readLiteral escapes => orStay ((r.readLiteral escapes).map fun (t, r') => (some t, r'))
  | .moveTo offset => orStay ((r.moveTo offset).map fun r' => (none, r'))
  | .moveToPosition pos => (.ok none, r.moveToPosition pos)
  | .reset => (.ok none, r.reset)
where
  orStay : Except TokenError (Option Token × Reader) → Except TokenError (Option Token) × Reader
    | .ok (t, r') => (.ok t, r')
    | .error e => (.error e, r)

-- The reader after some operations in order.
def afterAll (r : Reader) (ops : List Operation) : Reader :=
  ops.foldl (fun r op => (r.perform op).2) r

-- All that an operation can do: take up a piece of the text, whose token it may keep to itself, go
-- to a place that a cursor stops at, or fail.
inductive Does (r : Reader) : Except TokenError (Option Token) × Reader → Prop where
  | take {t : Option Token} (p : Piece) (h : ∀ u, t = some u → u = (r.cursor.take p).1) :
      Does r (.ok t, { r with cursor := (r.cursor.take p).2 })
  | go {c : Cursor} (h : c.StopsIn r.source) : Does r (.ok none, { r with cursor := c })
  | stay (e : TokenError) : Does r (.error e, r)

theorem does_perform (r : Reader) (op : Operation) : Does r (r.perform op) := by
  have hall {t u : Token} (h : some t = some u) : u = t := (Option.some.inj h).symm
  cases op with
  | read => exact .take (.ofGlyphs r.options r.cursor.rest) fun _ => hall
  | next =>
      refine .take (.ofGlyphs r.options r.cursor.rest) ?_
      intro u hu
      simp only [next?] at hu
      split at hu
      · cases hu
      · exact hall hu
  | readWord =>
      simp only [perform, readWord]
      split
      · exact .take (.word r.cursor.rest) fun _ => hall
      · exact .stay _
  | readLiteral escapes =>
      simp only [perform, readLiteral]
      split
      · rename_i q gs hrest
        split
        · exact .take (.literal escapes q gs) fun _ => hall
        · exact .stay _
      · exact .stay _
  | moveTo offset =>
      simp only [perform, moveTo]
      split
      · exact .stay _
      split
      · rename_i c hc
        exact .go (Cursor.at?_eq_some_iff.mp hc).1
      · exact .stay _
  | moveToPosition pos => exact .go (Cursor.stopsIn_atPosition r.source pos)
  | reset => exact .go (Cursor.stopsIn_ofText r.source)

theorem moveTo_offset {r : Reader} {c : Cursor} (h : c.StopsIn r.source) :
    r.moveTo c.offset = .ok { r with cursor := c } := by
  have hle := h.offset_le
  have hat := Cursor.at?_eq_some_iff.mpr ⟨h, rfl⟩
  simp only [moveTo]
  rw [if_neg (by omega), hat]

variable {o : LexOptions} {source : String} {c : Cursor}

theorem exists_perform_eq (hc : c.StopsIn source) (op : Operation) :
    ∃ c' : Cursor, (perform ⟨source, o, c⟩ op).2 = ⟨source, o, c'⟩ ∧ c'.StopsIn source := by
  have hdoes := does_perform ⟨source, o, c⟩ op
  generalize perform ⟨source, o, c⟩ op = outcome at hdoes
  cases hdoes with
  | take p h => exact ⟨_, rfl, hc.take p⟩
  | go h => exact ⟨_, rfl, h⟩
  | stay e => exact ⟨c, rfl, hc⟩

theorem exists_afterAll_eq (hc : c.StopsIn source) (ops : List Operation) :
    ∃ c' : Cursor, afterAll ⟨source, o, c⟩ ops = ⟨source, o, c'⟩ ∧ c'.StopsIn source := by
  induction ops generalizing c with
  | nil => exact ⟨c, rfl, hc⟩
  | cons op ops ih =>
      obtain ⟨c', hop, hc'⟩ := exists_perform_eq (o := o) hc op
      rw [afterAll, List.foldl_cons, hop]
      exact ih hc'

theorem after_eq_afterAll (r : Reader) (n : Nat) :
    r.after n = r.afterAll (List.replicate n .read) := by
  induction n with
  | zero => rfl
  | succ n ih =>
      rw [after, ih, afterAll, afterAll, List.replicate_succ', List.foldl_append]
      rfl

theorem exists_after_eq (hc : c.StopsIn source) (n : Nat) :
    ∃ c' : Cursor, after ⟨source, o, c⟩ n = ⟨source, o, c'⟩ ∧ c'.StopsIn source := by
  rw [after_eq_afterAll]
  exact exists_afterAll_eq hc _

theorem standsIn_of_perform {r : Reader} {op : Operation} {t : Token}
    (hr : r.cursor.StopsIn r.source) (h : (r.perform op).1 = .ok (some t)) :
    t.StandsIn r.source := by
  have hdoes := does_perform r op
  generalize r.perform op = outcome at hdoes h
  cases hdoes with
  | take p htoken =>
      rw [htoken t (Except.ok.inj h)]
      exact hr.standsIn_take p
  | go => cases h
  | stay => cases h

-- What is left to read after a token: the tokens after it, or the end token again.
theorem tokens_after {r : Reader} {i : Nat} {t : Token}
    (h : (r.cursor.tokens r.options)[i]? = some t) :
    (r.after i).read.1 = t ∧ (r.after (i + 1)).cursor.tokens r.options =
      if t.kind = .endOfFile then [t] else (r.cursor.tokens r.options).drop (i + 1) := by
  induction i generalizing r with
  | zero =>
      rw [Cursor.tokens] at h
      split at h
      · rename_i hend
        obtain rfl := Option.some.inj h
        refine ⟨rfl, ?_⟩
        have hagain := Cursor.read_read_of_endOfFile hend
        rw [if_pos hend, after, after]
        simp only [read]
        rw [Cursor.tokens, hagain, if_pos hend]
      · rename_i hend
        obtain rfl := Option.some.inj h
        refine ⟨rfl, ?_⟩
        rw [if_neg hend, Cursor.tokens.eq_def r.options r.cursor, if_neg hend]
        rfl
  | succ i ih =>
      rw [Cursor.tokens] at h
      split at h
      · cases h
      · rename_i hend
        rw [after_succ, after_succ, Cursor.tokens.eq_def r.options r.cursor, if_neg hend]
        exact ih h

-- Wherever a reader has been taken to, it stands at a place that can be gone to, in the position
-- that going there counts, and each token that it gives then starts at such a place, in its
-- position. So a reader that goes to where another stands after a token reads on like that one.
theorem positions_from_start (o : LexOptions) (source : String) (ops : List Operation) :
    let first := ofText o source
    let r := first.afterAll ops
    r.moveTo r.cursor.offset = .ok r ∧
    (∀ op t, (r.perform op).1 = .ok (some t) →
      ∃ r', r.moveTo t.start = .ok r' ∧ r'.cursor.pos = t.pos) ∧
    ∀ (i : Nat) (t : Token), (lex o source)[i]? = some t →
      (first.after i).read.1 = t ∧
      r.moveTo (first.after (i + 1)).cursor.offset = .ok (first.after (i + 1)) ∧
      (first.after (i + 1)).cursor.tokens o =
        if t.kind = .endOfFile then [t] else (lex o source).drop (i + 1) := by
  have hstart := Cursor.stopsIn_ofText source
  obtain ⟨c, hr, hc⟩ := exists_afterAll_eq (o := o) hstart ops
  intro first r
  have hplace : r = ⟨source, o, c⟩ := hr
  clear_value r
  subst hplace
  refine ⟨moveTo_offset hc, ?_, ?_⟩
  · intro op t h
    obtain ⟨d, hd, hoffset, hpos⟩ := standsIn_of_perform hc h
    exact ⟨_, hoffset ▸ moveTo_offset hd, hpos⟩
  · intro i t h
    obtain ⟨htoken, hrest⟩ := tokens_after (r := first) h
    obtain ⟨d, hafter, hd⟩ := exists_after_eq (o := o) hstart (i + 1)
    refine ⟨htoken, ?_, hrest⟩
    rw [show first.after (i + 1) = ⟨source, o, d⟩ from hafter]
    exact moveTo_offset hd

end Reader

end UnitCalc
