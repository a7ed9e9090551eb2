import UnitCalc.Proofs.Text.Places
import UnitCalc.Proofs.Token.Positions

namespace UnitCalc.Reader

variable {r : Reader} {offset : Nat}

theorem moveTo_eq_error (h : ∀ c : Cursor, c.StopsIn r.source → c.offset ≠ offset) :
    r.moveTo offset = .error (if r.source.utf8ByteSize < offset
      then .pastEnd offset r.source.utf8ByteSize else .insideGlyph offset) := by
  have hat : Cursor.at? r.source offset = none := by
    refine Option.eq_none_iff_forall_ne_some.mpr fun c hc => ?_
    obtain ⟨hstops, hoffset⟩ := Cursor.at?_eq_some_iff.mp hc
    exact h c hstops hoffset
  simp only [moveTo, hat]
  split <;> rfl

theorem stopsIn_iff_iterate {source : String} {c : Cursor} :
    c.StopsIn source ↔ ∃ n, c = Cursor.advance^[n] (.ofText source) := by
  simp only [Cursor.StopsIn, Cursor.iterate_advance]

-- The places of a text are those that a cursor comes to from its start, one glyph after another. A
-- reader can go to their offsets and to no others; where it cannot it stays. They are in the same
-- order by offset and by position. To go to a position is to go to the last place that is not past
-- it. So a reader that goes to the offset or the position that it has stays as it is.
theorem repositioning (o : LexOptions) (source : String) (ops : List Operation) :
    let place := fun n => Cursor.advance^[n] (.ofText source)
    let r := (ofText o source).afterAll ops
    (∀ offset,
      (∃ n, (place n).offset = offset ∧ r.moveTo offset = .ok { r with cursor := place n }) ∨
      (∀ n, (place n).offset ≠ offset) ∧
        r.moveTo offset = .error (if source.utf8ByteSize < offset
          then .pastEnd offset source.utf8ByteSize else .insideGlyph offset) ∧
        (r.perform (.moveTo offset)).2 = r) ∧
    (∀ m n, (place m).offset < (place n).offset ↔ (place m).pos < (place n).pos) ∧
    (∀ target, ∃ n, r.moveToPosition target = { r with cursor := place n } ∧
      (place n).pos ≤ target ∧ ∀ m, (place m).pos ≤ target → (place m).pos ≤ (place n).pos) ∧
    r.moveTo r.cursor.offset = .ok r ∧ r.moveToPosition r.cursor.pos = r := by
  obtain ⟨c, hr, hc⟩ := exists_afterAll_eq (o := o) (Cursor.stopsIn_ofText source) ops
  intro place r
  have hplace (n : Nat) : (place n).StopsIn source := stopsIn_iff_iterate.mpr ⟨n, rfl⟩
  have hstand : r = ⟨source, o, c⟩ := hr
  clear_value r
  subst hstand
  refine ⟨fun offset => ?_, fun m n => (hplace m).offset_lt_iff (hplace n), fun target => ?_,
    moveTo_offset hc, ?_⟩
  · by_cases h : ∃ n, (place n).offset = offset
    · obtain ⟨n, rfl⟩ := h
      exact .inl ⟨n, rfl, moveTo_offset (hplace n)⟩
    · have hnone := not_exists.mp h
      have herror := @moveTo_eq_error ⟨source, o, c⟩ offset fun d hd => by
        obtain ⟨n, rfl⟩ := stopsIn_iff_iterate.mp hd
        exact hnone n
      refine .inr ⟨hnone, herror, ?_⟩
      rw [perform, herror]
      rfl
  · obtain ⟨n, hn⟩ := stopsIn_iff_iterate.mp (Cursor.stopsIn_atPosition source target)
    have hplaced : Cursor.atPosition source target = place n := hn
    refine ⟨n, congrArg (Reader.mk source o) hn, ?_, fun m hm => ?_⟩
    · rw [← hplaced]
      exact (Cursor.atPosition_bounds source target).1
    · rw [← hplaced]
      exact Cursor.pos_le_pos_atPosition (hplace m) hm
  · exact congrArg (Reader.mk source o) (Cursor.atPosition_pos hc)

end UnitCalc.Reader
