import UnitCalc.Text.Cursor

namespace UnitCalc.Cursor

variable {source : String} {c : Cursor} {stop : Cursor → Bool}

-- Whether a cursor stands in a text, some glyphs after its start.
def StopsIn (c : Cursor) (source : String) : Prop :=
  ∃ n, c = (ofText source).pass n

theorem stopsIn_ofText (source : String) : (ofText source).StopsIn source :=
  ⟨0, (pass_zero _).symm⟩

theorem StopsIn.pass (h : c.StopsIn source) (n : Nat) : (c.pass n).StopsIn source := by
  obtain ⟨m, rfl⟩ := h
  exact ⟨m + n, pass_pass _ m n⟩

-- A text has no place after its end.
theorem StopsIn.offset_le (h : c.StopsIn source) : c.offset ≤ source.utf8ByteSize := by
  obtain ⟨n, rfl⟩ := h
  have hsize := congrArg Glyph.size (List.take_append_drop n (Glyph.ofString source))
  rw [Glyph.size_append, Glyph.size_ofString] at hsize
  simp only [Cursor.pass, ofText]
  omega

theorem pass_succ (c : Cursor) (n : Nat) : c.pass (n + 1) = c.advance.pass n := by
  rw [← pass_one, pass_pass, Nat.add_comm]

theorem advance_of_rest_eq_nil (h : c.rest = []) : c.advance = c := by
  simp [advance, h]

theorem offset_le_offset_pass (c : Cursor) (n : Nat) : c.offset ≤ (c.pass n).offset :=
  Nat.le_add_right _ _

theorem offset_lt_offset_advance (h : c.rest ≠ []) : c.offset < c.advance.offset := by
  obtain ⟨g, gs, hrest⟩ := List.exists_cons_of_ne_nil h
  have hwidth := g.width_pos
  simp only [advance, hrest]
  omega

theorem seekUntil_of_stop (h : stop c = true) : c.seekUntil stop = c := by
  obtain ⟨rest, offset, pos⟩ := c
  cases rest with
  | nil => rfl
  | cons g gs => rw [seekUntil, seekFrom, if_pos h]

-- Where it does not stop, a search goes on from the next glyph, if there is one.
theorem seekUntil_of_not_stop (h : stop c = false) :
    c.seekUntil stop = c.advance.seekUntil stop := by
  obtain ⟨rest, offset, pos⟩ := c
  cases rest with
  | nil => rfl
  | cons g gs =>
      rw [seekUntil, seekFrom, if_neg (Bool.eq_false_iff.mp h)]
      rfl

theorem exists_seekUntil_eq_pass (c : Cursor) (stop : Cursor → Bool) :
    ∃ n, c.seekUntil stop = c.pass n := by
  obtain ⟨rest, offset, pos⟩ := c
  induction rest generalizing offset pos with
  | nil => exact ⟨0, (pass_zero _).symm⟩
  | cons g gs ih =>
      cases hstop : stop ⟨g :: gs, offset, pos⟩ with
      | true => exact ⟨0, (seekUntil_of_stop hstop).trans (pass_zero _).symm⟩
      | false =>
          obtain ⟨n, hn⟩ := ih (offset + g.width) (pos.next g)
          refine ⟨n + 1, ?_⟩
          rw [seekUntil_of_not_stop hstop, pass_succ]
          exact hn

theorem StopsIn.seekUntil (h : c.StopsIn source) (stop : Cursor → Bool) :
    (c.seekUntil stop).StopsIn source := by
  obtain ⟨n, hn⟩ := c.exists_seekUntil_eq_pass stop
  rw [hn]
  exact h.pass n

-- No two places have one offset, since glyphs have bytes. So the first place that is far enough is
-- the one that is looked for.
theorem seekUntil_offset_pass (c : Cursor) (n : Nat) :
    c.seekUntil (fun d => (c.pass n).offset ≤ d.offset) = c.pass n := by
  induction n generalizing c with
  | zero => rw [pass_zero, seekUntil_of_stop (by simp)]
  | succ n ih =>
      rw [pass_succ]
      by_cases hend : c.rest = []
      · rw [advance_of_rest_eq_nil hend]
        exact ih c
      · have hlt := offset_lt_offset_advance hend
        have hle := c.advance.offset_le_offset_pass n
        have hearly : decide ((c.advance.pass n).offset ≤ c.offset) = false := by
          simp only [decide_eq_false_iff_not]
          omega
        rw [seekUntil_of_not_stop hearly]
        exact ih c.advance

-- The offsets that can be gone to are those of the places that a cursor stops at.
theorem at?_eq_some_iff {offset : Nat} :
    at? source offset = some c ↔ c.StopsIn source ∧ c.offset = offset := by
  constructor
  · intro h
    simp only [at?] at h
    split at h
    · rename_i hoffset
      obtain rfl := Option.some.inj h
      exact ⟨(stopsIn_ofText source).seekUntil _, hoffset⟩
    · cases h
  · rintro ⟨⟨n, rfl⟩, rfl⟩
    simp only [at?, seekUntil_offset_pass, if_true]

theorem stopsIn_atPosition (source : String) (target : Position) :
    (atPosition source target).StopsIn source :=
  ((stopsIn_ofText source).seekUntil _).seekUntil _

end UnitCalc.Cursor
