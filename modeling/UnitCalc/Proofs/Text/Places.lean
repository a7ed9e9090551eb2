import Mathlib.Logic.Function.Iterate
import Mathlib.Order.Basic
import UnitCalc.Proofs.Text.Stops

namespace UnitCalc

instance : LinearOrder Position where
  le_refl p := .inr ⟨rfl, Nat.le_refl _⟩
  le_trans p q r hpq hqr := by
    simp only [Position.le_def] at hpq hqr ⊢
    omega
  lt_iff_le_not_ge p q := by
    simp only [Position.lt_def, Position.le_def]
    omega
  le_antisymm p q hpq hqp := by
    obtain ⟨line, column⟩ := p
    obtain ⟨line', column'⟩ := q
    simp only [Position.le_def] at hpq hqp
    simp only [Position.mk.injEq]
    omega
  le_total p q := by
    simp only [Position.le_def]
    omega
  toDecidableLE := inferInstance

namespace Cursor

variable {source : String} {c : Cursor} {stop : Cursor → Bool}

theorem iterate_advance (c : Cursor) (n : Nat) : advance^[n] c = c.pass n := by
  induction n generalizing c with
  | zero => exact (pass_zero c).symm
  | succ n ih => rw [Function.iterate_succ_apply, ih, pass_succ]

theorem pass_of_rest_eq_nil (h : c.rest = []) (n : Nat) : c.pass n = c := by
  obtain ⟨rest, offset, pos⟩ := c
  subst h
  simp [pass]

theorem pos_lt_pos_advance (h : c.rest ≠ []) : c.pos < c.advance.pos := by
  obtain ⟨g, gs, hrest⟩ := List.exists_cons_of_ne_nil h
  simp only [advance, hrest]
  exact Position.lt_next c.pos g

-- A cursor that passes glyphs stays where it is or goes on in offset and in position alike.
theorem pass_eq_or_lt (c : Cursor) (n : Nat) :
    c.pass n = c ∨ c.offset < (c.pass n).offset ∧ c.pos < (c.pass n).pos := by
  induction n generalizing c with
  | zero => exact .inl (pass_zero c)
  | succ n ih =>
      by_cases hend : c.rest = []
      · exact .inl (pass_of_rest_eq_nil hend _)
      · have hoffset := offset_lt_offset_advance hend
        have hpos := pos_lt_pos_advance hend
        rw [pass_succ]
        rcases ih c.advance with hstay | ⟨hoffset', hpos'⟩
        · rw [hstay]
          exact .inr ⟨hoffset, hpos⟩
        · exact .inr ⟨Nat.lt_trans hoffset hoffset', hpos.trans hpos'⟩

theorem pos_le_pos_pass (c : Cursor) (n : Nat) : c.pos ≤ (c.pass n).pos := by
  rcases c.pass_eq_or_lt n with hstay | ⟨-, hpos⟩
  · rw [hstay]
  · exact hpos.le

section

variable {d : Cursor} (hc : c.StopsIn source) (hd : d.StopsIn source)
include hc hd

-- Of two places one is reached from the other.
theorem StopsIn.exists_pass : (∃ n, d = c.pass n) ∨ ∃ n, c = d.pass n := by
  obtain ⟨m, rfl⟩ := hc
  obtain ⟨n, rfl⟩ := hd
  rcases Nat.le_total m n with hle | hle
  · exact .inl ⟨n - m, by rw [pass_pass, Nat.add_sub_cancel' hle]⟩
  · exact .inr ⟨m - n, by rw [pass_pass, Nat.add_sub_cancel' hle]⟩

theorem StopsIn.eq_or_lt_or_lt :
    c = d ∨ (c.offset < d.offset ∧ c.pos < d.pos) ∨ d.offset < c.offset ∧ d.pos < c.pos := by
  rcases hc.exists_pass hd with ⟨n, rfl⟩ | ⟨n, rfl⟩
  · rcases c.pass_eq_or_lt n with hstay | hlt
    · exact .inl hstay.symm
    · exact .inr (.inl hlt)
  · rcases d.pass_eq_or_lt n with hstay | hlt
    · exact .inl hstay
    · exact .inr (.inr hlt)

-- Places are in the same order by offset and by position.
theorem StopsIn.offset_lt_iff : c.offset < d.offset ↔ c.pos < d.pos := by
  rcases hc.eq_or_lt_or_lt hd with rfl | ⟨hoffset, hpos⟩ | ⟨hoffset, hpos⟩
  · simp
  · exact iff_of_true hoffset hpos
  · exact iff_of_false (Nat.lt_asymm hoffset) hpos.not_gt

theorem StopsIn.eq_of_pos_eq (h : c.pos = d.pos) : c = d := by
  rcases hc.eq_or_lt_or_lt hd with heq | ⟨-, hpos⟩ | ⟨-, hpos⟩
  · exact heq
  · exact absurd h hpos.ne
  · exact absurd h.symm hpos.ne

-- No place lies between a place and the next one.
theorem StopsIn.pos_le_of_lt_advance (h : c.rest = [] ∨ d.pos < c.advance.pos) : d.pos ≤ c.pos := by
  rcases hc.exists_pass hd with ⟨n, rfl⟩ | ⟨n, rfl⟩
  · cases n with
    | zero => rw [pass_zero]
    | succ n =>
        rcases h with hend | hlt
        · rw [pass_of_rest_eq_nil hend]
        · rw [pass_succ] at hlt
          exact absurd (c.advance.pos_le_pos_pass n) hlt.not_ge
  · exact d.pos_le_pos_pass n

end

theorem seekUntil_stops (c : Cursor) (stop : Cursor → Bool) :
    (c.seekUntil stop).rest = [] ∨ stop (c.seekUntil stop) = true := by
  obtain ⟨rest, offset, pos⟩ := c
  induction rest generalizing offset pos with
  | nil => exact .inl rfl
  | cons g gs ih =>
      cases hstop : stop ⟨g :: gs, offset, pos⟩ with
      | true =>
          rw [seekUntil_of_stop hstop]
          exact .inr hstop
      | false =>
          rw [seekUntil_of_not_stop hstop]
          exact ih _ _

-- A search keeps what each of its steps keeps.
theorem seekUntil_keeps {P : Cursor → Prop}
    (hstep : ∀ d, d.rest ≠ [] → stop d = false → P d → P d.advance) (h : P c) :
    P (c.seekUntil stop) := by
  obtain ⟨rest, offset, pos⟩ := c
  induction rest generalizing offset pos with
  | nil => exact h
  | cons g gs ih =>
      cases hstop : stop ⟨g :: gs, offset, pos⟩ with
      | true => rwa [seekUntil_of_stop hstop]
      | false =>
          rw [seekUntil_of_not_stop hstop]
          exact ih _ _ (hstep _ (List.cons_ne_nil g gs) hstop h)

-- The search for a line ends at the start of it, or at the end of the text.
theorem seekUntil_line (source : String) (line : Nat) :
    let c := (ofText source).seekUntil fun c => line ≤ c.pos.line
    c.pos ≤ ⟨line, 0⟩ ∧ (c.rest = [] ∨ line ≤ c.pos.line) := by
  refine ⟨?_, ?_⟩
  · refine seekUntil_keeps (P := fun c => c.pos ≤ ⟨line, 0⟩) (fun d hrest hstop hd => ?_) ?_
    · obtain ⟨g, gs, hcons⟩ := List.exists_cons_of_ne_nil hrest
      simp only [decide_eq_false_iff_not, Nat.not_le] at hstop
      simp only [advance, hcons, Position.le_def] at hd ⊢
      cases g <;> simp only [Position.next] <;> omega
    · simp only [ofText, Position.origin, Position.le_def]
      omega
  · have hend := (ofText source).seekUntil_stops fun c => line ≤ c.pos.line
    simpa using hend

-- The search in the line passes characters up to the column, and no line ending.
theorem seekUntil_column {target : Position} (hpos : c.pos ≤ target)
    (hline : c.rest = [] ∨ target.line ≤ c.pos.line) :
    let d := c.seekUntil fun d => target.column ≤ d.pos.column || d.rest.head?.any Glyph.isLineEnd
    d.pos ≤ target ∧ (d.rest = [] ∨ target < d.advance.pos) := by
  intro d
  obtain ⟨hd, hdline⟩ : d.pos ≤ target ∧ (d.rest = [] ∨ target.line ≤ d.pos.line) := by
    refine seekUntil_keeps
      (P := fun d => d.pos ≤ target ∧ (d.rest = [] ∨ target.line ≤ d.pos.line))
      (fun e hrest hstop he => ?_) ⟨hpos, hline⟩
    obtain ⟨g, gs, hcons⟩ := List.exists_cons_of_ne_nil hrest
    obtain ⟨he, heline⟩ := he
    have hle := heline.resolve_left hrest
    simp only [hcons, List.head?_cons, Option.any_some, Bool.or_eq_false_iff,
      decide_eq_false_iff_not, Nat.not_le] at hstop
    cases g with
    | lineEnd ending => simp [Glyph.isLineEnd] at hstop
    | char ch =>
        simp only [advance, hcons, Position.next, Position.le_def] at he ⊢
        omega
  refine ⟨hd, or_iff_not_imp_left.mpr fun hrest => ?_⟩
  have hle := hdline.resolve_left hrest
  have hstop : (decide (target.column ≤ d.pos.column) || d.rest.head?.any Glyph.isLineEnd) = true :=
    (c.seekUntil_stops _).resolve_left hrest
  obtain ⟨g, gs, hcons⟩ := List.exists_cons_of_ne_nil hrest
  simp only [hcons, List.head?_cons, Option.any_some, Bool.or_eq_true, decide_eq_true_eq] at hstop
  rw [Position.le_def] at hd
  rw [advance, hcons, Position.lt_def]
  cases g with
  | lineEnd ending =>
      simp only [Position.next]
      omega
  | char ch =>
      simp only [Glyph.isLineEnd, Bool.false_eq_true, or_false] at hstop
      simp only [Position.next]
      omega

theorem atPosition_bounds (source : String) (target : Position) :
    (atPosition source target).pos ≤ target ∧
      ((atPosition source target).rest = [] ∨ target < (atPosition source target).advance.pos) := by
  obtain ⟨hpos, hline⟩ := seekUntil_line source target.line
  exact seekUntil_column (hpos.trans (.inr ⟨rfl, Nat.zero_le _⟩)) hline

-- So it comes to the last place that is not past the target.
theorem pos_le_pos_atPosition {target : Position} (hc : c.StopsIn source) (h : c.pos ≤ target) :
    c.pos ≤ (atPosition source target).pos := by
  refine (stopsIn_atPosition source target).pos_le_of_lt_advance hc ?_
  exact (atPosition_bounds source target).2.imp_right fun hlt => h.trans_lt hlt

theorem atPosition_pos (hc : c.StopsIn source) : atPosition source c.pos = c := by
  refine (stopsIn_atPosition source c.pos).eq_of_pos_eq hc ?_
  exact le_antisymm (atPosition_bounds source c.pos).1 (pos_le_pos_atPosition hc le_rfl)

end Cursor

end UnitCalc
