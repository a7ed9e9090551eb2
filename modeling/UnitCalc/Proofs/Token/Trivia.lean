import Mathlib.Data.List.TakeWhile
import UnitCalc.Proofs.Token.Piece

namespace UnitCalc

-- A run of spaces and, with comments on, of whole comments, together with the text after it. A
-- line comment goes up to the end of its line or of the text, and a block comment ends at the first
-- `*/`.
inductive Trivia (comments : Bool) : List Char → List Char → Prop where
  | nil {rest : List Char} : Trivia comments [] rest
  | space {run rest : List Char} (h : Trivia comments run rest) :
      Trivia comments (' ' :: run) rest
  | lineComment {body run rest : List Char} (hon : comments = true)
      (hbody : ∀ c ∈ body, c ≠ '\r' ∧ c ≠ '\n')
      (hend : ∀ c ∈ (run ++ rest).head?, c = '\r' ∨ c = '\n') (h : Trivia comments run rest) :
      Trivia comments ('/' :: '/' :: (body ++ run)) rest
  | blockComment {body run rest : List Char} (hon : comments = true)
      (hfirst : ¬ ['*', '/'] <:+: body ++ ['*']) (h : Trivia comments run rest) :
      Trivia comments ('/' :: '*' :: (body ++ '*' :: '/' :: run)) rest

theorem Trivia.spaces_or_slash {comments : Bool} {run rest : List Char}
    (h : Trivia comments run rest) :
    (∀ c ∈ run, c = ' ') ∨ comments = true ∧ '/' ∈ run := by
  induction h with
  | nil => exact .inl (List.forall_mem_nil _)
  | space h ih =>
      rcases ih with hspaces | ⟨hon, hslash⟩
      · exact .inl (List.forall_mem_cons.mpr ⟨rfl, hspaces⟩)
      · exact .inr ⟨hon, List.mem_cons_of_mem _ hslash⟩
  | lineComment hon => exact .inr ⟨hon, List.mem_cons_self⟩
  | blockComment hon => exact .inr ⟨hon, List.mem_cons_self⟩

theorem Trivia.eq_space {run rest : List Char} (h : Trivia false run rest) :
    ∀ c ∈ run, c = ' ' := by
  rcases h.spaces_or_slash with hspaces | ⟨hon, -⟩
  · exact hspaces
  · cases hon

namespace Glyph

-- A character that ends a line is never a glyph of its own.
def Proper : Glyph → Prop
  | char c => c ≠ '\r' ∧ c ≠ '\n'
  | lineEnd _ => True

theorem proper_ofChars (cs : List Char) : ∀ g ∈ ofChars cs, g.Proper := by
  fun_induction ofChars cs with
  | case5 c cs h1 h2 h3 h4 ih =>
      intro g hg
      rcases List.mem_cons.mp hg with rfl | hg
      · exact ⟨h4, h3⟩
      · exact ih g hg
  | _ => simp_all [Proper]

-- The text of a line ending starts with a character that ends a line.
theorem chars_lineEnd_eq_cons (e : LineEnding) :
    ∃ c cs, (lineEnd e).chars = c :: cs ∧ (c = '\r' ∨ c = '\n') := by
  cases e with
  | crlf => exact ⟨_, _, rfl, Or.inl rfl⟩
  | lfcr => exact ⟨_, _, rfl, Or.inr rfl⟩
  | lf => exact ⟨_, _, rfl, Or.inr rfl⟩
  | cr => exact ⟨_, _, rfl, Or.inl rfl⟩

theorem eq_of_mem_chars_lineEnd {c : Char} {e : LineEnding} (h : c ∈ (lineEnd e).chars) :
    c = '\r' ∨ c = '\n' := by
  cases e with
  | crlf => simpa [chars, LineEnding.chars] using h
  | lfcr => simpa [chars, LineEnding.chars, or_comm] using h
  | lf => exact .inr (List.mem_singleton.mp h)
  | cr => exact .inl (List.mem_singleton.mp h)

-- What is left of a text after some glyphs is read as a text of its own.
theorem eq_ofChars_of_append (as : List Glyph) {bs : List Glyph}
    (h : as ++ bs = ofChars ((as ++ bs).flatMap chars)) : bs = ofChars (bs.flatMap chars) := by
  have hdrop := drop_ofChars ((as ++ bs).flatMap chars) as.length
  rwa [← h, List.drop_left] at hdrop

-- A character that ends no line is a glyph.
theorem exists_of_chars_eq_cons {gs : List Glyph} {c : Char} {cs : List Char}
    (h : gs.flatMap chars = c :: cs) (hc : c ≠ '\r' ∧ c ≠ '\n') :
    ∃ r, gs = .char c :: r := by
  cases gs with
  | nil => cases h
  | cons g gs =>
      cases g with
      | char d =>
          obtain rfl : d = c := by simpa [chars] using congrArg List.head? h
          exact ⟨gs, rfl⟩
      | lineEnd e =>
          obtain ⟨d, ds, he, hd⟩ := chars_lineEnd_eq_cons e
          obtain rfl : d = c := by simpa [he] using congrArg List.head? h
          exact absurd hd (by simp [hc])

end Glyph

namespace Piece

theorem ne_lineEnd_of_mem_lineComment {gs : List Glyph} (hproper : ∀ g ∈ gs, g.Proper) {c : Char}
    (hc : c ∈ (lineComment gs).flatMap Glyph.chars) : c ≠ '\r' ∧ c ≠ '\n' := by
  obtain ⟨g, hg, hcg⟩ := List.mem_flatMap.mp hc
  have hline := List.mem_takeWhile_imp hg
  cases g with
  | lineEnd e => simp [Glyph.isLineEnd] at hline
  | char d =>
      obtain rfl : c = d := by simpa [Glyph.chars] using hcg
      exact hproper _ ((lineComment_isPrefix gs).subset hg)

-- After a line comment comes the end of its line, or nothing.
theorem head_drop_lineComment (gs : List Glyph) {c : Char}
    (hc : c ∈ ((gs.drop (lineComment gs).length).flatMap Glyph.chars).head?) :
    c = '\r' ∨ c = '\n' := by
  have hdrop : gs.drop (lineComment gs).length = gs.dropWhile fun g => !g.isLineEnd := by
    apply (List.append_right_inj (lineComment gs)).mp
    rw [List.prefix_iff_eq_append.mp (lineComment_isPrefix gs), lineComment,
      List.takeWhile_append_dropWhile]
  rw [hdrop] at hc
  have hhead := List.head?_dropWhile_not (fun g => !g.isLineEnd) gs
  cases hrest : gs.dropWhile fun g => !g.isLineEnd with
  | nil => simp [hrest] at hc
  | cons g rest =>
      rw [hrest] at hhead hc
      cases g with
      | char d => simp [Glyph.isLineEnd] at hhead
      | lineEnd e =>
          obtain ⟨d, ds, he, hd⟩ := Glyph.chars_lineEnd_eq_cons e
          obtain rfl : d = c := by simpa [he] using hc
          exact hd

-- A glyph before a text without `*/` makes one only as the star before a slash.
theorem not_infix_chars_append {g : Glyph} {cs : List Char} (h : ¬ ['*', '/'] <:+: cs)
    (hnext : g = .char '*' → cs.head? ≠ some '/') : ¬ ['*', '/'] <:+: g.chars ++ cs := by
  cases g with
  | char c =>
      intro hinfix
      rcases List.infix_cons_iff.mp hinfix with hp | hi
      · obtain ⟨rfl, hs⟩ := List.cons_prefix_cons.mp hp
        obtain ⟨rest, rfl⟩ := hs
        exact hnext rfl rfl
      · exact h hi
  | lineEnd e =>
      cases e <;> simp [Glyph.chars, LineEnding.chars, List.infix_cons_iff, h]

-- No `*/` stands in a block comment before the one that ends it.
theorem blockComment?_eq_some {gs inside : List Glyph} (h : blockComment? gs = some inside) :
    ∃ body, inside.flatMap Glyph.chars = body ++ ['*', '/'] ∧ ¬ ['*', '/'] <:+: body ++ ['*'] := by
  fun_induction blockComment? gs generalizing inside with
  | case1 r =>
      obtain rfl := Option.some.inj h
      exact ⟨[], rfl, by decide⟩
  | case2 g gs hg ih =>
      obtain ⟨rest, hrest, rfl⟩ := Option.map_eq_some_iff.mp h
      obtain ⟨body, hbody, hfirst⟩ := ih hrest
      refine ⟨g.chars ++ body, by simp [hbody], ?_⟩
      rw [List.append_assoc]
      apply not_infix_chars_append hfirst
      rintro rfl hslash
      obtain ⟨r, rfl⟩ := blockComment?_isPrefix hrest
      cases rest with
      | nil => simp at hbody
      | cons g' rest =>
          have hhead : (g'.chars ++ rest.flatMap Glyph.chars).head? = some '/' := by
            rw [← List.flatMap_cons, hbody, ← hslash]
            cases body <;> simp
          cases g' with
          | char c =>
              obtain rfl : c = '/' := by simpa [Glyph.chars] using hhead
              exact hg _ rfl rfl
          | lineEnd e => cases e <;> simp [Glyph.chars, LineEnding.chars] at hhead
  | case3 => simp at h

theorem trivia_run (comments : Bool) {gs : List Glyph} (hproper : ∀ g ∈ gs, g.Proper) :
    Trivia comments ((trivia comments gs).flatMap Glyph.chars)
      ((gs.drop (trivia comments gs).length).flatMap Glyph.chars) := by
  fun_induction trivia comments gs with
  | case1 r ih => exact .space (ih fun g hg => hproper g (List.mem_cons_of_mem _ hg))
  | case2 r hc ih =>
      have hr : ∀ g ∈ r, g.Proper := fun g hg => hproper g (by simp [hg])
      have hrun := ih fun g hg => hr g (List.mem_of_mem_drop hg)
      have hend := fun c hc => head_drop_lineComment r (c := c) hc
      rw [← List.prefix_iff_eq_append.mp (trivia_isPrefix comments (r.drop (lineComment r).length)),
        List.flatMap_append] at hend
      have h := Trivia.lineComment hc (fun c hc => ne_lineEnd_of_mem_lineComment hr hc) hend hrun
      simpa [Glyph.chars] using h
  | case4 r hc inside hi ih =>
      have hr : ∀ g ∈ r, g.Proper := fun g hg => hproper g (by simp [hg])
      have hrun := ih fun g hg => hr g (List.mem_of_mem_drop hg)
      obtain ⟨body, hbody, hfirst⟩ := blockComment?_eq_some hi
      have h := Trivia.blockComment hc hfirst hrun
      simpa [hbody, Glyph.chars] using h
  | _ => exact .nil

end Piece

end UnitCalc
