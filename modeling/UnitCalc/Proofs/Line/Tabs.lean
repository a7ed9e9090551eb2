import UnitCalc.Proofs.Line.Independence
import UnitCalc.Proofs.Token.Tabs

namespace UnitCalc

-- Whether nothing but tabs, and at least one, stands between a backslash and the end of its line.
def TabbedBackslash (ts : List Token) : Prop :=
  ∃ backslash tabs lineBreak, backslash :: (tabs ++ [lineBreak]) <:+: ts ∧
    backslash.isBackslash = true ∧ tabs ≠ [] ∧ (∀ t ∈ tabs, t.kind = .tab) ∧
    lineBreak.kind = .lineBreak

theorem TabbedBackslash.cons {ts : List Token} (h : TabbedBackslash ts) (t : Token) :
    TabbedBackslash (t :: ts) := by
  obtain ⟨backslash, tabs, lineBreak, hinfix, h⟩ := h
  exact ⟨backslash, tabs, lineBreak, hinfix.trans (List.suffix_cons t ts).isInfix, h⟩

namespace Token

theorem kind_of_isBackslash {t : Token} (h : t.isBackslash = true) : t.kind = .undefined := by
  rw [isBackslash, Bool.and_eq_true, beq_iff_eq] at h
  exact h.1

theorem isBackslash_untabbed (t : Token) : t.untabbed.isBackslash = t.isBackslash := by
  by_cases hcomment : t.kind = .fault .unterminatedComment
  · rw [isBackslash, isBackslash, kind_untabbed, hcomment]
    rfl
  · rw [untabbed, if_neg hcomment]

theorem span_untabbed (t : Token) : t.untabbed.span = t.span := by
  unfold untabbed
  split
  · simp only [span, Text.utf8ByteSize_untabbed]
  · rfl

end Token

-- Without tabs the same lines are joined, but for those whose backslash stood before tabs.
theorem joinLines_filter_tab {ts : List Token} (h : ¬ TabbedBackslash ts) :
    joinLines (ts.filter fun t => t.kind ≠ .tab) =
      (joinLines ts).filter fun t => t.kind ≠ .tab := by
  fun_induction joinLines ts with
  | case1 a b ts hpair ih =>
      have hrest := ih fun hts => h ((hts.cons b).cons a)
      rw [Bool.and_eq_true, beq_iff_eq] at hpair
      have ha := Token.kind_of_isBackslash hpair.1
      rw [List.filter_cons_of_pos (by simp [ha]), List.filter_cons_of_pos (by simp [hpair.2]),
        joinLines, if_pos (by simp [hpair.1, hpair.2]), hrest]
  | case2 a b ts hpair ih =>
      have hrest := ih fun hts => h (hts.cons a)
      by_cases htab : a.kind = .tab
      · rw [List.filter_cons_of_neg (by simp [htab]), hrest,
          List.filter_cons_of_neg (by simp [htab])]
      have hfilter (us : List Token) : (a :: us).filter (fun t => t.kind ≠ .tab) =
          a :: us.filter fun t => t.kind ≠ .tab :=
        List.filter_cons_of_pos (by simp [htab])
      rw [hfilter, hfilter, ← hrest]
      cases hback : a.isBackslash with
      | false => exact joinLines_cons hback _
      | true =>
          cases hnext : (b :: ts).filter fun t => t.kind ≠ .tab with
          | nil => rfl
          | cons u us =>
              obtain ⟨tabs, post, hsplit, htabs, -⟩ := List.filter_eq_cons_iff.mp hnext
              have hbreak : u.kind ≠ .lineBreak := by
                intro hbreak
                refine h ⟨a, tabs, u, ⟨[], post, by simp [hsplit]⟩, hback, ?_,
                  fun t ht => by simpa using htabs t ht, hbreak⟩
                rintro rfl
                obtain rfl : b = u := (List.cons.inj hsplit).1
                simp [hback, hbreak] at hpair
              rw [joinLines, if_neg (by simp [hbreak])]
  | case3 ts hts =>
      rcases ts with _ | ⟨a, _ | ⟨b, ts⟩⟩
      · rfl
      · by_cases htab : a.kind = .tab <;> simp [htab, joinLines]
      · exact absurd rfl (hts a b ts)

namespace Stage

-- The parser passes over tabs.
theorem run_filter_tab (s : Stage) (ts : List Token) :
    s.run (ts.filter fun t => t.kind ≠ .tab) = s.run ts := by
  induction ts generalizing s with
  | nil => rfl
  | cons t ts ih =>
      by_cases htab : t.kind = .tab
      · have hnext : s.next t = .ok (s, none) := by simp [next, skips, htab]
        rw [List.filter_cons_of_neg (by simp [htab]), ih, run, hnext]
        simp only [bind, Except.bind]
        cases s.run ts <;> rfl
      · rw [List.filter_cons_of_pos (by simp [htab]), run, run]
        simp only [ih]

-- The text of a faulty token is not looked at.
theorem next_untabbed (s : Stage) (t : Token) : s.next t.untabbed = s.next t := by
  by_cases hcomment : t.kind = .fault .unterminatedComment
  · have hpos : t.untabbed.pos = t.pos := by
      unfold Token.untabbed
      split <;> rfl
    simp only [next, skips, LexError.ofToken?, Token.kind_untabbed, Token.span_untabbed, hpos,
      hcomment]
    rfl
  · rw [Token.untabbed, if_neg hcomment]

theorem run_untabbed (s : Stage) (ts : List Token) : s.run (ts.map Token.untabbed) = s.run ts := by
  induction ts generalizing s with
  | nil => rfl
  | cons t ts ih =>
      rw [List.map_cons, run, run, next_untabbed]
      simp only [ih]

end Stage

-- A backslash is left over when the next token ends no line.
theorem mem_joinLines_of_infix {a b : Token} {ts : List Token} (h : [a, b] <:+: ts)
    (ha : a.kind ≠ .lineBreak) (hb : b.kind ≠ .lineBreak) : a ∈ joinLines ts := by
  fun_induction joinLines ts with
  | case1 c d ts hpair ih =>
      rw [Bool.and_eq_true, beq_iff_eq] at hpair
      rcases List.infix_cons_iff.mp h with hprefix | h
      · obtain ⟨-, hprefix⟩ := List.cons_prefix_cons.mp hprefix
        obtain ⟨rfl, -⟩ := List.cons_prefix_cons.mp hprefix
        exact absurd hpair.2 hb
      rcases List.infix_cons_iff.mp h with hprefix | h
      · obtain ⟨rfl, -⟩ := List.cons_prefix_cons.mp hprefix
        exact absurd hpair.2 ha
      · exact ih h
  | case2 c d ts hpair ih =>
      rcases List.infix_cons_iff.mp h with hprefix | h
      · obtain ⟨rfl, -⟩ := List.cons_prefix_cons.mp hprefix
        exact List.mem_cons_self
      · exact List.mem_cons_of_mem c (ih h)
  | case3 ts hts =>
      obtain ⟨us, vs, rfl⟩ := h
      rcases us with _ | ⟨u, _ | ⟨u', us⟩⟩
      · exact absurd rfl (hts a b vs)
      · exact absurd rfl (hts u a (b :: vs))
      · exact absurd rfl (hts u u' _)

-- The parser makes the same of a text with its tabs made spaces, unless tabs part a backslash from
-- the end of its line. Then it finds a fault in the text.
theorem parseLines_untabbed {o : LexOptions} (hquoted : o.quotedStrings = false)
    (source : String) :
    (¬ TabbedBackslash (lex o source) →
      parseLines o (Text.untabbed source) = parseLines o source) ∧
    (TabbedBackslash (lex o source) → ∃ e, parseLines o source = .error e) := by
  constructor
  · intro hno
    rw [parseLines, lex_untabbed hquoted,
      joinLines_map Token.isBackslash_untabbed Token.kind_untabbed, Stage.run_untabbed,
      joinLines_filter_tab hno, Stage.run_filter_tab, parseLines]
  · rintro ⟨backslash, tabs, lineBreak, hinfix, hback, hne, htabs, -⟩
    obtain ⟨tab, tabs, rfl⟩ := List.exists_cons_of_ne_nil hne
    have htab : tab.kind ≠ .lineBreak := by simp [htabs tab List.mem_cons_self]
    have hundefined : backslash.kind ≠ .lineBreak := by simp [Token.kind_of_isBackslash hback]
    have hpair : [backslash, tab] <:+: lex o source := by
      refine List.IsInfix.trans ⟨[], tabs ++ [lineBreak], rfl⟩ hinfix
    have hleft := mem_joinLines_of_infix hpair hundefined htab
    cases hparse : parseLines o source with
    | error e => exact ⟨e, rfl⟩
    | ok qs =>
        have hplain := (Stage.staysInLine_of_run hparse backslash hleft).2
        rw [hback] at hplain
        cases hplain

theorem tabbedBackslash_metre : TabbedBackslash (lex {} "1 m \\\t\nas ft") := by
  refine ⟨⟨.undefined, ⟨0, 4⟩, 4, "\\"⟩, [⟨.tab, ⟨0, 5⟩, 5, "\t"⟩],
    ⟨.lineBreak, ⟨0, 6⟩, 6, "\n"⟩, ⟨(lex {} "1 m \\\t\nas ft").take 2,
      (lex {} "1 m \\\t\nas ft").drop 5, ?_⟩, ?_⟩
  · decide +kernel
  · decide

theorem parseLines_untabbed_metre :
    Text.untabbed "\t1 kg (m\t\n/\ts)" = " 1 kg (m \n/ s)" ∧
    parseLines {} " 1 kg (m \n/ s)" = parseLines {} "\t1 kg (m\t\n/\ts)" ∧
    TabbedBackslash (lex {} "1 m \\\t\nas ft") ∧
    ∃ e, parseLines {} "1 m \\\t\nas ft" = .error e := by
  have hback : ∀ t ∈ lex {} "\t1 kg (m\t\n/\ts)", t.isBackslash = false := by decide +kernel
  have hno : ¬ TabbedBackslash (lex {} "\t1 kg (m\t\n/\ts)") := by
    rintro ⟨backslash, tabs, lineBreak, hinfix, hbackslash, -⟩
    rw [hback backslash (List.IsInfix.subset hinfix List.mem_cons_self)] at hbackslash
    cases hbackslash
  have huntabbed : Text.untabbed "\t1 kg (m\t\n/\ts)" = " 1 kg (m \n/ s)" := by decide
  have hparse := (parseLines_untabbed (o := {}) rfl "\t1 kg (m\t\n/\ts)").1 hno
  rw [huntabbed] at hparse
  exact ⟨huntabbed, hparse, tabbedBackslash_metre,
    (parseLines_untabbed (o := {}) rfl _).2 tabbedBackslash_metre⟩

-- A tab after the backslash that joins two lines is no blank.
theorem not_forall_parseLines_untabbed :
    ¬ ∀ (o : LexOptions) (source : String) (qs : List Quantity), o.quotedStrings = false →
      parseLines o (Text.untabbed source) = .ok qs → parseLines o source = .ok qs := by
  intro h
  have huntabbed : Text.untabbed "1 m \\\t\nas ft" = "1 m \\ \nas ft" := by decide
  have hspace : parseLines {} "1 m \\ \nas ft" =
      .ok [⟨1, some (.name "m" ⟨2, 1⟩), some (.name "ft" ⟨10, 2⟩)⟩] := by
    decide +kernel
  have htab : parseLines {} "1 m \\\t\nas ft" =
      .error (.lexical ⟨.unknownCharacter, ⟨0, 4⟩, ⟨4, 1⟩⟩) := by
    decide +kernel
  have hsame := h {} "1 m \\\t\nas ft" _ rfl (by rw [huntabbed, hspace])
  rw [htab] at hsame
  cases hsame

end UnitCalc
