import UnitCalc.Number.Decimal
import UnitCalc.Proofs.Token.Piece

namespace UnitCalc

theorem takeWhile_append_of_head? {α : Type} {p : α → Bool} {as bs : List α}
    (has : ∀ a ∈ as, p a = true) (hbs : ∀ b ∈ bs.head?, p b = false) :
    (as ++ bs).takeWhile p = as := by
  have hstop : bs.takeWhile p = [] := by
    cases bs with
    | nil => rfl
    | cons b bs => exact List.takeWhile_cons_of_neg (by simpa using hbs b rfl)
  rw [List.takeWhile_append_of_pos has, hstop, List.append_nil]

namespace Number

def AllDigits (ds : List Char) : Prop :=
  ∀ c ∈ ds, c.isDigit = true

-- An optional exponent.
inductive ExponentForm : List Char → Prop where
  | absent : ExponentForm []
  | present {mark : Char} {sign ds : List Char} (hmark : mark = 'e' ∨ mark = 'E')
      (hsign : sign = [] ∨ sign = ['+'] ∨ sign = ['-']) (hds : ds ≠ []) (hdigits : AllDigits ds) :
      ExponentForm (mark :: (sign ++ ds))

-- Digits with at most one point and at least one digit, and an optional exponent.
inductive Form : List Char → Prop where
  | whole {ws es : List Char} (hws : ws ≠ []) (hdigits : AllDigits ws) (hes : ExponentForm es) :
      Form (ws ++ es)
  | point {ws fs es : List Char} (hne : ws ≠ [] ∨ fs ≠ []) (hws : AllDigits ws)
      (hfs : AllDigits fs) (hes : ExponentForm es) : Form (ws ++ '.' :: (fs ++ es))

theorem ExponentForm.isDigit_or_mem {es : List Char} (h : ExponentForm es) :
    ∀ c ∈ es, c.isDigit = true ∨ c ∈ ['.', 'e', 'E', '+', '-'] := by
  cases h with
  | absent => exact fun c hc => absurd hc List.not_mem_nil
  | @present mark sign ds hmark hsign hds hdigits =>
      intro c hc
      rcases List.mem_cons.mp hc with rfl | hc
      · rcases hmark with rfl | rfl <;> exact .inr (by decide)
      rcases List.mem_append.mp hc with hc | hc
      · rcases hsign with rfl | rfl | rfl
        · exact absurd hc List.not_mem_nil
        all_goals
          obtain rfl := List.mem_singleton.mp hc
          exact .inr (by decide)
      · exact .inl (hdigits c hc)

-- The characters of a number.
theorem Form.isDigit_or_mem {cs : List Char} (h : Form cs) :
    ∀ c ∈ cs, c.isDigit = true ∨ c ∈ ['.', 'e', 'E', '+', '-'] := by
  cases h with
  | whole hws hdigits hes =>
      intro c hc
      rcases List.mem_append.mp hc with hc | hc
      · exact .inl (hdigits c hc)
      · exact hes.isDigit_or_mem c hc
  | point hne hws hfs hes =>
      intro c hc
      rcases List.mem_append.mp hc with hc | hc
      · exact .inl (hws c hc)
      rcases List.mem_cons.mp hc with rfl | hc
      · exact .inr (by decide)
      rcases List.mem_append.mp hc with hc | hc
      · exact .inl (hfs c hc)
      · exact hes.isDigit_or_mem c hc

-- A run of digits ends where no digit follows.
theorem takeWhile_isDigit_append {ds cs : List Char} (hds : AllDigits ds)
    (hcs : ∀ c ∈ cs.head?, c.isDigit = false) :
    (ds ++ cs).takeWhile Char.isDigit = ds ∧ (ds ++ cs).dropWhile Char.isDigit = cs := by
  have htake := takeWhile_append_of_head? hds hcs
  have hsplit := List.takeWhile_append_dropWhile (p := Char.isDigit) (l := ds ++ cs)
  rw [htake] at hsplit
  exact ⟨htake, List.append_cancel_left hsplit⟩

theorem ExponentForm.head_isDigit {es : List Char} (h : ExponentForm es) :
    ∀ c ∈ es.head?, c.isDigit = false := by
  cases h with
  | absent => simp
  | present hmark =>
      intro c hc
      obtain rfl := Option.some.inj hc
      rcases hmark with rfl | rfl <;> rfl

theorem ExponentForm.readExponent? {es : List Char} (h : ExponentForm es) :
    (Number.readExponent? es).isSome = true := by
  cases h with
  | absent => rfl
  | @present mark sign ds hmark hsign hds hdigits =>
      obtain ⟨d, ds, rfl⟩ := List.exists_cons_of_ne_nil hds
      have hd : d.isDigit = true := hdigits d List.mem_cons_self
      have hread : (readSign (sign ++ d :: ds)).2 = d :: ds := by
        rcases hsign with rfl | rfl | rfl
        · have hminus : d ≠ '-' := by rintro rfl; cases hd
          have hplus : d ≠ '+' := by rintro rfl; cases hd
          simp [readSign, hminus, hplus]
        · rfl
        · rfl
      have hmark' : (mark == 'e' || mark == 'E') = true := by simpa using hmark
      have hall : (d :: ds).all Char.isDigit = true := List.all_eq_true.mpr hdigits
      simp [Number.readExponent?, hmark', hread, hall]

theorem Form.readDecimal? {cs : List Char} (h : Form cs) (negative : Bool) :
    (Number.readDecimal? negative cs).isSome = true := by
  cases h with
  | @whole ws es hws hdigits hes =>
      have htake := (takeWhile_isDigit_append hdigits hes.head_isDigit).1
      have hexponent := hes.readExponent?
      simp only [Number.readDecimal?, htake, List.drop_left]
      cases hes with
      | absent => simp [hws, hexponent]
      | present hmark => rcases hmark with rfl | rfl <;> simp [hws, hexponent]
  | @point ws fs es hne hws hfs hes =>
      have hpoint : ∀ c ∈ ('.' :: (fs ++ es)).head?, c.isDigit = false := by simp
      have htake := (takeWhile_isDigit_append hws hpoint).1
      obtain ⟨hfraction, hrest⟩ := takeWhile_isDigit_append hfs hes.head_isDigit
      have hexponent := hes.readExponent?
      have hsome : (ws.isEmpty && fs.isEmpty) = false := by
        rcases hne with hne | hne <;> simp [hne]
      simp only [Number.readDecimal?, htake, List.drop_left, hfraction, hrest, hsome]
      simp [hexponent]

-- It starts with a digit or a point, so that it has no sign and is no name.
theorem Form.exists_eq_cons {cs : List Char} (h : Form cs) :
    ∃ c cs', cs = c :: cs' ∧ (c.isDigit = true ∨ c = '.') := by
  cases h with
  | @whole ws es hws hdigits hes =>
      obtain ⟨c, ws, rfl⟩ := List.exists_cons_of_ne_nil hws
      exact ⟨c, ws ++ es, rfl, .inl (hdigits c List.mem_cons_self)⟩
  | @point ws fs es hne hws hfs hes =>
      cases ws with
      | nil => exact ⟨'.', fs ++ es, rfl, .inr rfl⟩
      | cons c ws => exact ⟨c, ws ++ '.' :: (fs ++ es), rfl, .inl (hws c List.mem_cons_self)⟩

theorem toLower_eq_self {c : Char} (h : c.isDigit = true ∨ c = '.') : c.toLower = c := by
  rcases h with h | rfl
  · have hle : c.val ≤ 57 := by
      simp only [Char.isDigit, Bool.and_eq_true, decide_eq_true_eq] at h
      exact h.2
    have hlt : ¬ (c.val ≥ 'A'.val ∧ c.val ≤ 'Z'.val) := by
      rintro ⟨hge, -⟩
      exact absurd (UInt32.le_trans hge hle) (by decide)
    exact dif_neg hlt
  · rfl

-- Without a sign or a name, a text is read as a decimal.
theorem read?_of_form {cs : List Char} (h : Form cs) :
    read? (String.ofList cs) = (readDecimal? false cs).map Decimal.toFloat := by
  obtain ⟨c, cs', rfl, hc⟩ := h.exists_eq_cons
  have hne : ∀ first : Char, first.isDigit = false → first ≠ '.' → c ≠ first := by
    rintro first hdigit hpoint rfl
    rcases hc with hc | hc
    · rw [hdigit] at hc
      cases hc
    · exact hpoint hc
  have hsign : readSign (c :: cs') = (false, c :: cs') := by
    simp [readSign, hne '-' rfl (by decide), hne '+' rfl (by decide)]
  have hname : ∀ name : String, (∀ first ∈ name.toList.head?, c ≠ first) →
      String.ofList ((c :: cs').map Char.toLower) ≠ name := by
    rintro name hfirst rfl
    apply hfirst c _ rfl
    simp [toLower_eq_self hc]
  have hinf := hname "inf" (by simpa using hne 'i' rfl (by decide))
  have hinfinity := hname "infinity" (by simpa using hne 'i' rfl (by decide))
  have hnan := hname "nan" (by simpa using hne 'n' rfl (by decide))
  simp only [read?, String.toList_ofList, hsign, beq_eq_false_iff_ne.mpr hinf,
    beq_eq_false_iff_ne.mpr hinfinity, beq_eq_false_iff_ne.mpr hnan]
  rfl

theorem exists_read?_of_form {cs : List Char} (h : Form cs) :
    ∃ v, read? (String.ofList cs) = some v := by
  obtain ⟨d, hd⟩ := Option.isSome_iff_exists.mp (h.readDecimal? false)
  exact ⟨d.toFloat, by rw [read?_of_form h, hd]; rfl⟩

end Number

namespace Piece

open Number

theorem allDigits_digits (gs : List Glyph) : AllDigits ((digits gs).flatMap Glyph.chars) := by
  intro c hc
  obtain ⟨g, hg, hc⟩ := List.mem_flatMap.mp hc
  have hdigit : g.is Char.isDigit = true := List.all_eq_true.mp List.all_takeWhile g hg
  cases g with
  | char d =>
      obtain rfl : c = d := by simpa [Glyph.chars] using hc
      exact hdigit
  | lineEnd e => cases hdigit

theorem digits_char_cons {c : Char} (h : c.isDigit = true) (gs : List Glyph) :
    digits (.char c :: gs) = .char c :: digits gs := by
  simp [digits, Glyph.is, h]

theorem flatMap_chars_ne_nil {gs : List Glyph} (h : gs ≠ []) : gs.flatMap Glyph.chars ≠ [] := by
  obtain ⟨g, gs, rfl⟩ := List.exists_cons_of_ne_nil h
  simp [g.chars_ne_nil]

theorem exponentForm_exponent (gs : List Glyph) :
    ExponentForm ((exponent gs).flatMap Glyph.chars) := by
  fun_cases exponent gs with
  | case2 e s r he hs hr =>
      have hds : digits r ≠ [] := by simpa using hr
      have hsign : [s] = [] ∨ [s] = ['+'] ∨ [s] = ['-'] := by simpa using hs
      exact @ExponentForm.present e [s] _ (by simpa using he) hsign (flatMap_chars_ne_nil hds)
        (allDigits_digits r)
  | case3 e s r he hs hdigit =>
      have hall := allDigits_digits (.char s :: r)
      rw [digits_char_cons hdigit] at hall
      exact @ExponentForm.present e [] _ (by simpa using he) (.inl rfl)
        (flatMap_chars_ne_nil (List.cons_ne_nil _ _)) hall
  | _ => exact .absent

theorem form_number {c : Char} {gs : List Glyph} (h : startsNumber c gs.head? = true) :
    Form ((number (.char c :: gs)).flatMap Glyph.chars) := by
  simp only [startsNumber, Bool.or_eq_true, Bool.and_eq_true, beq_iff_eq] at h
  rw [number, List.flatMap_append]
  have hexponent := exponentForm_exponent ((Glyph.char c :: gs).drop
    (mantissa (.char c :: gs)).length)
  generalize (exponent _).flatMap Glyph.chars = es at hexponent ⊢
  by_cases hc : c.isDigit = true
  · have hwhole := allDigits_digits (.char c :: gs)
    have hne : (digits (.char c :: gs)).flatMap Glyph.chars ≠ [] := by
      rw [digits_char_cons hc]
      exact flatMap_chars_ne_nil (List.cons_ne_nil _ _)
    unfold mantissa
    split
    · rename_i heq
      obtain ⟨rfl, -⟩ : c = '.' ∧ gs = _ := by simpa using heq
      exact absurd hc (by decide)
    dsimp only
    split
    · rename_i r hr
      have hform := Form.point (.inl hne) hwhole (allDigits_digits r) hexponent
      simpa [Glyph.chars] using hform
    · exact .whole hne hwhole hexponent
  · obtain ⟨rfl, hnext⟩ := h.resolve_left hc
    have hne : digits gs ≠ [] := by
      cases gs with
      | nil => cases hnext
      | cons g gs =>
          have hdigit : g.is Char.isDigit = true := hnext
          simp [digits, hdigit]
    exact @Form.point [] _ _ (.inr (flatMap_chars_ne_nil hne)) (List.forall_mem_nil _)
      (allDigits_digits gs) hexponent

theorem mantissa_of_head? {gs : List Glyph} (h : gs.head? ≠ some (.char '.')) :
    mantissa gs = match gs.drop (digits gs).length with
      | .char '.' :: r => digits gs ++ .char '.' :: digits r
      | _ => digits gs := by
  unfold mantissa
  split
  · simp at h
  · rfl

theorem head?_append_ne_point {ds : List Glyph} (hne : ds ≠ [])
    (hds : ∀ g ∈ ds, g.is Char.isDigit = true) (gs : List Glyph) :
    (ds ++ gs).head? ≠ some (.char '.') := by
  obtain ⟨d, ds, rfl⟩ := List.exists_cons_of_ne_nil hne
  intro hpoint
  obtain rfl : d = .char '.' := Option.some.inj hpoint
  exact absurd (hds _ List.mem_cons_self) (by decide)

theorem mantissa_of_digits {ds gs : List Glyph} (hne : ds ≠ [])
    (hds : ∀ g ∈ ds, g.is Char.isDigit = true) (hdigit : ∀ g ∈ gs.head?, g.is Char.isDigit = false)
    (hpoint : ∀ g ∈ gs.head?, g ≠ .char '.') : mantissa (ds ++ gs) = ds := by
  have hdigits : digits (ds ++ gs) = ds := takeWhile_append_of_head? hds hdigit
  rw [mantissa_of_head? (head?_append_ne_point hne hds gs), hdigits, List.drop_left]
  split
  · rename_i r
    exact absurd rfl (hpoint _ rfl)
  · rfl

theorem mantissa_append_point {ds : List Glyph} (hds : ∀ g ∈ ds, g.is Char.isDigit = true)
    (gs : List Glyph) : mantissa (ds ++ .char '.' :: gs) = ds ++ .char '.' :: digits gs := by
  by_cases hne : ds = []
  · subst hne
    rfl
  · have hpoint : ∀ g ∈ (Glyph.char '.' :: gs).head?, g.is Char.isDigit = false := by
      rintro g ⟨⟩
      rfl
    have hdigits : digits (ds ++ .char '.' :: gs) = ds := takeWhile_append_of_head? hds hpoint
    rw [mantissa_of_head? (head?_append_ne_point hne hds _), hdigits, List.drop_left]
    rfl

theorem digits_isPrefix_mantissa (gs : List Glyph) : digits gs <+: mantissa gs := by
  unfold mantissa
  split
  · exact List.nil_prefix
  · dsimp only
    split
    · exact List.prefix_append _ _
    · exact List.prefix_rfl

theorem isDigit_of_mem_map {ds : List Char} (hds : AllDigits ds) :
    ∀ g ∈ ds.map Glyph.char, g.is Char.isDigit = true := by
  intro g hg
  obtain ⟨d, hd, rfl⟩ := List.mem_map.mp hg
  exact hds d hd

-- The mark of an exponent is no digit and no point.
theorem head_of_mark {mark : Char} (hmark : mark = 'e' ∨ mark = 'E') (gs : List Glyph) :
    ∀ g ∈ (Glyph.char mark :: gs).head?, g.is Char.isDigit = false ∧ g ≠ .char '.' := by
  rintro g ⟨⟩
  rcases hmark with rfl | rfl <;> exact ⟨rfl, by decide⟩

theorem digits_append {ds : List Char} (hds : AllDigits ds) (gs : List Glyph) :
    digits (ds.map .char ++ gs) = ds.map .char ++ digits gs :=
  List.takeWhile_append_of_pos (isDigit_of_mem_map hds)

theorem isPrefix_digits {ds : List Char} (hds : AllDigits ds) (gs : List Glyph) :
    ds.map .char <+: digits (ds.map .char ++ gs) := by
  rw [digits_append hds]
  exact List.prefix_append _ _

theorem isPrefix_exponent_of_form {es : List Char} (h : ExponentForm es) (gs : List Glyph) :
    es.map .char <+: exponent (es.map .char ++ gs) := by
  cases h with
  | absent => exact List.nil_prefix
  | @present mark sign ds hmark hsign hds hdigits =>
      have hmark' : (mark == 'e' || mark == 'E') = true := by simpa using hmark
      have hprefix := isPrefix_digits hdigits gs
      obtain ⟨d, ds, rfl⟩ := List.exists_cons_of_ne_nil hds
      have hsome : (digits ((d :: ds).map .char ++ gs)).isEmpty = false := by
        rw [digits_append hdigits]
        rfl
      have hsigned {s : Char} (hs : (s == '+' || s == '-') = true) :
          .char mark :: .char s :: (d :: ds).map .char <+:
            exponent (.char mark :: .char s :: ((d :: ds).map .char ++ gs)) := by
        rw [exponent, if_pos hmark', if_pos hs, hsome]
        exact (List.prefix_cons_inj _).mpr ((List.prefix_cons_inj _).mpr hprefix)
      rcases hsign with rfl | rfl | rfl
      · have hd := hdigits d List.mem_cons_self
        have hunsigned : (d == '+' || d == '-') = false := by
          rw [Bool.or_eq_false_iff, beq_eq_false_iff_ne, beq_eq_false_iff_ne]
          constructor <;> (rintro rfl; cases hd)
        have hrest := isPrefix_digits (fun c hc => hdigits c (List.mem_cons_of_mem d hc)) gs
        simp only [List.nil_append, List.map_cons, List.cons_append]
        rw [exponent, if_pos hmark', if_neg (by simp [hunsigned]), if_pos hd]
        exact (List.prefix_cons_inj _).mpr ((List.prefix_cons_inj _).mpr hrest)
      · exact hsigned rfl
      · exact hsigned rfl

-- Before an exponent a number stops, and otherwise it may go on.
theorem isPrefix_number {ms es : List Char} (hes : ExponentForm es)
    (hgoes : ∀ gs, ms.map .char <+: mantissa (ms.map .char ++ gs))
    (hstops : ∀ mark gs, mark = 'e' ∨ mark = 'E' →
      mantissa (ms.map .char ++ .char mark :: gs) = ms.map .char) (gs : List Glyph) :
    (ms ++ es).map .char <+: number ((ms ++ es).map .char ++ gs) := by
  have hexponent := isPrefix_exponent_of_form hes gs
  cases hes with
  | absent =>
      rw [List.append_nil]
      exact (hgoes gs).trans (List.prefix_append _ _)
  | @present mark sign ds hmark hsign hds hdigits =>
      rw [List.map_append, List.append_assoc, number]
      rw [List.map_cons, List.cons_append] at hexponent ⊢
      rw [hstops _ _ hmark, List.drop_left]
      exact (List.prefix_append_right_inj _).mpr hexponent

-- A number goes on at least as far as any first part of the text that is one.
theorem isPrefix_number_of_form {cs : List Char} (h : Form cs) (gs : List Glyph) :
    cs.map .char <+: number (cs.map .char ++ gs) := by
  cases h with
  | @whole ws es hws hdigits hes =>
      apply isPrefix_number hes
      · intro gs
        exact (isPrefix_digits hdigits gs).trans (digits_isPrefix_mantissa _)
      · intro mark gs hmark
        exact mantissa_of_digits (by simpa using hws) (isDigit_of_mem_map hdigits)
          (fun g hg => (head_of_mark hmark gs g hg).1) fun g hg => (head_of_mark hmark gs g hg).2
  | @point ws fs es hne hws hfs hes =>
      have hsplit : ws ++ '.' :: (fs ++ es) = (ws ++ '.' :: fs) ++ es := by
        rw [List.append_assoc, List.cons_append]
      have hmantissa (gs : List Glyph) : mantissa ((ws ++ '.' :: fs).map .char ++ gs) =
          ws.map .char ++ .char '.' :: digits (fs.map .char ++ gs) := by
        rw [List.map_append, List.append_assoc]
        exact mantissa_append_point (isDigit_of_mem_map hws) _
      rw [hsplit]
      apply isPrefix_number hes
      · intro gs
        rw [hmantissa, List.map_append]
        exact (List.prefix_append_right_inj _).mpr
          ((List.prefix_cons_inj _).mpr (isPrefix_digits hfs gs))
      · intro mark gs hmark
        have hdigits : digits (fs.map .char ++ .char mark :: gs) = fs.map .char :=
          takeWhile_append_of_head? (isDigit_of_mem_map hfs)
            fun g hg => (head_of_mark hmark gs g hg).1
        rw [hmantissa, hdigits, List.map_append, List.map_cons]

theorem kind_literal (escapes : Bool) (quote : Char) (gs : List Glyph) :
    (literal escapes quote gs).kind.isQuoted = true := by
  have hends : ∃ content, Ends quote gs content (literal escapes quote gs).kind := by
    cases escapes with
    | false => exact ⟨_, plainContent_ends quote gs⟩
    | true => exact ⟨_, escapedContent_ends quote gs⟩
  obtain ⟨content, hends⟩ := hends
  generalize (literal escapes quote gs).kind = kind at hends
  cases hends <;> rfl

theorem kind_word (gs : List Glyph) :
    (word gs).kind = .identifier ∨ ∃ k, (word gs).kind = .keyword k := by
  unfold word
  dsimp only
  split
  · exact .inr ⟨_, rfl⟩
  · exact .inl rfl

-- Only a number has the kind of one.
theorem exists_of_kind_atGlyph_eq_number {o : LexOptions} {gs : List Glyph}
    (h : (atGlyph o gs).kind = .number) :
    ∃ c r, gs = .char c :: r ∧ startsNumber c r.head? = true ∧
      (atGlyph o gs).lexeme = number gs := by
  have hfound := found_atGlyph o gs
  generalize atGlyph o gs = p at hfound h ⊢
  cases hfound with
  | endOfFile | lineBreak | comment | tab => cases h
  | @literal c r hon hc =>
      have hquoted := kind_literal o.escapes c r
      rw [h] at hquoted
      cases hquoted
  | @word c r hc => rcases kind_word (.char c :: r) with hk | ⟨k, hk⟩ <;> rw [hk] at h <;> cases h
  | number hstarts => exact ⟨_, _, rfl, hstarts, rfl⟩
  | mark hword hnumber => exact absurd h (kind_mark_ne rfl _ _)

end Piece

namespace Cursor

theorem exists_read_of_mem_tokens {o : LexOptions} {c : Cursor} {t : Token}
    (h : t ∈ c.tokens o) : ∃ c' : Cursor, (c'.read o).1 = t := by
  fun_induction c.tokens o with
  | case1 c next hend => exact ⟨c, (List.mem_singleton.mp h).symm⟩
  | case2 c next hend ih =>
      rcases List.mem_cons.mp h with rfl | h
      · exact ⟨c, rfl⟩
      · exact ih h

end Cursor

section

variable {o : LexOptions} {source : String} {t : Token}

theorem form_of_mem_lex (h : t ∈ lex o source) (hkind : t.kind = .number) :
    Number.Form t.text.toList := by
  obtain ⟨c, rfl⟩ := Cursor.exists_read_of_mem_tokens h
  rw [Cursor.read_eq o c rfl] at hkind ⊢
  obtain ⟨first, r, hgs, hstarts, hlexeme⟩ := Piece.exists_of_kind_atGlyph_eq_number hkind
  have hform := Piece.form_number hstarts
  rw [← hgs, ← hlexeme] at hform
  rw [Glyph.text, String.toList_ofList]
  exact hform

theorem exists_read?_of_mem_lex (h : t ∈ lex o source) (hkind : t.kind = .number) :
    ∃ v, Number.read? t.text = some v := by
  have hread := Number.exists_read?_of_form (form_of_mem_lex h hkind)
  rwa [String.ofList_toList] at hread

end

end UnitCalc
