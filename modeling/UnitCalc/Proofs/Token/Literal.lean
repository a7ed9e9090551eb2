import Mathlib.Data.List.TakeWhile
import Mathlib.Tactic.Tauto
import UnitCalc.Proofs.Token.LongestMatch

namespace UnitCalc

open Piece

-- The characters that make an escape after a backslash.
def escapeMarks : List Char := ['n', 'r', 't', '\\', '"', '\'', 'x', 'u']

-- The characters that a literal takes together. Without escapes a backslash is one like any other,
-- and no line ends inside a literal.
inductive LiteralItem (quote : Char) : Bool → List Char → Prop where
  | plain {c : Char} (h : c ≠ quote ∧ c ≠ '\r' ∧ c ≠ '\n') : LiteralItem quote false [c]
  | char {c : Char} (h : c ≠ quote ∧ c ≠ '\\') : LiteralItem quote true [c]
  | escape {c : Char} (h : c ∈ escapeMarks) : LiteralItem quote true ['\\', c]

inductive LiteralText (quote : Char) (escapes : Bool) : List Char → Prop where
  | nil : LiteralText quote escapes []
  | cons {item cs : List Char} (hitem : LiteralItem quote escapes item)
      (h : LiteralText quote escapes cs) : LiteralText quote escapes (item ++ cs)

-- What is read after an opening quote, and what is left then.
structure LiteralReading where
  kind : TokenKind
  -- The text of the token.
  lexeme : List Char
  -- The closing quote, if there is one.
  closing : List Char
  rest : List Char

def LiteralReading.after (cs : List Char) (l : LiteralReading) : LiteralReading :=
  { l with lexeme := cs ++ l.lexeme }

-- How a literal ends where no item follows. A backslash that starts no escape is read together with
-- the whole glyph after it.
inductive LiteralEnd (quote : Char) : Bool → List Char → LiteralReading → Prop where
  | closed {escapes : Bool} {rest : List Char} :
      LiteralEnd quote escapes (quote :: rest) ⟨.string, [], [quote], rest⟩
  | lineEnd {rest : List Char} (h : ∀ c ∈ rest.head?, c = '\r' ∨ c = '\n') :
      LiteralEnd quote false rest ⟨.fault .unterminatedString, [], [], rest⟩
  | endOfText : LiteralEnd quote true [] ⟨.fault .unterminatedString, [], [], []⟩
  | backslash : LiteralEnd quote true ['\\'] ⟨.fault .unterminatedString, ['\\'], [], []⟩
  | invalidEscape {cs : List Char} {g : Glyph} {gs : List Glyph} (hcs : Glyph.ofChars cs = g :: gs)
      (h : ∀ c ∈ escapeMarks, g ≠ .char c) :
      LiteralEnd quote true ('\\' :: cs)
        ⟨.fault .invalidEscape, '\\' :: g.chars, [], gs.flatMap Glyph.chars⟩

-- The reading of the text after an opening quote.
inductive ReadsLiteral (quote : Char) (escapes : Bool) (text : List Char) :
    LiteralReading → Prop where
  | intro {content after : List Char} {l : LiteralReading} (htext : text = content ++ after)
      (hcontent : LiteralText quote escapes content)
      (hlongest : ∀ cs, LiteralText quote escapes cs → cs <+: text → cs.length ≤ content.length)
      (hend : LiteralEnd quote escapes after l) : ReadsLiteral quote escapes text (l.after content)

-- The token that a reader gives for a literal, and the reader after it.
structure Reader.GivesLiteral (r : Reader) (quote : Char) (l : LiteralReading) (t : Token)
    (r' : Reader) : Prop where
  kind_eq : t.kind = l.kind
  text_eq : t.text.toList = l.lexeme
  -- The text of the token starts after the quote.
  start_eq : t.start = r.cursor.offset + quote.utf8Size
  pos_eq : t.pos = r.cursor.pos.next (.char quote)
  source_eq : r'.source = r.source
  options_eq : r'.options = r.options
  stopsIn : r'.cursor.StopsIn r.source
  offset_eq : r'.cursor.offset =
    r.cursor.offset + Text.byteSize (quote :: (l.lexeme ++ l.closing))
  rest_eq : r'.cursor.rest.flatMap Glyph.chars = l.rest

-- The escaped content of a literal, read with up to so many hex digits at once after each escape.
def escapedContentBy (limit : Char → Nat) (quote : Char) :
    List Glyph → List Glyph × TokenKind
  | [] => ([], .fault .unterminatedString)
  | .char '\\' :: [] => ([.char '\\'], .fault .unterminatedString)
  | .char '\\' :: .char c :: gs =>
      if isEscapable c then
        let hex := (gs.take (limit c)).takeWhile (Glyph.is Char.isHexDigit)
        let (content, kind) := escapedContentBy limit quote (gs.drop hex.length)
        (.char '\\' :: .char c :: (hex ++ content), kind)
      else
        ([.char '\\', .char c], .fault .invalidEscape)
  | .char '\\' :: .lineEnd e :: _ => ([.char '\\', .lineEnd e], .fault .invalidEscape)
  | g :: gs =>
      if g = .char quote then
        ([], .string)
      else
        let (content, kind) := escapedContentBy limit quote gs
        (g :: content, kind)
termination_by gs => gs.length
decreasing_by all_goals simp only [List.length_cons, List.length_drop]; omega

section

variable {quote c : Char} {escapes : Bool} {item item' cs ds text rest : List Char}
  {l l' : LiteralReading}

theorem ne_of_isQuote (hquote : isQuote quote = true) :
    quote ≠ '\\' ∧ quote ≠ '\r' ∧ quote ≠ '\n' := by
  simp only [isQuote, Bool.or_eq_true, beq_iff_eq] at hquote
  rcases hquote with rfl | rfl <;> decide

theorem isEscapable_iff : isEscapable c = true ↔ c ∈ escapeMarks := by
  simp [isEscapable, escapeMarks, or_assoc]

theorem LiteralItem.ne_nil (h : LiteralItem quote escapes item) : item ≠ [] := by
  cases h <;> exact List.cons_ne_nil _ _

-- No two items start a text.
theorem LiteralItem.eq_of_isPrefix (h : LiteralItem quote escapes item)
    (h' : LiteralItem quote escapes item') (hitem : item <+: text) (hitem' : item' <+: text) :
    item = item' := by
  obtain ⟨as, rfl⟩ := hitem
  cases h <;> cases h' <;> simp_all [eq_comm]

theorem LiteralText.single (h : LiteralItem quote escapes item) :
    LiteralText quote escapes item := by
  simpa using LiteralText.cons h .nil

theorem LiteralText.append (hcs : LiteralText quote escapes cs)
    (hds : LiteralText quote escapes ds) : LiteralText quote escapes (cs ++ ds) := by
  induction hcs with
  | nil => exact hds
  | cons hitem _ ih =>
      rw [List.append_assoc]
      exact .cons hitem ih

theorem LiteralText.of_forall (h : ∀ c ∈ cs, LiteralItem quote escapes [c]) :
    LiteralText quote escapes cs := by
  induction cs with
  | nil => exact .nil
  | cons c cs ih =>
      obtain ⟨hc, hcs⟩ := List.forall_mem_cons.mp h
      exact .cons hc (ih hcs)

-- A run of items before a place where no item follows goes as far as any other one.
theorem LiteralText.isPrefix (hcs : LiteralText quote escapes cs)
    (hds : LiteralText quote escapes ds)
    (hstop : ∀ item, LiteralItem quote escapes item → ¬ item <+: rest)
    (hinitial : ds <+: cs ++ rest) : ds <+: cs := by
  induction hcs generalizing ds with
  | nil =>
      cases hds with
      | nil => exact List.nil_prefix
      | cons hitem _ =>
          exact absurd ((List.prefix_append _ _).trans hinitial) (hstop _ hitem)
  | @cons item cs hitem _ ih =>
      cases hds with
      | nil => exact List.nil_prefix
      | @cons item' ds hitem' hds =>
          rw [List.append_assoc] at hinitial
          obtain rfl := hitem.eq_of_isPrefix hitem' (List.prefix_append _ _)
            ((List.prefix_append _ _).trans hinitial)
          exact (List.prefix_append_right_inj item).mpr
            (ih hds ((List.prefix_append_right_inj item).mp hinitial))

theorem ofChars_cons_of_mem (hc : c ∈ escapeMarks) (cs : List Char) :
    Glyph.ofChars (c :: cs) = .char c :: Glyph.ofChars cs := by
  apply Glyph.ofChars_cons
  constructor <;> (rintro rfl; revert hc; decide)

-- No item follows where a literal ends.
theorem LiteralEnd.stop (hquote : isQuote quote = true) (h : LiteralEnd quote escapes rest l) :
    ∀ item, LiteralItem quote escapes item → ¬ item <+: rest := by
  obtain ⟨hback, hreturn, hfeed⟩ := ne_of_isQuote hquote
  intro item hitem hinitial
  cases h with
  | closed =>
      have hne := hback.symm
      cases hitem <;> simp_all
  | lineEnd h =>
      cases hitem with
      | plain hc =>
          obtain ⟨_, rfl⟩ := hinitial
          simp_all
  | endOfText => exact hitem.ne_nil (List.prefix_nil.mp hinitial)
  | backslash => cases hitem <;> simp_all
  | invalidEscape hcs h =>
      cases hitem with
      | char hc => simp_all
      | @escape c hc =>
          obtain ⟨_, hinitial⟩ := List.cons_prefix_cons.mp hinitial
          obtain ⟨cs, rfl⟩ := hinitial
          rw [List.singleton_append, ofChars_cons_of_mem hc] at hcs
          exact h c hc (List.cons.inj hcs).1.symm

theorem LiteralEnd.unique (hquote : isQuote quote = true) (h : LiteralEnd quote escapes rest l)
    (h' : LiteralEnd quote escapes rest l') : l = l' := by
  obtain ⟨hback, hreturn, hfeed⟩ := ne_of_isQuote hquote
  cases h <;> cases h' <;> simp_all [Glyph.ofChars]

-- Nothing of the text is lost.
theorem LiteralEnd.text_eq (h : LiteralEnd quote escapes rest l) :
    rest = l.lexeme ++ (l.closing ++ l.rest) := by
  cases h with
  | @invalidEscape cs g gs hcs h =>
      have hchars := Glyph.flatMap_chars_ofChars cs
      rw [hcs, List.flatMap_cons] at hchars
      simp [hchars]
  | _ => simp

theorem LiteralEnd.closing_eq (h : LiteralEnd quote escapes rest l) :
    l.closing = if l.kind = .string then [quote] else [] := by
  cases h <;> rfl

theorem ReadsLiteral.of_end (hquote : isQuote quote = true)
    (hcontent : LiteralText quote escapes cs) (hend : LiteralEnd quote escapes rest l) :
    ReadsLiteral quote escapes (cs ++ rest) (l.after cs) := by
  refine .intro rfl hcontent (fun ds hds hinitial => ?_) hend
  exact (hcontent.isPrefix hds (hend.stop hquote) hinitial).length_le

theorem ReadsLiteral.append (hquote : isQuote quote = true)
    (hcs : LiteralText quote escapes cs) (h : ReadsLiteral quote escapes text l) :
    ReadsLiteral quote escapes (cs ++ text) (l.after cs) := by
  cases h with
  | @intro content rest l htext hcontent _ hend =>
      have hall := ReadsLiteral.of_end hquote (hcs.append hcontent) hend
      rw [htext, ← List.append_assoc]
      simpa [LiteralReading.after] using hall

-- A text is read in one way.
theorem ReadsLiteral.unique (hquote : isQuote quote = true)
    (h : ReadsLiteral quote escapes text l) (h' : ReadsLiteral quote escapes text l') : l = l' := by
  cases h with
  | @intro content rest l htext hcontent hlongest hend =>
      cases h' with
      | @intro content' rest' l' htext' hcontent' hlongest' hend' =>
          have hinitial := hcontent.isPrefix hcontent' (hend.stop hquote)
            ⟨rest', by rw [← htext', htext]⟩
          have hlength := hlongest' content hcontent ⟨rest, htext.symm⟩
          obtain rfl := hinitial.eq_of_length_le hlength
          obtain rfl := List.append_cancel_left (htext.symm.trans htext')
          rw [hend.unique hquote hend']

theorem ReadsLiteral.text_eq (h : ReadsLiteral quote escapes text l) :
    text = l.lexeme ++ (l.closing ++ l.rest) := by
  cases h with
  | intro htext _ _ hend =>
      rw [htext, hend.text_eq]
      simp [LiteralReading.after]

theorem ReadsLiteral.closing_eq (h : ReadsLiteral quote escapes text l) :
    l.closing = if l.kind = .string then [quote] else [] := by
  cases h with
  | intro htext _ _ hend => exact hend.closing_eq

end

section

variable {quote : Char} {gs : List Glyph}

-- The content is in glyphs what the grammar reads in characters.
def Piece.ContentReads (quote : Char) (escapes : Bool) (gs content : List Glyph)
    (kind : TokenKind) : Prop :=
  ∃ l, ReadsLiteral quote escapes (gs.flatMap Glyph.chars) l ∧ kind = l.kind ∧
    content.flatMap Glyph.chars = l.lexeme

theorem Piece.ContentReads.append {escapes : Bool} {content : List Glyph} {kind : TokenKind}
    (as : List Glyph) (hquote : isQuote quote = true)
    (has : LiteralText quote escapes (as.flatMap Glyph.chars))
    (h : ContentReads quote escapes gs content kind) :
    ContentReads quote escapes (as ++ gs) (as ++ content) kind := by
  obtain ⟨l, hl, hkind, hcontent⟩ := h
  refine ⟨l.after (as.flatMap Glyph.chars), ?_, hkind, ?_⟩
  · rw [List.flatMap_append]
    exact hl.append hquote has
  · rw [List.flatMap_append, hcontent]
    rfl

theorem Piece.ContentReads.of_end {escapes : Bool} {content : List Glyph} {kind : TokenKind}
    {l : LiteralReading} (hquote : isQuote quote = true)
    (hend : LiteralEnd quote escapes (gs.flatMap Glyph.chars) l) (hkind : kind = l.kind)
    (hcontent : content.flatMap Glyph.chars = l.lexeme) :
    ContentReads quote escapes gs content kind :=
  ⟨l.after [], ReadsLiteral.of_end hquote .nil hend, hkind, hcontent⟩

theorem Piece.escapedContent_reads (hquote : isQuote quote = true)
    (hgs : gs = Glyph.ofChars (gs.flatMap Glyph.chars)) :
    ContentReads quote true gs (escapedContent quote gs).1 (escapedContent quote gs).2 := by
  obtain ⟨hback, hreturn, hfeed⟩ := ne_of_isQuote hquote
  fun_induction escapedContent quote gs with
  | case1 => exact .of_end hquote .endOfText rfl rfl
  | case2 => exact .of_end hquote .backslash rfl rfl
  | case3 g gs hg content kind he ih =>
      have hread := ih (Glyph.eq_ofChars_of_append [.char '\\', g] hgs)
      rw [he] at hread
      cases g with
      | lineEnd e => cases hg
      | char c =>
          have hitem : LiteralItem quote true ['\\', c] := .escape (isEscapable_iff.mp hg)
          exact hread.append [.char '\\', .char c] hquote (.single hitem)
  | case4 g gs hg =>
      have hafter := Glyph.eq_ofChars_of_append [.char '\\'] hgs
      have hinvalid : ∀ c ∈ escapeMarks, g ≠ .char c := by
        rintro c hc rfl
        exact hg (isEscapable_iff.mpr hc)
      exact .of_end hquote (.invalidEscape hafter.symm hinvalid) rfl (by simp [Glyph.chars])
  | case5 gs => exact .of_end hquote .closed rfl rfl
  | case6 g gs hlast hnext hg content kind he ih =>
      have hread := ih (Glyph.eq_ofChars_of_append [g] hgs)
      rw [he] at hread
      refine hread.append [g] hquote (.of_forall fun c hc => .char ?_)
      rw [List.flatMap_singleton] at hc
      cases g with
      | char d =>
          obtain rfl : c = d := List.mem_singleton.mp hc
          refine ⟨fun h => hg (by rw [h]), ?_⟩
          rintro rfl
          cases gs with
          | nil => exact hlast rfl rfl
          | cons g' gs => exact hnext g' gs rfl rfl
      | lineEnd e =>
          rcases Glyph.eq_of_mem_chars_lineEnd hc with rfl | rfl
          · exact ⟨hreturn.symm, by decide⟩
          · exact ⟨hfeed.symm, by decide⟩

theorem Piece.plainContent_reads (hquote : isQuote quote = true)
    (hproper : ∀ g ∈ gs, g.Proper) :
    ContentReads quote false gs (plainContent quote gs).1 (plainContent quote gs).2 := by
  let inside := gs.takeWhile (Glyph.is (· != quote))
  let after := gs.dropWhile (Glyph.is (· != quote))
  have hsplit : inside ++ after = gs := List.takeWhile_append_dropWhile
  have hdrop : gs.drop inside.length = after := by rw [← hsplit, List.drop_left]
  have hinside : LiteralText quote false (inside.flatMap Glyph.chars) := by
    refine .of_forall fun c hc => .plain ?_
    obtain ⟨g, hg, hcg⟩ := List.mem_flatMap.mp hc
    have hne := List.mem_takeWhile_imp hg
    cases g with
    | lineEnd e => cases hne
    | char d =>
        obtain rfl : c = d := List.mem_singleton.mp hcg
        exact ⟨by simpa [Glyph.is] using hne, hproper _ ((List.takeWhile_prefix _).subset hg)⟩
  have hhead : ∀ g ∈ after.head?, g.is (· != quote) = false := by
    intro g hg
    have hfirst := List.head?_dropWhile_not (Glyph.is (· != quote)) gs
    rw [Option.mem_def.mp hg] at hfirst
    simpa using hfirst
  have hread : (plainContent quote gs) = if after.head? = some (.char quote) then
      (inside, .string) else (inside, .fault .unterminatedString) := by
    rw [← hdrop]
    rfl
  have happend {kind : TokenKind} (h : ContentReads quote false after [] kind) :
      ContentReads quote false gs inside kind := by
    simpa [hsplit] using h.append inside hquote hinside
  rw [hread]
  clear_value after
  cases after with
  | nil => exact happend (.of_end hquote (.lineEnd (by simp)) rfl rfl)
  | cons g rest =>
      cases g with
      | char d =>
          obtain rfl : d = quote := by simpa [Glyph.is] using hhead _ rfl
          rw [List.head?_cons, if_pos rfl]
          exact happend (.of_end hquote .closed rfl rfl)
      | lineEnd e =>
          obtain ⟨d, ds, he, hd⟩ := Glyph.chars_lineEnd_eq_cons e
          refine happend (.of_end hquote (.lineEnd fun c hc => ?_) rfl rfl)
          rw [List.flatMap_cons, he] at hc
          obtain rfl := Option.some.inj hc
          exact hd

theorem Piece.literal_reads (escapes : Bool) (hquote : isQuote quote = true)
    (hgs : gs = Glyph.ofChars (gs.flatMap Glyph.chars)) :
    ContentReads quote escapes gs (literal escapes quote gs).lexeme
      (literal escapes quote gs).kind := by
  cases escapes with
  | false =>
      refine plainContent_reads hquote fun g hg => ?_
      rw [hgs] at hg
      exact Glyph.proper_ofChars _ g hg
  | true => exact escapedContent_reads hquote hgs

theorem ne_of_isHexDigit (hquote : isQuote quote = true) {c : Char} (h : c.isHexDigit = true) :
    c ≠ quote ∧ c ≠ '\\' := by
  simp only [isQuote, Bool.or_eq_true, beq_iff_eq] at hquote
  constructor
  · rintro rfl
    rcases hquote with rfl | rfl <;> exact absurd h (by decide)
  · rintro rfl
    exact absurd h (by decide)

-- Digits are characters like any other ones inside a literal.
theorem escapedContent_append_hex (hquote : isQuote quote = true) {hex : List Glyph}
    (hhex : ∀ g ∈ hex, g.is Char.isHexDigit = true) (gs : List Glyph) :
    escapedContent quote (hex ++ gs) =
      (hex ++ (escapedContent quote gs).1, (escapedContent quote gs).2) := by
  induction hex with
  | nil => rfl
  | cons g hex ih =>
      obtain ⟨hg, hrest⟩ := List.forall_mem_cons.mp hhex
      cases g with
      | lineEnd e => cases hg
      | char c =>
          obtain ⟨hclose, hback⟩ := ne_of_isHexDigit hquote hg
          rw [List.cons_append, escapedContent, if_neg (by simpa using hclose), ih hrest]
          · rfl
          · exact fun h => absurd (Glyph.char.inj h) hback
          · exact fun _ _ h => absurd (Glyph.char.inj h) hback

theorem escapedContentBy_eq (limit : Char → Nat) (hquote : isQuote quote = true)
    (gs : List Glyph) : escapedContentBy limit quote gs = escapedContent quote gs := by
  fun_induction escapedContentBy limit quote gs with
  | case1 => rfl
  | case2 => rfl
  | case3 c gs hc hex content kind he ih =>
      have hinitial : hex <+: gs := (List.takeWhile_prefix _).trans (List.take_prefix _ _)
      have hhex : ∀ g ∈ hex, g.is Char.isHexDigit = true := fun g hg => List.mem_takeWhile_imp hg
      have hread := escapedContent_append_hex hquote hhex (gs.drop hex.length)
      rw [← ih, he, List.prefix_iff_eq_append.mp hinitial] at hread
      rw [escapedContent, if_pos (by exact hc), hread]
  | case4 c gs hc => rw [escapedContent, if_neg (by exact hc)]
  | case5 e gs => rfl
  | case6 gs hlast hchar hline =>
      rw [escapedContent, if_pos rfl]
      · exact hlast
      · exact fun _ _ h => absurd (Glyph.char.inj h) (ne_of_isQuote hquote).1
  | case7 g gs hlast hchar hline hg content kind he ih =>
      rw [escapedContent, if_neg hg, ← ih, he]
      · exact hlast
      · rintro g' gs' rfl rfl
        cases g' with
        | char c => exact hchar c gs' rfl rfl
        | lineEnd e => exact hline e gs' rfl rfl

end

namespace Reader

variable {r : Reader} {quote : Char} {escapes : Bool} {text : List Char} {l : LiteralReading}

theorem exists_readsLiteral (escapes : Bool) (hquote : isQuote quote = true) (text : List Char) :
    ∃ l, ReadsLiteral quote escapes text l := by
  have hgs : Glyph.ofChars text =
      Glyph.ofChars ((Glyph.ofChars text).flatMap Glyph.chars) := by
    rw [Glyph.flatMap_chars_ofChars]
  obtain ⟨l, hl, -, -⟩ := literal_reads escapes hquote hgs
  rw [Glyph.flatMap_chars_ofChars] at hl
  exact ⟨l, hl⟩

theorem exists_givesLiteral (hquote : isQuote quote = true) (hr : r.cursor.StopsIn r.source)
    (htext : r.cursor.rest.flatMap Glyph.chars = quote :: text)
    (hl : ReadsLiteral quote escapes text l) :
    ∃ t r', r.readLiteral escapes = .ok (t, r') ∧ r.GivesLiteral quote l t r' := by
  obtain ⟨hback, hreturn, hfeed⟩ := ne_of_isQuote hquote
  obtain ⟨gs, hrest⟩ := Glyph.exists_of_chars_eq_cons htext ⟨hreturn, hfeed⟩
  have hgstext : gs.flatMap Glyph.chars = text := by
    rw [hrest] at htext
    exact (List.cons.inj htext).2
  have hgs : gs = Glyph.ofChars (gs.flatMap Glyph.chars) := by
    obtain ⟨-, -, -, hown⟩ := hr.exists_eq_append
    rw [hrest] at hown
    exact Glyph.eq_ofChars_of_append [.char quote] hown
  obtain ⟨l', hl', hkind, hlexeme⟩ := literal_reads escapes hquote hgs
  rw [hgstext] at hl'
  obtain rfl := hl.unique hquote hl'
  have hinitial : (literal escapes quote gs).glyphs <+: r.cursor.rest := by
    rw [hrest]
    exact (fits_literal escapes gs hquote).glyphs_isPrefix
  have hread : r.readLiteral escapes =
      .ok ((r.cursor.take (literal escapes quote gs)).1,
        { r with cursor := (r.cursor.take (literal escapes quote gs)).2 }) := by
    simp only [readLiteral, hrest, hquote, if_true]
  have htake := r.cursor.take_eq hinitial
  have hclosing : (literal escapes quote gs).closing.flatMap Glyph.chars = l.closing := by
    have hshape : (literal escapes quote gs).closing =
        if (literal escapes quote gs).kind = .string then [.char quote] else [] := rfl
    rw [hshape, hkind, hl.closing_eq]
    split <;> rfl
  have hglyphs : (literal escapes quote gs).glyphs.flatMap Glyph.chars =
      quote :: (l.lexeme ++ l.closing) := by
    rw [Piece.glyphs, List.flatMap_append, List.flatMap_append, hlexeme, hclosing]
    rfl
  refine ⟨_, _, hread, ?_⟩
  rw [htake]
  constructor
  · exact hkind
  · rw [Glyph.text, String.toList_ofList, hlexeme]
  · change r.cursor.offset + Glyph.size [.char quote] = _
    simp [Glyph.width, Glyph.chars]
  · rfl
  · rfl
  · rfl
  · have hstop := hr.take (literal escapes quote gs)
    rwa [htake] at hstop
  · rw [← hglyphs, Glyph.byteSize_flatMap_chars]
  · obtain ⟨left, hleft⟩ := hinitial
    rw [← hleft, List.flatMap_append, hglyphs, hl.text_eq, List.cons_append,
      List.append_assoc] at htext
    rw [← hleft, List.drop_left]
    exact List.append_cancel_left (List.append_cancel_left (List.cons.inj htext).2)

-- A literal is read by its grammar, which reads each text in one way. The digits after an escape
-- are content like any other characters: how many there are makes no difference to how the literal
-- ends, and it makes none to pass some of them at once.
theorem readLiteral_follows_grammar (quote : Char) (hquote : isQuote quote = true) :
    (∀ (r : Reader) (escapes : Bool) (text : List Char), r.cursor.StopsIn r.source →
      r.cursor.rest.flatMap Glyph.chars = quote :: text →
      ∃ l t r', (∀ l', ReadsLiteral quote escapes text l' ↔ l' = l) ∧
        r.readLiteral escapes = .ok (t, r') ∧ r.GivesLiteral quote l t r') ∧
    (∀ (before after : List Char), LiteralText quote true before → ∀ mark ∈ ['x', 'u'],
      ∃ l : LiteralReading, ∀ hex : List Char, (∀ d ∈ hex, d.isHexDigit = true) →
        ReadsLiteral quote true (before ++ '\\' :: mark :: (hex ++ after))
          (l.after (before ++ '\\' :: mark :: hex))) ∧
    ∀ (limit : Char → Nat) (gs : List Glyph),
      escapedContentBy limit quote gs = escapedContent quote gs := by
  refine ⟨?_, ?_, fun limit gs => escapedContentBy_eq limit hquote gs⟩
  · intro r escapes text hr htext
    obtain ⟨l, hl⟩ := exists_readsLiteral escapes hquote text
    obtain ⟨t, r', hread, hgives⟩ := exists_givesLiteral hquote hr htext hl
    refine ⟨l, t, r', fun l' => ⟨fun hl' => hl'.unique hquote hl, ?_⟩, hread, hgives⟩
    rintro rfl
    exact hl
  · intro before after hbefore mark hmark
    obtain ⟨l, hl⟩ := exists_readsLiteral true hquote after
    refine ⟨l, fun hex hhex => ?_⟩
    have hescape : LiteralItem quote true ['\\', mark] := .escape (by
      simp only [escapeMarks, List.mem_cons] at hmark ⊢
      tauto)
    have hdigits : LiteralText quote true hex :=
      .of_forall fun d hd => .char (ne_of_isHexDigit hquote (hhex d hd))
    have hall := hl.append hquote (hbefore.append ((LiteralText.single hescape).append hdigits))
    simpa using hall

theorem readLiteral_escaped_quote :
    let r := ofText {} "'a\\'\\x1'b"
    ∃ t r', r.readLiteral true = .ok (t, r') ∧
      r.GivesLiteral '\'' ⟨.string, "a\\'\\x1".toList, ['\''], ['b']⟩ t r' := by
  intro r
  obtain ⟨l, t, r', hreads, hread, hgives⟩ :=
    (readLiteral_follows_grammar '\'' (by decide)).1 r true "a\\'\\x1'b".toList
      (Cursor.stopsIn_ofText _) (by decide)
  have hcontent : LiteralText '\'' true "a\\'\\x1".toList :=
    .cons (.char (by decide)) (.cons (.escape (by decide))
      (.cons (.escape (by decide)) (.cons (.char (by decide)) .nil)))
  have hend : LiteralEnd '\'' true ['\'', 'b'] ⟨.string, [], ['\''], ['b']⟩ := .closed
  obtain rfl := (hreads _).mp (.of_end (by decide) hcontent hend)
  exact ⟨t, r', hread, hgives⟩

end Reader

end UnitCalc
