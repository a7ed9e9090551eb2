import UnitCalc.Proofs.Token.Tiling
import UnitCalc.Token.Lookahead

namespace UnitCalc

namespace Cursor

-- The end token takes the reader to the end of the text, and is read there again.
theorem read_read_of_endOfFile {o : LexOptions} {c : Cursor}
    (h : (c.read o).1.kind = .endOfFile) : (c.read o).2.read o = c.read o := by
  rw [read_eq o c rfl] at h
  have hpiece := ((Piece.fits_atGlyph o _).eq_of_endOfFile h).2
  have hread : c.read o = (⟨.endOfFile, c.pos.after (Piece.trivia o.comments c.rest),
      c.offset + Glyph.size (Piece.trivia o.comments c.rest), ""⟩, (c.read o).2) := by
    rw [read_eq o c rfl]
    simp [Piece.ofGlyphs, hpiece, Glyph.text]
  have hend : (c.read o).2 = ⟨[], c.offset + Glyph.size (Piece.trivia o.comments c.rest),
      c.pos.after (Piece.trivia o.comments c.rest)⟩ := by
    have hrest : (c.read o).2.rest = [] := (read_of_endOfFile (by rw [hread])).1
    rw [read_eq o c rfl] at hrest ⊢
    simp only [Piece.ofGlyphs, hpiece, Piece.glyphs, List.append_nil] at hrest ⊢
    rw [hrest]
  have hnil : Piece.trivia o.comments [] = [] := by simp [Piece.trivia]
  rw [hread, hend, read_eq o _ rfl]
  simp [Piece.ofGlyphs, Piece.atGlyph, Piece.glyphs, hnil, Glyph.text]

end Cursor

namespace Reader

-- The token of the read after `i` others.
def nth (r : Reader) (i : Nat) : Token :=
  (r.after i).read.1

theorem nth_succ (r : Reader) (i : Nat) : r.nth (i + 1) = r.read.2.nth i := by
  rw [nth, after_succ, nth]

theorem nth_succ_of_isEnd {r : Reader} {i : Nat} (h : (r.nth i).isEnd = true) :
    r.nth (i + 1) = r.nth i := by
  have hkind : ((r.after i).cursor.read (r.after i).options).1.kind = .endOfFile := by
    simpa [nth, read, Token.isEnd] using h
  have hread := congrArg Prod.fst (Cursor.read_read_of_endOfFile hkind)
  exact hread

end Reader

namespace Lookahead

-- The token that is handed out after `i` others. The sequence goes on forever, with the end token
-- again and again after the tokens of the text.
def nth (l : Lookahead) (i : Nat) : Token :=
  l.waiting[i]?.getD (l.reader.nth (i - l.buffer.count))

-- The buffer holds no more than it has slots for, and nothing comes after the end token but the end
-- token.
structure Sound (l : Lookahead) : Prop where
  count_le : l.buffer.count ≤ capacity
  nth_succ : ∀ i, (l.nth i).isEnd = true → l.nth (i + 1) = l.nth i

theorem nth_of_lt {l : Lookahead} {i : Nat} (h : i < l.buffer.count) :
    l.nth i = l.buffer.get i h := by
  simp [nth, waiting, RingBuffer.getElem?_toList _ h]

theorem nth_of_le {l : Lookahead} {i : Nat} (h : l.buffer.count ≤ i) :
    l.nth i = l.reader.nth (i - l.buffer.count) := by
  rw [nth, List.getElem?_eq_none (by simpa [waiting] using h), Option.getD_none]

theorem sound_ofText (o : LexOptions) (source : String) : (ofText o source).Sound where
  count_le := Nat.zero_le _
  nth_succ := by
    intro i h
    rw [nth_of_le (Nat.zero_le _)] at h ⊢
    rw [nth_of_le (Nat.zero_le _)]
    exact Reader.nth_succ_of_isEnd h

-- Reading ahead moves a token from the reader to the buffer.
theorem nth_readAhead {l : Lookahead} (h : l.buffer.count < capacity) :
    l.readAhead.nth = l.nth := by
  funext i
  have hwaiting : l.readAhead.waiting = l.waiting ++ [l.reader.read.1] :=
    RingBuffer.toList_push h l.reader.read.1
  have hlength : l.waiting.length = l.buffer.count := RingBuffer.length_toList l.buffer
  by_cases hi : i < l.buffer.count
  · rw [nth, nth, hwaiting, List.getElem?_append_left (by omega),
      List.getElem?_eq_getElem (by omega)]
    rfl
  · by_cases hlast : i = l.buffer.count
    · rw [nth, hwaiting, hlast, ← hlength, List.getElem?_concat_length, nth_of_le (by omega)]
      simp [Reader.nth, Reader.after, hlength]
    · obtain ⟨j, rfl⟩ : ∃ j, i = l.buffer.count + (j + 1) := ⟨i - l.buffer.count - 1, by omega⟩
      rw [nth_of_le (by simp only [count_readAhead]; omega), nth_of_le (by omega)]
      have hreader := Reader.nth_succ l.reader j
      simp only [count_readAhead]
      rw [show l.buffer.count + (j + 1) - (l.buffer.count + 1) = j by omega,
        show l.buffer.count + (j + 1) - l.buffer.count = j + 1 by omega, hreader]
      rfl

-- What looking ahead by `k` tokens leaves: the same tokens to hand out, and in the buffer the token
-- looked for or the end token.
theorem fill_spec {k : Nat} (hk : k < capacity) {l : Lookahead} (h : l.Sound) :
    (fill k l).nth = l.nth ∧ (fill k l).Sound ∧ (fill k l).previous = l.previous ∧
      (k < (fill k l).buffer.count ∨ (fill k l).endWaits = true) := by
  fun_induction fill k l with
  | case1 l hmore ih =>
      have hnth : l.readAhead.nth = l.nth := nth_readAhead (by omega)
      have hsound : l.readAhead.Sound := by
        refine ⟨?_, ?_⟩
        · simp only [count_readAhead]
          omega
        · rw [hnth]
          exact h.nth_succ
      obtain ⟨htokens, hfilled, hprevious, hstop⟩ := ih hsound
      exact ⟨htokens.trans hnth, hfilled, hprevious, hstop⟩
  | case2 l hdone =>
      refine ⟨rfl, h, rfl, ?_⟩
      by_cases hcount : k < l.buffer.count
      · exact .inl hcount
      · have hend : l.endWaits ≠ false := fun hend => hdone ⟨by omega, hend⟩
        exact .inr (by simpa using hend)

-- Nothing but the end token is handed out from it on.
theorem Sound.nth_add_of_isEnd {l : Lookahead} (h : l.Sound) {i : Nat}
    (hend : (l.nth i).isEnd = true) (j : Nat) : l.nth (i + j) = l.nth i := by
  induction j with
  | zero => rfl
  | succ j ih =>
      have hlast : (l.nth (i + j)).isEnd = true := by rw [ih, hend]
      rw [← Nat.add_assoc, h.nth_succ _ hlast, ih]

theorem Sound.exists_peek_eq {l : Lookahead} (h : l.Sound) {k : Nat} (hk : k < capacity) :
    ∃ l', l.peek k = .ok (l.nth k, l') ∧ l'.Sound ∧ l'.nth = l.nth ∧ l'.previous = l.previous ∧
      0 < l'.buffer.count := by
  obtain ⟨hnth, hsound, hprevious, hstop⟩ := fill_spec hk h
  have hpos := count_fill_pos k l
  refine ⟨fill k l, ?_, hsound, hnth, hprevious, hpos⟩
  have hget : (fill k l).nth (min k ((fill k l).buffer.count - 1)) = (fill k l).nth k := by
    rcases hstop with hcount | hend
    · rw [Nat.min_eq_left (by omega)]
    · have hlast : ((fill k l).nth ((fill k l).buffer.count - 1)).isEnd = true := by
        rw [nth_of_lt (by omega)]
        simpa [endWaits, hpos] using hend
      by_cases hcount : k < (fill k l).buffer.count
      · rw [Nat.min_eq_left (by omega)]
      · have hsame := hsound.nth_add_of_isEnd hlast (k - ((fill k l).buffer.count - 1))
        rw [show (fill k l).buffer.count - 1 + (k - ((fill k l).buffer.count - 1)) = k by omega]
          at hsame
        rw [Nat.min_eq_right (by omega), hsame]
  rw [nth_of_lt (by omega), hnth] at hget
  simp only [peek, if_pos hk, hget]

theorem peek_of_le {l : Lookahead} {k : Nat} (hk : capacity ≤ k) :
    l.peek k = .error (.lookaheadExceeded k capacity) := by
  rw [peek, if_neg (by omega)]

-- How a lookahead has handed out some tokens.
structure HandsOut (l : Lookahead) (ts : List Token) (l' : Lookahead) : Prop where
  sound : l'.Sound
  tokens : ts = (List.range ts.length).map l.nth
  nth : ∀ i, l'.nth i = l.nth (ts.length + i)
  previous : l'.previous = ts.getLast?.or l.previous

namespace HandsOut

variable {l l' l'' : Lookahead} {ts us : List Token}

theorem nil (h : l'.Sound) (hnth : l'.nth = l.nth) (hprevious : l'.previous = l.previous) :
    HandsOut l [] l' where
  sound := h
  tokens := rfl
  nth := by simp [hnth]
  previous := by simp [hprevious]

theorem append (h : HandsOut l ts l') (h' : HandsOut l' us l'') : HandsOut l (ts ++ us) l'' where
  sound := h'.sound
  tokens := by
    have hus : us = (List.range us.length).map fun i => l.nth (ts.length + i) := by
      have hnth : l'.nth = fun i => l.nth (ts.length + i) := funext h.nth
      rw [← hnth]
      exact h'.tokens
    have hts := h.tokens
    rw [List.length_append, List.range_add, List.map_append, ← hts, List.map_map]
    exact congrArg (ts ++ ·) hus
  nth := by
    intro i
    rw [h'.nth, h.nth, List.length_append, Nat.add_assoc]
  previous := by
    rw [h'.previous, h.previous, List.getLast?_append, Option.or_assoc]

end HandsOut

theorem fst_consume (l : Lookahead) : l.consume.1 = l.nth 0 := by
  by_cases hpos : 0 < l.buffer.count
  · rw [nth_of_lt hpos, consume, dif_pos hpos]
  · rw [nth_of_le (by omega), consume, dif_neg hpos, Nat.zero_sub]
    rfl

theorem nth_consume (l : Lookahead) (i : Nat) : l.consume.2.nth i = l.nth (i + 1) := by
  by_cases hpos : 0 < l.buffer.count
  · have hwaiting : l.consume.2.waiting = l.waiting.tail := by
      rw [consume, dif_pos hpos]
      exact RingBuffer.toList_dropFirst l.buffer
    have hcount : l.consume.2.buffer.count = l.buffer.count - 1 := by
      rw [consume, dif_pos hpos]
      rfl
    have hreader : l.consume.2.reader = l.reader := by
      rw [consume, dif_pos hpos]
    rw [nth, nth, hwaiting, List.getElem?_tail, hcount, hreader,
      show i - (l.buffer.count - 1) = i + 1 - l.buffer.count by omega]
  · have hzero : l.buffer.count = 0 := by omega
    rw [consume, dif_neg hpos, nth_of_le (by simp only; omega), nth_of_le (by omega), hzero,
      Nat.sub_zero, Nat.sub_zero, Reader.nth_succ]

theorem count_consume_le (l : Lookahead) : l.consume.2.buffer.count ≤ l.buffer.count := by
  by_cases hpos : 0 < l.buffer.count
  · rw [consume, dif_pos hpos]
    exact Nat.sub_le _ _
  · rw [consume, dif_neg hpos]

theorem previous_consume (l : Lookahead) : l.consume.2.previous = some l.consume.1 := by
  by_cases hpos : 0 < l.buffer.count
  · rw [consume, dif_pos hpos]
  · rw [consume, dif_neg hpos]

theorem Sound.handsOut_consume {l : Lookahead} (h : l.Sound) :
    HandsOut l [l.consume.1] l.consume.2 where
  sound := by
    refine ⟨Nat.le_trans l.count_consume_le h.count_le, fun i hend => ?_⟩
    rw [nth_consume] at hend ⊢
    rw [nth_consume, h.nth_succ _ hend]
  tokens := by simp [fst_consume]
  nth := by
    intro i
    rw [nth_consume, List.length_singleton, Nat.add_comm]
  previous := by rw [previous_consume]; rfl

theorem Sound.handsOut_consumeUpTo {l : Lookahead} (h : l.Sound) (n : Nat) :
    HandsOut l (l.consumeUpTo n).1 (l.consumeUpTo n).2 := by
  induction n generalizing l with
  | zero => exact .nil h rfl rfl
  | succ n ih =>
      have hfirst := h.handsOut_consume
      by_cases hend : l.consume.1.isEnd = true
      · simpa only [consumeUpTo, if_pos hend] using hfirst
      · simp only [consumeUpTo, if_neg hend]
        exact hfirst.append (ih hfirst.sound)

theorem Sound.handsOut_consumeAll {l : Lookahead} (h : l.Sound) :
    HandsOut l l.consumeAll.1 l.consumeAll.2 := by
  fun_induction consumeAll l with
  | case1 l hend => exact h.handsOut_consume
  | case2 l hend ts rest hrest ih =>
      have hfirst := h.handsOut_consume
      have hlater := ih hfirst.sound
      rw [hrest] at hlater
      exact hfirst.append hlater

-- What can be asked of a lookahead.
inductive Request where
  | peek (k : Nat)
  | consume
  | take (n : Nat)
  | takeAll

-- The answer to a request, and the lookahead after it. A request that fails changes nothing.
def respond (l : Lookahead) : Request → Except TokenError (List Token) × Lookahead
  | .peek k =>
      match l.peek k with
      | .ok (t, l') => (.ok [t], l')
      | .error e => (.error e, l)
  | .consume => (.ok [l.consume.1], l.consume.2)
  | .take n => (.ok (l.consumeUpTo n).1, (l.consumeUpTo n).2)
  | .takeAll => (.ok l.consumeAll.1, l.consumeAll.2)

-- The tokens that a request hands out. Those that are looked at stay.
def given (l : Lookahead) (q : Request) : List Token :=
  match q, (l.respond q).1 with
  | .peek _, _ => []
  | _, .ok ts => ts
  | _, .error _ => []

def afterAll (l : Lookahead) : List Request → Lookahead
  | [] => l
  | q :: qs => (l.respond q).2.afterAll qs

-- The answers to some requests in order.
def answers (l : Lookahead) : List Request → List (Except TokenError (List Token))
  | [] => []
  | q :: qs => (l.respond q).1 :: (l.respond q).2.answers qs

-- The tokens that some requests hand out in order.
def handedOut (l : Lookahead) : List Request → List Token
  | [] => []
  | q :: qs => l.given q ++ (l.respond q).2.handedOut qs

theorem Sound.handsOut_respond {l : Lookahead} (h : l.Sound) (q : Request) :
    HandsOut l (l.given q) (l.respond q).2 := by
  cases q with
  | peek k =>
      by_cases hk : k < capacity
      · obtain ⟨l', hpeek, hsound, hnth, hprevious, -⟩ := h.exists_peek_eq hk
        simp only [given, respond, hpeek]
        exact .nil hsound hnth hprevious
      · simp only [given, respond, peek_of_le (Nat.le_of_not_lt hk)]
        exact .nil h rfl rfl
  | consume => exact h.handsOut_consume
  | take n => exact h.handsOut_consumeUpTo n
  | takeAll => exact h.handsOut_consumeAll

theorem Sound.handsOut_afterAll {l : Lookahead} (h : l.Sound) (qs : List Request) :
    HandsOut l (l.handedOut qs) (l.afterAll qs) := by
  induction qs generalizing l with
  | nil => exact .nil h rfl rfl
  | cons q qs ih =>
      have hfirst := h.handsOut_respond q
      exact hfirst.append (ih hfirst.sound)

-- Lookaheads with the same tokens to hand out, however many of them wait.
structure Agree (l l' : Lookahead) : Prop where
  left : l.Sound
  right : l'.Sound
  nth : l.nth = l'.nth

namespace Agree

variable {l l' : Lookahead}

theorem fst_consume (h : Agree l l') : l.consume.1 = l'.consume.1 := by
  rw [Lookahead.fst_consume, Lookahead.fst_consume, h.nth]

theorem consume (h : Agree l l') : Agree l.consume.2 l'.consume.2 where
  left := h.left.handsOut_consume.sound
  right := h.right.handsOut_consume.sound
  nth := by
    funext i
    rw [nth_consume, nth_consume, h.nth]

theorem consumeUpTo (h : Agree l l') (n : Nat) :
    (l.consumeUpTo n).1 = (l'.consumeUpTo n).1 ∧
      Agree (l.consumeUpTo n).2 (l'.consumeUpTo n).2 := by
  induction n generalizing l l' with
  | zero => exact ⟨rfl, h⟩
  | succ n ih =>
      obtain ⟨htokens, hagree⟩ := ih h.consume
      have hfirst := h.fst_consume
      by_cases hend : l.consume.1.isEnd = true
      · have hend' : l'.consume.1.isEnd = true := by rwa [← hfirst]
        simp only [Lookahead.consumeUpTo, if_pos hend, if_pos hend']
        exact ⟨by rw [hfirst], h.consume⟩
      · have hend' : ¬ l'.consume.1.isEnd = true := by rwa [← hfirst]
        simp only [Lookahead.consumeUpTo, if_neg hend, if_neg hend']
        exact ⟨by rw [hfirst, htokens], hagree⟩

theorem consumeAll (h : Agree l l') :
    l.consumeAll.1 = l'.consumeAll.1 ∧ Agree l.consumeAll.2 l'.consumeAll.2 := by
  fun_induction Lookahead.consumeAll l generalizing l' with
  | case1 l hend =>
      have hend' : l'.consume.1.isEnd = true := by rwa [← h.fst_consume]
      rw [Lookahead.consumeAll, if_pos hend']
      exact ⟨by rw [h.fst_consume], h.consume⟩
  | case2 l hend ts rest hrest ih =>
      have hend' : ¬ l'.consume.1.isEnd = true := by rwa [← h.fst_consume]
      obtain ⟨htokens, hagree⟩ := ih h.consume
      rw [Lookahead.consumeAll, if_neg hend']
      rw [hrest] at htokens hagree
      generalize l'.consume.2.consumeAll = later at htokens hagree ⊢
      obtain ⟨us, rest'⟩ := later
      obtain rfl : ts = us := htokens
      exact ⟨by rw [h.fst_consume], hagree⟩

theorem respond (h : Agree l l') (q : Request) :
    (l.respond q).1 = (l'.respond q).1 ∧ Agree (l.respond q).2 (l'.respond q).2 := by
  cases q with
  | peek k =>
      by_cases hk : k < capacity
      · obtain ⟨m, hpeek, hsound, hnth, -, -⟩ := h.left.exists_peek_eq hk
        obtain ⟨m', hpeek', hsound', hnth', -, -⟩ := h.right.exists_peek_eq hk
        simp only [Lookahead.respond, hpeek, hpeek', h.nth]
        exact ⟨trivial, hsound, hsound', hnth.trans (h.nth.trans hnth'.symm)⟩
      · simp only [Lookahead.respond, peek_of_le (Nat.le_of_not_lt hk)]
        exact ⟨trivial, h⟩
  | consume => exact ⟨by rw [Lookahead.respond, Lookahead.respond, h.fst_consume], h.consume⟩
  | take n =>
      obtain ⟨htokens, hagree⟩ := h.consumeUpTo n
      exact ⟨by rw [Lookahead.respond, Lookahead.respond, htokens], hagree⟩
  | takeAll =>
      obtain ⟨htokens, hagree⟩ := h.consumeAll
      exact ⟨by rw [Lookahead.respond, Lookahead.respond, htokens], hagree⟩

theorem answers_eq (h : Agree l l') (qs : List Request) : l.answers qs = l'.answers qs := by
  induction qs generalizing l l' with
  | nil => rfl
  | cons q qs ih =>
      obtain ⟨hanswer, hagree⟩ := h.respond q
      rw [answers, answers, hanswer, ih hagree]

end Agree

-- The reads of a text give its tokens and then the end token again and again.
theorem map_nth_isPrefix (o : LexOptions) (source : String) {e : Token}
    (he : (lex o source).getLast? = some e) (hend : e.isEnd = true) (n : Nat) :
    (List.range n).map (ofText o source).nth <+: lex o source ++ List.replicate n e := by
  have hlast : (lex o source)[(lex o source).length - 1]? = some e := by
    rw [← List.getLast?_eq_getElem?, he]
  have hpos : 0 < (lex o source).length := by
    apply List.length_pos_iff.mpr
    rintro hnil
    simp [hnil] at he
  obtain ⟨tiles, htiles⟩ :=
    (Cursor.ofText source).exists_tiled_tokens source o (Glyph.proper_ofChars _)
  have hread : ∀ (i : Nat) (t : Token), (lex o source)[i]? = some t →
      (ofText o source).nth i = t := by
    intro i t ht
    rw [nth_of_le (Nat.zero_le _)]
    exact htiles.read i t ht
  have hlastRead := hread _ _ hlast
  have hsound := sound_ofText o source
  have htake : (List.range n).map (ofText o source).nth =
      (lex o source ++ List.replicate n e).take n := by
    apply List.ext_getElem?
    intro i
    by_cases hi : i < n
    · rw [List.getElem?_map, List.getElem?_range hi, List.getElem?_take_of_lt hi]
      by_cases hlex : i < (lex o source).length
      · rw [List.getElem?_append_left hlex, List.getElem?_eq_getElem hlex]
        exact congrArg some (hread i _ (List.getElem?_eq_getElem hlex))
      · have hsame := hsound.nth_add_of_isEnd (by rw [hlastRead, hend])
          (i - ((lex o source).length - 1))
        rw [show (lex o source).length - 1 + (i - ((lex o source).length - 1)) = i by omega,
          hlastRead] at hsame
        rw [List.getElem?_append_right (by omega), List.getElem?_replicate, if_pos (by omega)]
        exact congrArg some hsame
    · rw [List.getElem?_eq_none (by simp; omega), List.getElem?_eq_none (by simp; omega)]
  rw [htake]
  exact List.take_prefix _ _

theorem nth_zero_afterAll {l : Lookahead} (k : Nat) :
    (l.afterAll (List.replicate k .consume)).consume.1 = l.nth k := by
  induction k generalizing l with
  | zero => exact fst_consume l
  | succ k ih =>
      rw [List.replicate_succ, afterAll]
      exact ih.trans (nth_consume l k)

-- Whatever is asked of a lookahead, the tokens that it hands out are those of its text in order,
-- and then the end token. Looking ahead shows the token that comes after `k` others, leaves the
-- answers to all later requests as they were, and never looks into an empty buffer.
theorem refines_lex (o : LexOptions) (source : String) (qs : List Request) :
    let first := ofText o source
    let l := first.afterAll qs
    (∃ e n, (lex o source).getLast? = some e ∧ e.kind = .endOfFile ∧
      first.handedOut qs <+: lex o source ++ List.replicate n e) ∧
    l.previous = (first.handedOut qs).getLast? ∧
    l.buffer.count ≤ capacity ∧
    (∀ k < capacity, ∃ l', l.peek k =
        .ok ((l.afterAll (List.replicate k .consume)).consume.1, l') ∧
      0 < l'.buffer.count ∧ l'.buffer.count ≤ capacity ∧ l'.previous = l.previous ∧
      ∀ later, l'.answers later = l.answers later) ∧
    ∀ k, capacity ≤ k →
      l.respond (.peek k) = (.error (.lookaheadExceeded k capacity), l) := by
  intro first l
  have hhands : HandsOut first (first.handedOut qs) l :=
    (sound_ofText o source).handsOut_afterAll qs
  obtain ⟨ts, e, hlex, -, hend, -⟩ := (Cursor.ofText source).exists_tokens_eq_append o
  have hlast : (lex o source).getLast? = some e := by
    rw [lex, hlex, List.getLast?_concat]
  refine ⟨⟨e, (first.handedOut qs).length, hlast, hend, ?_⟩, ?_, hhands.sound.count_le, ?_, ?_⟩
  · have hprefix := map_nth_isPrefix o source hlast (by simp [Token.isEnd, hend])
      (first.handedOut qs).length
    rwa [← hhands.tokens] at hprefix
  · rw [hhands.previous]
    exact Option.or_none
  · intro k hk
    obtain ⟨l', hpeek, hsound, hnth, hprevious, hpos⟩ := hhands.sound.exists_peek_eq hk
    refine ⟨l', ?_, hpos, hsound.count_le, hprevious, ?_⟩
    · rw [hpeek, nth_zero_afterAll]
    · exact Agree.answers_eq ⟨hsound, hhands.sound, hnth⟩
  · intro k hk
    simp only [respond, peek_of_le hk]

end Lookahead

end UnitCalc
