import UnitCalc.Token.Reader
import UnitCalc.Token.RingBuffer

namespace UnitCalc

namespace Lookahead

-- How many tokens can wait.
def capacity : Nat := 10

instance : RingBuffer.HasSlot capacity := ⟨by decide⟩

end Lookahead

-- Tokens that were looked at wait in a buffer and are handed out from it first.
structure Lookahead where
  reader : Reader
  -- Tokens read and not yet handed out, next first.
  buffer : RingBuffer Token Lookahead.capacity
  -- The token handed out last.
  previous : Option Token
  deriving DecidableEq, Repr

namespace Lookahead

-- What the slots of the buffer hold before they are used.
def unused : Token := ⟨.endOfFile, .origin, 0, ""⟩

def ofText (o : LexOptions) (source : String) : Lookahead :=
  ⟨.ofText o source, .filledWith unused, none⟩

def reset (l : Lookahead) : Lookahead :=
  ⟨l.reader.reset, l.buffer.clear, none⟩

-- The tokens that wait.
def waiting (l : Lookahead) : List Token :=
  l.buffer.toList

-- Whether the end token waits; nothing is read after it.
def endWaits (l : Lookahead) : Bool :=
  if h : 0 < l.buffer.count then
    (l.buffer.get (l.buffer.count - 1) (Nat.sub_lt h Nat.one_pos)).isEnd
  else
    false

-- Reads one more token into the buffer.
def readAhead (l : Lookahead) : Lookahead :=
  { l with reader := l.reader.read.2, buffer := l.buffer.push l.reader.read.1 }

@[simp] theorem count_readAhead (l : Lookahead) :
    l.readAhead.buffer.count = l.buffer.count + 1 := rfl

-- Reads on until more than `k` tokens wait, or until the end token does.
def fill (k : Nat) (l : Lookahead) : Lookahead :=
  if l.buffer.count ≤ k ∧ l.endWaits = false then fill k l.readAhead else l
termination_by k + 1 - l.buffer.count
decreasing_by simp only [count_readAhead]; omega

-- The buffer after looking ahead is never empty.
theorem count_fill_pos (k : Nat) (l : Lookahead) : 0 < (fill k l).buffer.count := by
  fun_induction fill k l with
  | case1 l h ih => exact ih
  | case2 l h =>
      by_cases hpos : 0 < l.buffer.count
      · exact hpos
      · have hend : l.endWaits = false := by simp [endWaits, hpos]
        exact absurd ⟨by omega, hend⟩ h

-- The token `k` tokens ahead, or the end token if the text ends before it.
def peek (l : Lookahead) (k : Nat) : Except TokenError (Token × Lookahead) :=
  if k < capacity then
    let filled := fill k l
    have hlast : min k (filled.buffer.count - 1) < filled.buffer.count :=
      Nat.lt_of_le_of_lt (Nat.min_le_right _ _) (Nat.sub_lt (count_fill_pos k l) Nat.one_pos)
    .ok (filled.buffer.get (min k (filled.buffer.count - 1)) hlast, filled)
  else
    .error (.lookaheadExceeded k capacity)

-- Hands out the next token.
def consume (l : Lookahead) : Token × Lookahead :=
  if h : 0 < l.buffer.count then
    let t := l.buffer.get 0 h
    (t, { l with buffer := l.buffer.dropFirst, previous := some t })
  else
    let (t, r) := l.reader.read
    (t, { l with reader := r, previous := some t })

-- What is left to hand out shrinks with every token but the end token.
def remaining (l : Lookahead) : Nat :=
  l.buffer.count + l.reader.cursor.rest.length

theorem remaining_consume_lt {l : Lookahead} (h : l.consume.1.isEnd = false) :
    l.consume.2.remaining < l.remaining := by
  unfold consume at h ⊢
  split at h
  · rename_i hpos
    simp only [remaining, dif_pos hpos, RingBuffer.dropFirst]
    omega
  · rename_i hpos
    have hk : (l.reader.cursor.read l.reader.options).1.kind ≠ .endOfFile := by
      simpa [Token.isEnd, Reader.read] using h
    have hlt := Cursor.length_rest_read_lt hk
    simp only [remaining, dif_neg hpos, Reader.read]
    omega

-- Hands out tokens through the end token, but no more than `n`.
def consumeUpTo : Nat → Lookahead → List Token × Lookahead
  | 0, l => ([], l)
  | n + 1, l =>
      let (t, l) := l.consume
      if t.isEnd then
        ([t], l)
      else
        let (ts, l) := consumeUpTo n l
        (t :: ts, l)

-- Hands out all tokens through the end token.
def consumeAll (l : Lookahead) : List Token × Lookahead :=
  if l.consume.1.isEnd then
    ([l.consume.1], l.consume.2)
  else
    let (ts, rest) := consumeAll l.consume.2
    (l.consume.1 :: ts, rest)
termination_by l.remaining
decreasing_by exact remaining_consume_lt (Bool.eq_false_iff.mpr ‹_›)

end Lookahead

end UnitCalc
