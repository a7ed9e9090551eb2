import UnitCalc.Text.Utf8

namespace UnitCalc

-- A range of bytes in a text.
structure Span where
  start : Nat
  length : Nat
  deriving DecidableEq, Repr

namespace Span

-- Offsets are words of 64 bits; this is the largest.
def maxOffset : Nat := 18446744073709551615

-- The offset just after the span, no larger than an offset can be.
def stop (s : Span) : Nat :=
  min (s.start + s.length) maxOffset

def isEmpty (s : Span) : Bool :=
  s.length == 0

def display (s : Span) : String :=
  toString s.start ++ ".." ++ toString s.stop

-- The text under a span, cut off at the end of the source. It is empty when the span starts at or
-- past the end, or when it would split a character.
def textIn (s : Span) (source : String) : String :=
  let size := source.utf8ByteSize
  if s.start < size then
    String.ofList (Text.slice s.start (min s.stop size) source.toList)
  else
    ""

-- The least span that covers two.
def join (a b : Span) : Span :=
  let start := min a.start b.start
  ⟨start, max a.stop b.stop - start⟩

end Span

-- The texts asked for so far, by span. Only spans with text are kept, and none is ever dropped.
structure SpanMemo where
  source : String
  texts : List (Span × String)

namespace SpanMemo

def ofSource (source : String) : SpanMemo :=
  ⟨source, []⟩

-- The text under a span, from the memo if it has been asked for before.
def get (m : SpanMemo) (s : Span) : String × SpanMemo :=
  match m.texts.lookup s with
  | some text => (text, m)
  | none =>
      let text := s.textIn m.source
      if text.isEmpty then ("", m) else (text, { m with texts := (s, text) :: m.texts })

-- The number of distinct spans in the memo.
def count (m : SpanMemo) : Nat :=
  m.texts.length

def inspect (m : SpanMemo) : String :=
  "SourceBuffer \x7b len: " ++ toString m.source.utf8ByteSize ++
    ", cached_spans: " ++ toString m.count ++ " \x7d"

end SpanMemo

end UnitCalc
