import UnitCalc.Text.Utf8

namespace UnitCalc

-- A line ends with a line feed, with or without a carriage return before it; the last may end with
-- the input.
structure InputLine where
  text : String
  -- What ended the line.
  ending : String
  deriving DecidableEq, Repr

namespace InputLine

-- A line with its ending, the last character first.
def ofReversed : List Char → InputLine
  | '\n' :: '\r' :: cs => ⟨String.ofList cs.reverse, "\r\n"⟩
  | '\n' :: cs => ⟨String.ofList cs.reverse, "\n"⟩
  | cs => ⟨String.ofList cs.reverse, ""⟩

-- A line with its ending.
def ofChars (cs : List Char) : InputLine :=
  ofReversed cs.reverse

end InputLine

-- The first line of a text with its ending, and what is after it.
def firstLine : List Char → List Char × List Char
  | [] => ([], [])
  | c :: cs =>
      if c = '\n' then
        ([c], cs)
      else
        let (line, rest) := firstLine cs
        (c :: line, rest)

theorem append_firstLine (cs : List Char) : (firstLine cs).1 ++ (firstLine cs).2 = cs := by
  induction cs with
  | nil => rfl
  | cons c cs ih =>
      rw [firstLine]
      split
      · rfl
      · simp [ih]

theorem firstLine_ne_nil {cs : List Char} (h : cs ≠ []) : (firstLine cs).1 ≠ [] := by
  cases cs with
  | nil => exact absurd rfl h
  | cons c cs =>
      rw [firstLine]
      split <;> simp

-- Standard input, which is read once: what has been taken from it, as a line or as the content of a
-- file that stands for it, is gone.
structure Input where
  -- What is still to be taken.
  text : List Char
  -- How many bytes of it have been read ahead for the lines. Only a line can take them.
  ahead : Nat
  -- The bytes read ahead end inside a character, and the rest of it is gone.
  broken : Bool
  deriving DecidableEq, Repr

namespace Input

def ofString (s : String) : Input := ⟨s.toList, 0, false⟩

-- Lines are read in blocks of so many bytes.
def blockSize : Nat := 8192

-- How many bytes are read ahead after a line of some size has been taken. Where the line goes
-- beyond what was read ahead, whole blocks are read, the last of which may end with the input.
def aheadAfter (i : Input) (size : Nat) : Nat :=
  if size ≤ i.ahead then
    i.ahead - size
  else
    let missing := size - i.ahead
    let blocks := (missing + blockSize - 1) / blockSize
    min (blocks * blockSize) (Text.byteSize i.text - i.ahead) - missing

-- Takes a line, unless there is none.
def line? (i : Input) : Option (InputLine × Input) :=
  if i.text = [] then
    none
  else
    let (line, rest) := firstLine i.text
    some (.ofChars line, { i with text := rest, ahead := i.aheadAfter (Text.byteSize line) })

theorem length_lt_of_line? {i rest : Input} {line : InputLine} (h : i.line? = some (line, rest)) :
    rest.text.length < i.text.length := by
  rw [line?] at h
  split at h
  · simp at h
  · rename_i hne
    obtain ⟨_, rfl⟩ := Prod.mk.inj (Option.some.inj h)
    have hl := congrArg List.length (append_firstLine i.text)
    have hp := List.length_pos_iff.mpr (firstLine_ne_nil hne)
    simp only [List.length_append] at hl ⊢
    omega

-- The characters that end within some bytes.
def within : Nat → List Char → List Char
  | _, [] => []
  | n, c :: cs => if c.utf8Size ≤ n then c :: within (n - c.utf8Size) cs else []

theorem length_within_le (n : Nat) (cs : List Char) : (within n cs).length ≤ cs.length := by
  induction cs generalizing n with
  | nil => simp [within]
  | cons c cs ih =>
      rw [within]
      split
      · simpa using ih (n - c.utf8Size)
      · simp

-- The lines that are finished.
def wholeLines (cs : List Char) : List Char :=
  (cs.reverse.dropWhile (· ≠ '\n')).reverse

theorem length_wholeLines_le (cs : List Char) : (wholeLines cs).length ≤ cs.length := by
  have h := (List.dropWhile_sublist (l := cs.reverse) (· ≠ '\n')).length_le
  simpa [wholeLines] using h

-- Takes all that has not been read ahead. When that starts inside a character it is no text, and
-- the line that the character began cannot be read either.
def takeRest (i : Input) : Option String × Input :=
  match Text.splitAt? i.ahead i.text with
  | some (before, rest) => (some (String.ofList rest), { i with text := before })
  | none =>
      let lines := wholeLines (within i.ahead i.text)
      (none, ⟨lines, Text.byteSize lines, true⟩)

theorem length_takeRest_le (i : Input) : i.takeRest.2.text.length ≤ i.text.length := by
  rw [takeRest]
  split
  · rename_i before rest h
    have hl := congrArg List.length (Text.append_of_splitAt? h).1
    simp only [List.length_append] at hl ⊢
    omega
  · exact Nat.le_trans (length_wholeLines_le _) (length_within_le _ _)

end Input

-- What the name of a file stands for.
inductive Source where
  | text (content : String)
  | standardInput
  deriving DecidableEq, Repr

namespace Input

-- Reads the file with a given name, if there is a name. There is no content when there is no such
-- file, or it is no text.
def readFile (files : String → Option Source) (name : Option String) (i : Input) :
    Option String × Input :=
  match name.bind files with
  | none => (none, i)
  | some (.text content) => (some content, i)
  | some .standardInput => i.takeRest

theorem length_readFile_le (files : String → Option Source) (name : Option String) (i : Input) :
    (i.readFile files name).2.text.length ≤ i.text.length := by
  rw [readFile]
  split
  · exact Nat.le_refl _
  · exact Nat.le_refl _
  · exact i.length_takeRest_le

end Input

end UnitCalc
