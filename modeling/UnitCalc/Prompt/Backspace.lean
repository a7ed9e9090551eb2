import UnitCalc.Text.Cluster
import UnitCalc.Text.Utf8

namespace UnitCalc.Prompt

def backspace : Char := '\x08'

-- Text with its backspaces carried out so far.
structure Typed where
  -- The last character first.
  reversed : List Char
  -- The sizes of the clusters in bytes, the last cluster first. A size is kept in one byte.
  sizes : List UInt8
  deriving DecidableEq, Repr

namespace Typed

def empty : Typed := ⟨[], []⟩

def text (t : Typed) : String :=
  String.ofList t.reversed.reverse

-- Adds a cluster at the end.
def add (t : Typed) (cluster : List Char) : Typed :=
  ⟨cluster.reverse ++ t.reversed, UInt8.ofNat (Text.byteSize cluster) :: t.sizes⟩

-- Takes as many bytes from the end as the last cluster has, if there is one. Of a cluster that is
-- larger than its size says, only a part goes, and none can go that ends inside a character.
def erase (t : Typed) : Option Typed :=
  match t.sizes with
  | [] => some t
  | size :: sizes => (Text.splitAt? size.toNat t.reversed).map fun (_, rest) => ⟨rest, sizes⟩

def enter (t : Typed) (cluster : List Char) : Option Typed :=
  if cluster = [backspace] then t.erase else some (t.add cluster)

end Typed

-- The text that is left when all backspaces are carried out, unless one of them cannot be.
def applyBackspaces (text : String) : Option String :=
  ((Text.clusters text.toList).foldlM Typed.enter Typed.empty).map Typed.text

end UnitCalc.Prompt
