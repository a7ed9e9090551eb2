import UnitCalc.Prompt.Input

namespace UnitCalc.CommandLine

-- The steps of a path, with a slash between any two.
def steps (path : String) : List (List Char) :=
  path.toList.splitOn '/'

-- Whether a step stays where it is.
def stays (step : List Char) : Bool :=
  step = [] || step = ['.']

-- A folder: the ways from it to its files.
structure Folder where
  files : List (List (List Char) × Source)
  -- Whether it is the root, which has itself above it. Of what is above another folder nothing is
  -- known.
  isRoot : Bool
  deriving DecidableEq, Repr

namespace Folder

-- The files with some names, which have the names of folders before them.
def withNames (files : List (String × Source)) : List (List (List Char) × Source) :=
  files.map fun (name, source) => ((steps name).filter (!stays ·), source)

-- The folder of some files with their contents.
def ofContents (files : List (String × String)) : Folder where
  files := withNames (files.map fun (name, content) => (name, .text content))
  isRoot := false

-- The root with the devices that can be read: one is always empty, and the others are different
-- names of the standard input.
def devices : Folder where
  files := withNames [("dev/null", .text ""), ("dev/stdin", .standardInput),
    ("dev/fd/0", .standardInput), ("proc/self/fd/0", .standardInput)]
  isRoot := true

-- Whether a way leads to a folder, here or further in.
def isFolder (f : Folder) (way : List (List Char)) : Bool :=
  way = [] || f.files.any fun (file, _) => way.isPrefixOf file && file ≠ way

-- Where some steps lead, unless a step starts from what is no folder, or leads out of this one.
def walk (f : Folder) : List (List Char) → List (List Char) → Option (List (List Char))
  | way, [] => some way
  | way, step :: rest =>
      if !f.isFolder way then
        none
      else if stays step then
        f.walk way rest
      else if step = ['.', '.'] then
        if way = [] && !f.isRoot then none else f.walk way.dropLast rest
      else
        f.walk (way ++ [step]) rest

-- The file that a path leads to from the folder in which the program runs. A path that begins with
-- a slash starts at the root.
def find? (f : Folder) (path : String) : Option Source :=
  let start := if path.toList.head? = some '/' then devices else f
  (start.walk [] (steps path)).bind fun way => start.files.lookup way

end Folder

end UnitCalc.CommandLine
