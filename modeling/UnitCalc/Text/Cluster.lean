import UnitCalc.Text.ClusterClass

namespace UnitCalc.Text

-- What the characters of a cluster so far say about the next one.
structure ClusterEnd where
  -- The class of the last of them.
  last : ClusterClass
  -- They end with a pictograph and marks, the last of which may be a joiner.
  pictograph : Bool
  -- They end with an odd number of letters for flags.
  halfFlag : Bool
  -- They end with a consonant and marks, and whether a linker is among these.
  consonant : Option Bool
  deriving DecidableEq, Repr

namespace ClusterEnd

-- A cluster of one character.
def ofClass (k : ClusterClass) : ClusterEnd where
  last := k
  pictograph := k = .pictograph
  halfFlag := k = .regional
  consonant := if k = .consonant then some false else none

-- Whether a character belongs to the cluster before it.
def joins (e : ClusterEnd) (k : ClusterClass) : Bool :=
  if e.last.isControl || k.isControl then
    e.last = .carriageReturn && k = .lineFeed
  else
    k.joinsAny || e.last = .prepended || e.last.sameSyllable k ||
      match k with
      | .consonant => e.consonant = some true
      | .pictograph => e.last = .joiner && e.pictograph
      | .regional => e.halfFlag
      | _ => false

-- The cluster with one character more.
def add (e : ClusterEnd) (k : ClusterClass) : ClusterEnd where
  last := k
  pictograph :=
    match k with
    | .pictograph => true
    | .mark | .linker | .nonJoiner | .joiner => e.pictograph && e.last ≠ .joiner
    | _ => false
  halfFlag := k = .regional && !e.halfFlag
  consonant :=
    match k with
    | .consonant => some false
    | .linker => e.consonant.map fun _ => true
    | .mark | .joiner => e.consonant
    | _ => none

end ClusterEnd

-- The clusters of a text that goes on from the characters of a cluster, the last one first.
def clustersFrom (cluster : List Char) (e : ClusterEnd) : List Char → List (List Char)
  | [] => [cluster.reverse]
  | c :: cs =>
      let k := ClusterClass.ofChar c
      if e.joins k then
        clustersFrom (c :: cluster) (e.add k) cs
      else
        cluster.reverse :: clustersFrom [c] (.ofClass k) cs

-- A text cut into the units that a reader sees as one character: a letter with its accents, a flag,
-- a family of pictographs, a line ending.
def clusters : List Char → List (List Char)
  | [] => []
  | c :: cs => clustersFrom [c] (.ofClass (.ofChar c)) cs

end UnitCalc.Text
