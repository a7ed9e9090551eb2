namespace UnitCalc

structure Label where
  text : String
  offset : Nat
  length : Nat
  deriving DecidableEq, Repr

-- What is said about an error: a message, and where there is more to say, a code, an advice and
-- labelled places in the source.
structure Report where
  message : String
  code : Option String := none
  advice : Option String := none
  labels : List Label := []
  deriving DecidableEq, Repr

end UnitCalc
