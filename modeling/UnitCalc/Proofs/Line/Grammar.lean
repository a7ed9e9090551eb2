import Mathlib.Algebra.Group.Nat.Defs
import UnitCalc.Line.Parser

namespace UnitCalc

-- How many parentheses are open after a token.
def Token.depthAfter (t : Token) (depth : Nat) : Nat :=
  if t.kind = .opening .round then depth + 1
  else if t.kind = .closing .round then depth - 1
  else depth

-- The tokens without the ends of lines inside parentheses, of which `depth` are open at first.
def dropInnerBreaks (depth : Nat) : List Token → List Token
  | [] => []
  | t :: ts =>
      if t.kind = .lineBreak ∧ depth ≠ 0 then dropInnerBreaks depth ts
      else t :: dropInnerBreaks (t.depthAfter depth) ts

-- The tokens that count: no continued line ends, and no tabs.
def significant (ts : List Token) : List Token :=
  (dropInnerBreaks 0 (joinLines ts)).filter fun t => t.kind ≠ .tab

-- A NAME, which is a longest run of touching name pieces, or else a single token.
abbrev Word := List Token

-- Whether two tokens in a row are pieces of one name.
def Token.touches (a b : Token) : Bool :=
  a.isNamePiece && b.isNamePiece && b.start == a.span.stop

def words (ts : List Token) : List Word :=
  ts.splitBy Token.touches

namespace Word

def IsName (w : Word) : Prop :=
  w ≠ [] ∧ ∀ t ∈ w, t.isNamePiece = true

-- A name has the text of its pieces and goes from the start of the first to the end of the last.
def leaf : Word → UnitExpr
  | [] => .name "" ⟨0, 0⟩
  | t :: ts => .name (ts.foldl (fun symbol u => symbol ++ u.text) t.text)
      (ts.foldl (fun span u => ⟨span.start, u.span.stop - span.start⟩) t.span)

end Word

namespace Grammar

-- '-'? NUMBER, with its value.
inductive Numeral : List Word → Float → Prop where
  | positive {t : Token} {v : Float} (hkind : t.kind = .number)
      (hvalue : Number.read? t.text = some v) : Numeral [[t]] v
  | negative {sign t : Token} {v : Float} (hsign : sign.kind = .operator .minus)
      (hkind : t.kind = .number) (hvalue : Number.read? t.text = some v) :
      Numeral [[sign], [t]] (-v)

-- A numeral of integer value.
def Exponent (ws : List Word) (n : Int) : Prop :=
  ∃ v, Numeral ws v ∧ Number.toInt? v = some n ∧ n.natAbs ≤ 2 ^ 31 - 1

inductive Category where
  | unit
  | term
  | atom

-- The words of a unit, of a term or of an atom, with their tree. Units group to the left.
inductive Phrase : Category → List Word → UnitExpr → Prop where
  | name {w : Word} (h : w.IsName) : Phrase .atom [w] w.leaf
  | group {opening closing : Token} {ws : List Word} {e : UnitExpr}
      (hopening : opening.kind = .opening .round) (h : Phrase .unit ws e)
      (hclosing : closing.kind = .closing .round) :
      Phrase .atom ([opening] :: (ws ++ [[closing]])) (.group e)
  | atom {ws : List Word} {e : UnitExpr} (h : Phrase .atom ws e) : Phrase .term ws e
  | power {ws ns : List Word} {e : UnitExpr} {caret : Token} {n : Int} (h : Phrase .atom ws e)
      (hcaret : caret.kind = .operator .power) (hn : Exponent ns n) :
      Phrase .term (ws ++ [caret] :: ns) (.pow e n)
  | term {ws : List Word} {e : UnitExpr} (h : Phrase .term ws e) : Phrase .unit ws e
  | times {ws vs : List Word} {e f : UnitExpr} {times : Token} (he : Phrase .unit ws e)
      (htimes : times.kind = .operator .times) (hf : Phrase .term vs f) :
      Phrase .unit (ws ++ [times] :: vs) (.mul e f)
  | divide {ws vs : List Word} {e f : UnitExpr} {slash : Token} (he : Phrase .unit ws e)
      (hslash : slash.kind = .operator .divide) (hf : Phrase .term vs f) :
      Phrase .unit (ws ++ [slash] :: vs) (.div e f)
  | beside {ws vs : List Word} {e f : UnitExpr} (he : Phrase .unit ws e)
      (hf : Phrase .term vs f) : Phrase .unit (ws ++ vs) (.mul e f)

-- unit?
inductive OptionalUnit : List Word → Option UnitExpr → Prop where
  | absent : OptionalUnit [] none
  | present {ws : List Word} {e : UnitExpr} (h : Phrase .unit ws e) : OptionalUnit ws (some e)

-- ('as' unit)?
inductive OptionalTarget : List Word → Option UnitExpr → Prop where
  | absent : OptionalTarget [] none
  | present {as : Token} {ws : List Word} {e : UnitExpr} (has : as.kind = .keyword .asWord)
      (h : Phrase .unit ws e) : OptionalTarget ([as] :: ws) (some e)

-- '-'? NUMBER unit? ('as' unit)?
inductive Line : List Word → Quantity → Prop where
  | intro {ns us ts : List Word} {v : Float} {unit target : Option UnitExpr}
      (hvalue : Numeral ns v) (hunit : OptionalUnit us unit) (htarget : OptionalTarget ts target) :
      Line (ns ++ us ++ ts) ⟨v, unit, target⟩

-- Lines with line ends between them, some of which may be blank.
inductive Script : List Word → List Quantity → Prop where
  | nil : Script [] []
  | blank {lineEnd : Token} {ws : List Word} {qs : List Quantity}
      (hend : lineEnd.kind = .lineBreak) (h : Script ws qs) : Script ([lineEnd] :: ws) qs
  | last {ws : List Word} {q : Quantity} (h : Line ws q) : Script ws [q]
  | cons {ws vs : List Word} {lineEnd : Token} {q : Quantity} {qs : List Quantity}
      (hq : Line ws q) (hend : lineEnd.kind = .lineBreak) (h : Script vs qs) :
      Script (ws ++ [lineEnd] :: vs) (q :: qs)

end Grammar

end UnitCalc
