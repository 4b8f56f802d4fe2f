/-
JSON documents.

A document is the value that `json.loads` makes of it and `json.dump` writes: a number is a
whole one or a float, the keys of an object come in the order in which they were written, and
`get` is `dict.get`.  The text of a document is not modelled.
-/
import Mathlib.Data.Rat.Defs

inductive Json where
  | null
  | bool (b : Bool)
  | int (n : ℤ)
  | float (q : ℚ)
  | str (t : List Char)
  | arr (items : List Json)
  | obj (fields : List (List Char × Json))

namespace Json

/-- `d.get(key)` of an object's fields. -/
def get (fields : List (List Char × Json)) (key : String) : Option Json := fields.lookup key.toList

def keys (fields : List (List Char × Json)) : List (List Char) := fields.map Prod.fst

/-- What a loop over a document goes through. -/
def items : Json → Option (List Json)
  | arr xs => some xs
  | obj fields => some (fields.map fun f => str f.1)
  | str t => some (t.map fun c => str [c])
  | _ => none

/-- What `int` and `float` make of a text is left open. -/
structure Numerals where
  int : List Char → Option ℤ
  float : List Char → Option ℚ

/-- `int(x)`. -/
def toInt (nums : Numerals) : Json → Option ℤ
  | bool b => some (if b then 1 else 0)
  | int n => some n
  | float q => some (q.num.tdiv q.den)
  | str t => nums.int t
  | _ => none

/-- `float(x)`. -/
def toFloat (nums : Numerals) : Json → Option ℚ
  | bool b => some (if b then 1 else 0)
  | int n => some n
  | float q => some q
  | str t => nums.float t
  | _ => none

end Json
