/-
Python values as `json.loads` and a configuration give them.

A float is a rational number, an infinity or not a number; nothing here depends on how numbers
are rounded.  The keys of a dictionary come in the order in which they were written.  What
`int`, `float` and `str` make of a text, or of a value that is none, is left open where it
takes the formats of numbers to say it.
-/
import CyClaw.Lib.PyText
import Mathlib.Data.Rat.Floor

inductive PyFloat where
  | num (q : ℚ)
  | inf (negative : Bool)
  | nan
deriving DecidableEq

/-- What a conversion raises. -/
inductive PyError where
  | typeError
  | valueError
  | overflowError
  | keyError
  | recursionError
deriving DecidableEq, Repr

inductive PyValue where
  | none
  | bool (b : Bool)
  | int (n : ℤ)
  | float (x : PyFloat)
  | str (t : List Char)
  | list (items : List PyValue)
  | dict (fields : List (List Char × PyValue))

namespace PyFloat

/-- `max(lo, min(hi, x))`: a comparison with what is not a number is false, and so keeps `hi`. -/
def clamp (lo hi : ℚ) : PyFloat → ℚ
  | num q => max lo (min hi q)
  | inf true => lo
  | inf false => max lo hi
  | nan => max lo hi

end PyFloat

namespace PyValue

/-- `d.get(key)` of the fields of a dictionary. -/
def get (fields : List (List Char × PyValue)) (key : String) : Option PyValue := fields.lookup key.toList

/-- `{**d, key: x}` of the fields of a dictionary. -/
def set (key : String) (x : PyValue) : List (List Char × PyValue) → List (List Char × PyValue)
  | [] => [(key.toList, x)]
  | field :: fields => if field.1 = key.toList then (field.1, x) :: fields else field :: set key x fields

theorem get_set_self (key : String) (x : PyValue) (fields : List (List Char × PyValue)) :
    get (set key x fields) key = some x := by
  unfold get
  induction fields with
  | nil => rw [set, List.lookup_cons, beq_self_eq_true]
  | cons field fields ih =>
      rw [set]
      by_cases hkey : field.1 = key.toList
      · rw [if_pos hkey, List.lookup_cons, hkey, beq_self_eq_true]
      · rw [if_neg hkey, List.lookup_cons, beq_false_of_ne (Ne.symm hkey)]
        exact ih

theorem get_set_of_ne {key key' : String} (h : key' ≠ key) (x : PyValue) (fields : List (List Char × PyValue)) :
    get (set key x fields) key' = get fields key' := by
  have hne : key'.toList ≠ key.toList := fun heq => h (String.toList_injective heq)
  unfold get
  induction fields with
  | nil => rw [set, List.lookup_cons, beq_false_of_ne hne]
  | cons field fields ih =>
      rw [set]
      by_cases hkey : field.1 = key.toList
      · rw [if_pos hkey, List.lookup_cons, List.lookup_cons, hkey, beq_false_of_ne hne]
      · rw [if_neg hkey, List.lookup_cons, List.lookup_cons, ih]

/-- `bool(x)`. -/
def truthy : PyValue → Bool
  | none => false
  | bool b => b
  | int n => n ≠ 0
  | float x => x ≠ .num 0
  | str t => !t.isEmpty
  | list items => !items.isEmpty
  | dict fields => !fields.isEmpty

/-- `x or y`, where nothing counts as `None`. -/
def orElse (x : Option PyValue) (y : PyValue) : PyValue :=
  match x with
  | Option.none => y
  | some x => if x.truthy then x else y

/-- What is left open. -/
structure Formats where
  int : List Char → Option ℤ
  float : List Char → Option PyFloat
  str : PyValue → List Char

/-- `str(x)`. -/
def text (f : Formats) : PyValue → List Char
  | str t => t
  | x => f.str x

/-- `int(x)`. -/
def toInt (f : Formats) : PyValue → Except PyError ℤ
  | bool b => .ok (if b then 1 else 0)
  | int n => .ok n
  | float (.num q) => .ok (q.num.tdiv q.den)
  | float (.inf _) => .error .overflowError
  | float .nan => .error .valueError
  | str t =>
      match f.int t with
      | some n => .ok n
      | Option.none => .error .valueError
  | _ => .error .typeError

/-- The least whole number beyond the range of a float. -/
def floatLimit : ℕ := 2 ^ 1024 - 2 ^ 970

/-- `float(x)`. -/
def toFloat (f : Formats) : PyValue → Except PyError PyFloat
  | bool b => .ok (.num (if b then 1 else 0))
  | int n => if floatLimit ≤ n.natAbs then .error .overflowError else .ok (.num n)
  | float x => .ok x
  | str t =>
      match f.float t with
      | some x => .ok x
      | Option.none => .error .valueError
  | _ => .error .typeError

/-- `list(x)`. -/
def toList : PyValue → Except PyError (List PyValue)
  | list items => .ok items
  | str t => .ok (t.map fun c => str [c])
  | dict fields => .ok (fields.map fun field => str field.1)
  | _ => .error .typeError

mutual

/-- How many containers lie within one another. -/
def nesting : PyValue → ℕ
  | list items => nestingList items + 1
  | dict fields => nestingFields fields + 1
  | _ => 0

def nestingList : List PyValue → ℕ
  | [] => 0
  | x :: xs => max (nesting x) (nestingList xs)

def nestingFields : List (List Char × PyValue) → ℕ
  | [] => 0
  | (_, x) :: fields => max (nesting x) (nestingFields fields)

end

end PyValue
