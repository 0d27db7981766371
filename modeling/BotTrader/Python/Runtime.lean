import Mathlib.Data.List.Basic
import Mathlib.Data.Int.Notation
import Mathlib.Data.Nat.Notation

/-! The part of Python that the trading script stands on: exceptions, parsed
JSON values and dictionaries, and float arithmetic. The float type and its
operations are a parameter, so that what is proved of the script holds for
IEEE doubles, with their infinities and NaN, as well as for exact numbers. -/

namespace BotTrader.Python

/-- The exceptions that the modelled code can raise. -/
inductive Exc where
  | keyError | valueError | typeError | indexError | zeroDivisionError | overflowError
  | attributeError
  deriving DecidableEq, Repr

/-- The positions of a list of two, as the script keeps for its sides, are
`Fin 2`; this is the instance behind their numerals. -/
instance neZero_two : @NeZero ℕ Zero.ofOfNat0 2 := ⟨by decide⟩

/-- A value that `json.loads` returns. -/
inductive Json (F : Type) where
  | null
  | bool (b : Bool)
  | int (n : ℤ)
  | num (x : F)
  | str (s : String)
  | arr (items : List (Json F))
  | obj (items : List (String × Json F))

/-- A dictionary with string keys, in insertion order. -/
abbrev Dict (F : Type) := List (String × Json F)

theorem lookup_cons_eq {β : Type} (key k : String) (c : β) (cs : List (String × β)) :
    ((key, c) :: cs).lookup k = if k = key then some c else cs.lookup k := by
  by_cases h : k = key
  · simp [h]
  · have hb : (k == key) = false := beq_false_of_ne h
    simp [h, List.lookup_cons, hb]

variable {F : Type}

/-- `d[key]` -/
def Dict.item (d : Dict F) (key : String) : Except Exc (Json F) :=
  match d.lookup key with
  | some j => .ok j
  | none => .error .keyError

/-- `d[key] = j` -/
def Dict.set (d : Dict F) (key : String) (j : Json F) : Dict F :=
  if d.any (·.1 == key) then d.map fun kv => if kv.1 == key then (key, j) else kv
  else d ++ [(key, j)]

namespace Json

/-- `j[key]`, for a value that need not be a dictionary. -/
def item (j : Json F) (key : String) : Except Exc (Json F) :=
  match j with
  | obj d => Dict.item d key
  | _ => .error .typeError

/-- `s == j` for a string `s`. -/
def isStr (j : Json F) (s : String) : Bool :=
  match j with
  | str t => t == s
  | _ => false

/-- Iterating over a value: a list gives its items, a dictionary its keys, a
string its characters, and the rest is not iterable. -/
def iter (j : Json F) : Except Exc (List (Json F)) :=
  match j with
  | arr items => .ok items
  | obj d => .ok (d.map fun kv => str kv.1)
  | str s => .ok (s.toList.map fun c => str (String.singleton c))
  | _ => .error .typeError

mutual

/-- `json.loads` of a document: of the members of an object with one name, the last
stays, in the place of the first. -/
def loads : Json F → Json F
  | null => null
  | bool b => bool b
  | int n => int n
  | num x => num x
  | str s => str s
  | arr items => arr (loadsItems items)
  | obj items => obj (loadsMembers [] items)

def loadsItems : List (Json F) → List (Json F)
  | [] => []
  | j :: js => loads j :: loadsItems js

def loadsMembers (d : Dict F) : List (String × Json F) → Dict F
  | [] => d
  | (k, j) :: js => loadsMembers (Dict.set d k (loads j)) js

end

end Json

/-- Floats and the conversions of built-in values. The last field is Python's
rendering of the default step size of the script. -/
class Runtime (F : Type) where
  /-- The literal `m / 10 ^ k`. -/
  literal : ℤ → ℕ → F
  /-- `float(s)` of a string; nothing for a `ValueError`. -/
  floatOfStr : String → Option F
  /-- `float(n)` of an integer; nothing for an `OverflowError`. -/
  floatOfInt : ℤ → Option F
  /-- `0.00 == x` -/
  isZero : F → Bool
  /-- `x <= y` -/
  le : F → F → Bool
  sub : F → F → F
  /-- Division by a value that is not zero. -/
  div : F → F → F
  /-- `round(x, n)` -/
  round : F → ℕ → F
  /-- `'%f' % x` -/
  fixed : F → String
  /-- `str(j)` -/
  str : Json F → String
  /-- `int(j)` -/
  int : Json F → Except Exc ℤ
  fixed_micro : fixed (literal 1 6) = "0.000001"

variable [Runtime F]

/-- `float(j)` -/
def Json.toFloat (j : Json F) : Except Exc F :=
  match j with
  | .num x => .ok x
  | .int n => match Runtime.floatOfInt n with
    | some x => .ok x
    | none => .error .overflowError
  | .bool b => match Runtime.floatOfInt (if b then 1 else 0) with
    | some x => .ok x
    | none => .error .overflowError
  | .str s => match Runtime.floatOfStr s with
    | some x => .ok x
    | none => .error .valueError
  | _ => .error .typeError

/-- `x / y` -/
def divide (x y : F) : Except Exc F :=
  if Runtime.isZero y then .error .zeroDivisionError else .ok (Runtime.div x y)

/-- `len(s.split('.')[1])` -/
def fractionLength (s : String) : Except Exc ℕ :=
  match s.toList.dropWhile (· ≠ '.') with
  | [] => .error .indexError
  | _ :: rest => .ok (rest.takeWhile (· ≠ '.')).length

end BotTrader.Python
