import Mathlib.Data.Rat.Floor
import BotTrader.Python.Runtime

/-! Exact arithmetic as an instance of the runtime: floats are rationals,
`round` goes to the nearest even digit, `'%f'` prints six fractional digits,
and `float` reads what Python reads of the characters of ASCII, but for infinities
and NaN. It is what concrete runs are evaluated on. -/

namespace BotTrader.Python.Rational

/-- The nearest integer, the even one of two. -/
def roundHalfEven (x : ℚ) : ℤ :=
  let d := x - ⌊x⌋
  if d < 1 / 2 then ⌊x⌋
  else if 1 / 2 < d then ⌊x⌋ + 1
  else if ⌊x⌋ % 2 = 0 then ⌊x⌋ else ⌊x⌋ + 1

/-- `round(x, n)` -/
def roundTo (x : ℚ) (n : ℕ) : ℚ := roundHalfEven (x * 10 ^ n) / 10 ^ n

/-! ### Reading -/

/-- One digit or more. -/
def digits (cs : List Char) : Option ℕ :=
  if cs.all Char.isDigit && !cs.isEmpty then some (Nat.ofDigitChars 10 cs 0) else none

/-- Digits with at most one point. -/
def unsigned (cs : List Char) : Option ℚ :=
  let whole := cs.takeWhile (· ≠ '.')
  let fraction := (cs.dropWhile (· ≠ '.')).tail
  (digits (whole ++ fraction)).map fun n : ℕ => (n : ℚ) / 10 ^ fraction.length

/-- A numeral with an optional sign. -/
def signed {α : Type} [Neg α] (read : List Char → Option α) : List Char → Option α
  | '-' :: cs => (read cs).map (- ·)
  | '+' :: cs => read cs
  | cs => read cs

def integer : List Char → Option ℤ := signed fun cs => (digits cs).map Int.ofNat

def beforeExponent (c : Char) : Bool := c ≠ 'e' && c ≠ 'E'

/-- A numeral with an optional exponent. -/
def scaled (cs : List Char) : Option ℚ :=
  match cs.dropWhile beforeExponent with
  | [] => unsigned cs
  | _ :: exponent => do
    let x ← unsigned (cs.takeWhile beforeExponent)
    match ← integer exponent with
    | .ofNat k => return x * 10 ^ k
    | .negSucc k => return x / 10 ^ (k + 1)

def ofChars : List Char → Option ℚ := signed scaled

/-- `isspace` -/
def blank (c : Char) : Bool := c = ' ' || 9 ≤ c.toNat && c.toNat ≤ 13

def strip (cs : List Char) : List Char := ((cs.dropWhile blank).reverse.dropWhile blank).reverse

/-- A numeral without its underscores, which may stand between two digits only. -/
def dropUnderscores (last : Char) : List Char → Option (List Char)
  | [] => if last = '_' then none else some []
  | c :: cs =>
    if c = '_' then if last.isDigit then dropUnderscores c cs else none
    else if last = '_' && !c.isDigit then none
    else (dropUnderscores c cs).map (c :: ·)

/-- What is left of a text for `float` and `int` to read. -/
def numeral (s : String) : Option (List Char) := dropUnderscores ' ' (strip s.toList)

/-! ### Writing -/

def padLeft (n : ℕ) (s : String) : String := String.ofList (List.replicate (n - s.length) '0') ++ s

/-- `x` rounded to `n` fractional digits and printed with all of them. -/
def decimal (n : ℕ) (x : ℚ) : String :=
  let scaled := roundHalfEven (x * 10 ^ n)
  (if scaled < 0 then "-" else "") ++ toString (scaled.natAbs / 10 ^ n) ++ "." ++
    padLeft n (toString (scaled.natAbs % 10 ^ n))

/-- Drop trailing zeros, but not the first fractional digit. -/
def dropZeros : List Char → List Char
  | '0' :: '.' :: cs => '0' :: '.' :: cs
  | '0' :: cs => dropZeros cs
  | cs => cs

def shortest (x : ℚ) : String := String.ofList (dropZeros (decimal 8 x).toList.reverse).reverse

mutual

/-- `str(j)` -/
def render : Json ℚ → String
  | .null => "None"
  | .bool b => if b then "True" else "False"
  | .int n => toString n
  | .num x => shortest x
  | .str s => s
  | .arr items => "[" ++ renderItems items ++ "]"
  | .obj items => "\x7b" ++ renderPairs items ++ "\x7d"

def renderItems : List (Json ℚ) → String
  | [] => ""
  | [j] => render j
  | j :: js => render j ++ ", " ++ renderItems js

def renderPairs : List (String × Json ℚ) → String
  | [] => ""
  | [(k, j)] => k ++ ": " ++ render j
  | (k, j) :: js => k ++ ": " ++ render j ++ ", " ++ renderPairs js

end

/-- `int(j)`: a number is cut towards zero. -/
def toInt : Json ℚ → Except Exc ℤ
  | .int n => .ok n
  | .num x => .ok (if x < 0 then ⌈x⌉ else ⌊x⌋)
  | .bool b => .ok (if b then 1 else 0)
  | .str s => match (numeral s).bind integer with
    | some n => .ok n
    | none => .error .valueError
  | _ => .error .typeError

instance : Runtime ℚ where
  literal m k := m / 10 ^ k
  floatOfStr s := (numeral s).bind ofChars
  floatOfInt n := some n
  isZero x := decide (x = 0)
  le x y := decide (x ≤ y)
  sub x y := x - y
  div x y := x / y
  round := roundTo
  fixed := decimal 6
  str := render
  int := toInt
  fixed_micro := by decide +kernel

example : (Runtime.floatOfStr " -9_000.25e-1\n" : Option ℚ) = some (-36001 / 40) := by decide +kernel

end BotTrader.Python.Rational
