import Mathlib.Algebra.Ring.Int.Defs
import BotTrader.Python.Runtime

/-! Property trees, as the server parses and prints JSON. A node has a text or an
ordered list of children, whose keys may repeat: the parser builds no others, nor
does the code modelled here. Numbers are their texts. The text of a message is
parsed outside the model; what a tree is printed as is the document that Python
parses again, with all its repeated members. -/

namespace BotTrader.Boost

open Python

/-- The exceptions of boost that the modelled code can meet. -/
inductive Exc where
  | dataflow | badPath | badData | jsonParser
  deriving DecidableEq, Repr

/-- `std::isspace` -/
def isSpace (c : Char) : Bool := c ∈ [' ', '\t', '\n', '\x0b', '\x0c', '\r']

def parseDigits (cs : List Char) : Option ℕ :=
  if cs ≠ [] ∧ cs.all Char.isDigit then
    some (cs.foldl (fun n c => 10 * n + (c.toNat - '0'.toNat)) 0)
  else none

/-- A text as a stream reads an `int` from it: a sign or none, digits, and blanks around
them. A number out of range is refused. -/
def parseInt (s : String) : Option ℤ :=
  let cs := ((s.toList.dropWhile isSpace).reverse.dropWhile isSpace).reverse
  let n := match cs with
    | '-' :: ds => (parseDigits ds).map fun n => -(n : ℤ)
    | '+' :: ds => (parseDigits ds).map fun n => (n : ℤ)
    | ds => (parseDigits ds).map fun n => (n : ℤ)
  n.filter fun n => -2 ^ 31 ≤ n ∧ n < 2 ^ 31

/-- `ptree` -/
inductive Ptree where
  | leaf (data : String)
  | node (children : List (String × Ptree))

namespace Ptree

def data : Ptree → String
  | leaf d => d
  | node _ => ""

def children : Ptree → List (String × Ptree)
  | leaf _ => []
  | node cs => cs

/-- The first child with the key. -/
def child? (t : Ptree) (key : String) : Option Ptree := t.children.lookup key

/-- `get_child(key)` -/
def getChild (t : Ptree) (key : String) : Except Exc Ptree :=
  match t.child? key with
  | some c => .ok c
  | none => .error .badPath

/-- `get<std::string>(key)` -/
def get (t : Ptree) (key : String) : Except Exc String := do
  return (← t.getChild key).data

/-- `get<std::string>(key, value)` -/
def getD (t : Ptree) (key value : String) : String :=
  match t.child? key with
  | some c => c.data
  | none => value

/-- `get_value<int>()` -/
def getInt (t : Ptree) : Except Exc ℤ :=
  match parseInt t.data with
  | some n => .ok n
  | none => .error .badData

/-- `ptree()` -/
def empty : Ptree := node []

/-- `push_back` and `add_child` -/
def addChild (t : Ptree) (key : String) (c : Ptree) : Ptree := node (t.children ++ [(key, c)])

def putIn (key value : String) : List (String × Ptree) → List (String × Ptree)
  | [] => [(key, leaf value)]
  | (k, c) :: cs => if k = key then (k, leaf value) :: cs else (k, c) :: putIn key value cs

/-- `put(key, value)` -/
def put (t : Ptree) (key value : String) : Ptree := node (putIn key value t.children)

/-- A list of texts, as it is built by `push_back`. -/
def ofList (items : List String) : Ptree := node (items.map fun s => ("", leaf s))

mutual

/-- `write_json` below the root: a node without children is its text, one whose
keys are all empty is an array. -/
def toJson {F : Type} : Ptree → Json F
  | leaf d => .str d
  | node [] => .str ""
  | node (c :: cs) =>
    if (c :: cs).all (·.1 == "") then .arr (items (c :: cs)) else .obj (members (c :: cs))

def items {F : Type} : List (String × Ptree) → List (Json F)
  | [] => []
  | (_, c) :: cs => c.toJson :: items cs

def members {F : Type} : List (String × Ptree) → List (String × Json F)
  | [] => []
  | (k, c) :: cs => (k, c.toJson) :: members cs

end

/-- `write_json`: the root is written as an object. A root with a text is refused;
those that are printed here have children. -/
def writeJson {F : Type} (t : Ptree) : Json F := .obj (members t.children)

theorem range_of_getInt {t : Ptree} {n : ℤ} (h : t.getInt = .ok n) : -2 ^ 31 ≤ n ∧ n < 2 ^ 31 := by
  unfold getInt at h
  split at h
  · next m hp =>
    obtain rfl : m = n := by simpa using h
    unfold parseInt at hp
    simpa using (Option.filter_eq_some_iff.mp hp).2
  · simp at h

theorem lookup_putIn (key value k : String) (cs : List (String × Ptree)) :
    (putIn key value cs).lookup k = if k = key then some (leaf value) else cs.lookup k := by
  induction cs with
  | nil => simp only [putIn, lookup_cons_eq, List.lookup_nil]
  | cons c cs ih =>
    obtain ⟨k', c⟩ := c
    simp only [putIn]
    by_cases hk : k' = key
    · subst hk
      simp only [if_true, lookup_cons_eq]
      split <;> rfl
    · simp only [hk, if_false, lookup_cons_eq, ih]
      by_cases h : k = k'
      · subst h
        simp [hk]
      · simp [h]

theorem child?_put (t : Ptree) (key value k : String) :
    (t.put key value).child? k = if k = key then some (leaf value) else t.child? k :=
  lookup_putIn key value k t.children

theorem get_ok_iff {t : Ptree} {key s : String} :
    t.get key = .ok s ↔ ∃ c, t.child? key = some c ∧ c.data = s := by
  unfold get getChild
  cases t.child? key with
  | none => simp [bind, Except.bind]
  | some c => simp [bind, Except.bind, pure, Except.pure]

end Ptree

end BotTrader.Boost
