import Mathlib.Data.List.Sort

/-! Multimaps: lists of entries sorted by key, in which equal keys stand in the
order of their insertion. A search for a key gives the first of its entries, and
erasing by a search erases that one only. Where the order does not matter, an
operation is described up to permutation. -/

namespace BotTrader.Cpp

abbrev Multimap (κ α : Type) := List (κ × α)

namespace Multimap

variable {κ α : Type} {m : Multimap κ α} {key : κ} {a : α} {x : κ × α}

/-- The list without the first element that is looked for. -/
theorem cons_eraseP_perm {β : Type} {l : List β} {p : β → Bool} {y : β} (h : l.find? p = some y) :
    l.Perm (y :: l.eraseP p) := by
  induction l with
  | nil => simp at h
  | cons z zs ih =>
    by_cases hz : p z = true
    · obtain rfl : z = y := by simpa [hz] using h
      rw [List.eraseP_cons_of_pos hz]
    · rw [List.find?_cons_of_neg hz] at h
      rw [List.eraseP_cons_of_neg hz]
      exact ((ih h).cons z).trans (List.Perm.swap y z _)

section Keys

variable [LinearOrder κ]

def emplace (m : Multimap κ α) (key : κ) (a : α) : Multimap κ α :=
  List.orderedInsert (fun e e' => e.1 < e'.1) (key, a) m

def findKey (m : Multimap κ α) (key : κ) : Option (κ × α) := List.find? (·.1 = key) m

/-- `erase(find(key))` -/
def eraseKey (m : Multimap κ α) (key : κ) : Multimap κ α := List.eraseP (·.1 = key) m

theorem emplace_perm (m : Multimap κ α) (key : κ) (a : α) :
    (m.emplace key a).Perm ((key, a) :: m) := List.perm_orderedInsert _ _ m

@[simp] theorem mem_emplace : x ∈ m.emplace key a ↔ x = (key, a) ∨ x ∈ m :=
  List.mem_orderedInsert _

theorem findKey_eq_none : m.findKey key = none ↔ ∀ e ∈ m, e.1 ≠ key := by
  simp [findKey]

theorem fst_of_findKey (h : m.findKey key = some x) : x.1 = key := by
  simpa using List.find?_some h

theorem cons_eraseKey_perm (h : m.findKey key = some x) : m.Perm (x :: m.eraseKey key) :=
  cons_eraseP_perm h

theorem eraseKey_of_none (h : m.findKey key = none) : m.eraseKey key = m :=
  List.eraseP_of_forall_not fun e he => by simpa using findKey_eq_none.mp h e he

theorem mem_of_mem_eraseKey (h : x ∈ m.eraseKey key) : x ∈ m := List.mem_of_mem_eraseP h

end Keys

section Values

variable [DecidableEq α]

/-- Erase the first entry of a value, whatever its key is. -/
def eraseValue (m : Multimap κ α) (a : α) : Multimap κ α := List.eraseP (·.2 = a) m

theorem exists_cons_eraseValue_perm (h : x ∈ m) (ha : x.2 = a) :
    ∃ y, y.2 = a ∧ m.Perm (y :: m.eraseValue a) := by
  rcases hf : List.find? (fun e => decide (e.2 = a)) m with _ | y
  · simpa [ha] using List.find?_eq_none.mp hf x h
  · exact ⟨y, by simpa using List.find?_some hf, cons_eraseP_perm hf⟩

theorem mem_of_mem_eraseValue (h : x ∈ m.eraseValue a) : x ∈ m := List.mem_of_mem_eraseP h

end Values

end Multimap

end BotTrader.Cpp
