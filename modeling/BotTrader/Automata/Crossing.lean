import Mathlib.Data.List.Basic
import Mathlib.Data.Nat.Find
import Mathlib.Order.Interval.Set.UnorderedInterval

/-! Crossings of a level by a sequence of values. A sequence is given by the value before it
and the list of its values; a step crosses a level that lies between its two ends. Proved
here: how the first crossing of a sequence is found from its head, and that a sequence which
ends on the other side of the level has crossed it. -/

namespace BotTrader.Automata

variable {α : Type*} [LinearOrder α] {t x y z : α} {xs : List α} {k : ℕ}

/-- The step into the value `k` of `xs` crosses the level `t`. The value before `xs` is `x`. -/
def CrossesAt (t x : α) (xs : List α) (k : ℕ) : Prop :=
  ∃ a b, (x :: xs)[k]? = some a ∧ xs[k]? = some b ∧ t ∈ Set.uIcc a b

/-- The first step that crosses `t` is the one into the value `k`. -/
def CrossesFirstAt (t x : α) (xs : List α) (k : ℕ) : Prop :=
  IsLeast {j | CrossesAt t x xs j} k

@[simp] theorem not_crossesAt_nil : ¬CrossesAt t x [] k := by
  rintro ⟨a, b, -, hb, -⟩
  simp at hb

@[simp] theorem crossesAt_zero : CrossesAt t x (y :: xs) 0 ↔ t ∈ Set.uIcc x y := by
  simp [CrossesAt]

@[simp] theorem crossesAt_succ : CrossesAt t x (y :: xs) (k + 1) ↔ CrossesAt t y xs k := by
  simp [CrossesAt]

@[simp] theorem not_crossesFirstAt_nil : ¬CrossesFirstAt t x [] k :=
  fun h => not_crossesAt_nil h.1

theorem crossesFirstAt_of_mem (h : t ∈ Set.uIcc x y) :
    CrossesFirstAt t x (y :: xs) k ↔ k = 0 := by
  constructor
  · intro hk
    have h0 : k ≤ 0 := hk.2 (crossesAt_zero.mpr h)
    omega
  · rintro rfl
    exact ⟨crossesAt_zero.mpr h, fun j _ => Nat.zero_le j⟩

theorem not_crossesFirstAt_zero (h : t ∉ Set.uIcc x y) : ¬CrossesFirstAt t x (y :: xs) 0 :=
  fun hk => h (crossesAt_zero.mp hk.1)

theorem crossesFirstAt_succ (h : t ∉ Set.uIcc x y) :
    CrossesFirstAt t x (y :: xs) (k + 1) ↔ CrossesFirstAt t y xs k := by
  constructor
  · intro hk
    refine ⟨crossesAt_succ.mp hk.1, fun j hj => ?_⟩
    have := hk.2 (crossesAt_succ.mpr hj)
    omega
  · intro hk
    refine ⟨crossesAt_succ.mpr hk.1, fun j hj => ?_⟩
    cases j with
    | zero => exact absurd (crossesAt_zero.mp hj) h
    | succ j =>
      have := hk.2 (crossesAt_succ.mp hj)
      omega

/-- A sequence that crosses has a first crossing. -/
theorem exists_crossesFirstAt : (∃ j, CrossesFirstAt t x xs j) ↔ ∃ j, CrossesAt t x xs j := by
  classical
  refine ⟨fun ⟨j, hj⟩ => ⟨j, hj.1⟩, fun h => ?_⟩
  exact ⟨Nat.find h, Nat.find_spec h, fun j hj => Nat.find_min' h hj⟩

/-- A level between the two ends of a sequence is crossed on the way. -/
theorem crosses_of_mem (h : t ∈ Set.uIcc x z) (hz : xs.getLast? = some z) :
    ∃ j, CrossesAt t x xs j := by
  induction xs generalizing x with
  | nil => simp at hz
  | cons y xs ih =>
    by_cases hy : t ∈ Set.uIcc x y
    · exact ⟨0, crossesAt_zero.mpr hy⟩
    cases xs with
    | nil =>
      obtain rfl : y = z := by simpa using hz
      exact absurd h hy
    | cons w ws =>
      -- The level is on one side of `x` and `y`, so it stays between `y` and the end.
      have hyz : t ∈ Set.uIcc y z := by
        rw [Set.mem_uIcc] at h hy ⊢
        grind
      obtain ⟨j, hj⟩ := ih hyz (by simpa using hz)
      exact ⟨j + 1, crossesAt_succ.mpr hj⟩

end BotTrader.Automata
