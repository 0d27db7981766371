import Mathlib.Algebra.Group.Int.Defs
import Mathlib.Algebra.Group.Nat.Defs

/-! Arithmetic in an `int` of 32 bits. The language leaves an overflow undefined;
the machine wraps around. -/

namespace BotTrader.Cpp

/-- The greatest `int`. -/
def intMax : ℤ := 2147483647

/-- The value of an `int` expression. -/
def int32 (n : ℤ) : ℤ := n.bmod (2 ^ 32)

/-- Nothing happens within the range. -/
theorem int32_eq {n : ℤ} (h : -2 ^ 31 ≤ n) (h' : n < 2 ^ 31) : int32 n = n := by
  apply Int.bmod_eq_of_le_mul_two
  · omega
  · omega

/-- A counter that is not at its greatest value goes on by one. -/
theorem int32_succ {n : ℤ} (h : 0 ≤ n) (hm : n < intMax) : int32 (n + 1) = n + 1 := by
  have hm' : n < 2147483647 := hm
  exact int32_eq (by omega) (by omega)

/-- Counting on from a value that was counted. -/
theorem int32_int32_add (m n : ℤ) : int32 (int32 m + n) = int32 (m + n) :=
  Int.bmod_add_bmod

end BotTrader.Cpp
