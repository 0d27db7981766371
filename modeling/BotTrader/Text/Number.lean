import Mathlib.Data.Nat.Notation
import Mathlib.Data.Int.Notation

/-! The characters that a printed number can hold. -/

namespace BotTrader.Text

variable {c : Char}

theorem not_mem_toString_nat (h : c.isDigit = false) (n : ℕ) : c ∉ (toString n).toList := by
  intro hm
  rw [Nat.toString_eq_repr, Nat.toList_repr] at hm
  have hd := Nat.isDigit_of_mem_toDigits (by decide) (by decide) hm
  rw [h] at hd
  exact Bool.false_ne_true hd

theorem not_mem_toString_int (h : c.isDigit = false) (hc : c ≠ '-') (n : ℤ) :
    c ∉ (toString n).toList := by
  cases n with
  | ofNat n => exact not_mem_toString_nat h n
  | negSucc n =>
    have hs : (toString (Int.negSucc n)).toList = '-' :: (toString (n + 1)).toList := by
      rw [show toString (Int.negSucc n) = "-" ++ toString (n + 1) from rfl, String.toList_append]
      rfl
    rw [hs, List.mem_cons]
    rintro (he | hm)
    · exact hc he
    · exact not_mem_toString_nat h _ hm

end BotTrader.Text
