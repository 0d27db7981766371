import Mathlib.Algebra.Order.Floor.Div
import Mathlib.Tactic.Cases
import BotTrader.Web.Base64

/-! The base64 encoder of the web server, and what the decoder makes of its text: the bytes,
and a zero for every pad character, which is trimmed. -/

namespace BotTrader.Web

open Automata

/-- `base64_from_binary` -/
def base64Char (n : ℕ) : UInt8 :=
  if n < 26 then .ofNat (n + 65)
  else if n < 52 then .ofNat (n + 71)
  else if n < 62 then .ofNat (n - 4)
  else if n = 62 then 43
  else 47

/-- `transform_width<.., 6, 8>`; the last group is filled with zeros. -/
def sextets : Bytes → List ℕ
  | [] => []
  | [a] => [a.toNat / 4, a.toNat % 4 * 16]
  | [a, b] => [a.toNat / 4, a.toNat % 4 * 16 + b.toNat / 16, b.toNat % 16 * 4]
  | a :: b :: c :: rest =>
    a.toNat / 4 :: (a.toNat % 4 * 16 + b.toNat / 16) :: (b.toNat % 16 * 4 + c.toNat / 64) ::
      c.toNat % 64 :: sextets rest

/-- The pad characters that the last group needs. -/
def padding (val : Bytes) : ℕ := (3 - val.length % 3) % 3

def encode64 (val : Bytes) : Bytes :=
  let tmp := (sextets val).map base64Char
  tmp ++ List.replicate (padding val) 61

theorem sixBits_base64Char : ∀ n < 64, sixBits (base64Char n) = .ok n := by decide

theorem sixBits_pad : sixBits 61 = .ok 0 := by decide

theorem padding_cons (a b c : UInt8) (rest : Bytes) :
    padding (a :: b :: c :: rest) = padding rest := by
  have hl : (a :: b :: c :: rest).length % 3 = rest.length % 3 := by
    simp only [List.length_cons]
    omega
  rw [padding, padding, hl]

theorem encode64_one (a : UInt8) :
    encode64 [a] = [base64Char (a.toNat / 4), base64Char (a.toNat % 4 * 16), 61, 61] := rfl

theorem encode64_two (a b : UInt8) :
    encode64 [a, b] = [base64Char (a.toNat / 4), base64Char (a.toNat % 4 * 16 + b.toNat / 16),
      base64Char (b.toNat % 16 * 4), 61] := rfl

theorem encode64_cons (a b c : UInt8) (rest : Bytes) :
    encode64 (a :: b :: c :: rest) =
      base64Char (a.toNat / 4) :: base64Char (a.toNat % 4 * 16 + b.toNat / 16) ::
        base64Char (b.toNat % 16 * 4 + c.toNat / 64) :: base64Char (c.toNat % 64) ::
          encode64 rest := by
  rw [encode64, encode64, padding_cons]
  rfl

/-- The first byte lies in the first two groups of six bits. -/
theorem byte_one (a b : UInt8) :
    UInt8.ofNat (a.toNat / 4 * 4 + (a.toNat % 4 * 16 + b.toNat / 16) / 16) = a := by
  have ha := a.toNat_lt
  have hb := b.toNat_lt
  have he : a.toNat / 4 * 4 + (a.toNat % 4 * 16 + b.toNat / 16) / 16 = a.toNat := by omega
  rw [he, UInt8.ofNat_toNat]

theorem byte_two (a b c : UInt8) :
    UInt8.ofNat ((a.toNat % 4 * 16 + b.toNat / 16) % 16 * 16 +
      (b.toNat % 16 * 4 + c.toNat / 64) / 4) = b := by
  have hb := b.toNat_lt
  have hc := c.toNat_lt
  have he : (a.toNat % 4 * 16 + b.toNat / 16) % 16 * 16 +
      (b.toNat % 16 * 4 + c.toNat / 64) / 4 = b.toNat := by omega
  rw [he, UInt8.ofNat_toNat]

theorem byte_three (b c : UInt8) :
    UInt8.ofNat ((b.toNat % 16 * 4 + c.toNat / 64) % 4 * 64 + c.toNat % 64) = c := by
  have hc := c.toNat_lt
  have he : (b.toNat % 16 * 4 + c.toNat / 64) % 4 * 64 + c.toNat % 64 = c.toNat := by omega
  rw [he, UInt8.ofNat_toNat]

/-- The decoder regroups the bytes, with the zeros of the padding behind them. -/
theorem regroup_encode64 (val : Bytes) :
    regroup (encode64 val) = .ok (val ++ List.replicate (padding val) 0) := by
  induction val using sextets.induct with
  | case1 => rfl
  | case2 a =>
    have ha := a.toNat_lt
    have hx := sixBits_base64Char (a.toNat / 4) (by omega)
    have hy := sixBits_base64Char (a.toNat % 4 * 16) (by omega)
    have h1 : UInt8.ofNat (a.toNat / 4 * 4 + a.toNat % 4 * 16 / 16) = a := byte_one a 0
    have h2 : a.toNat % 4 * 16 % 16 = 0 := by omega
    rw [encode64_one, regroup]
    simp only [hx, hy, sixBits_pad, regroup, except_ok_bind, except_pure, h1, h2]
    rfl
  | case3 a b =>
    have ha := a.toNat_lt
    have hb := b.toNat_lt
    have hx := sixBits_base64Char (a.toNat / 4) (by omega)
    have hy := sixBits_base64Char (a.toNat % 4 * 16 + b.toNat / 16) (by omega)
    have hz := sixBits_base64Char (b.toNat % 16 * 4) (by omega)
    have h2 : UInt8.ofNat ((a.toNat % 4 * 16 + b.toNat / 16) % 16 * 16 + b.toNat % 16 * 4 / 4) =
        b := byte_two a b 0
    have h3 : b.toNat % 16 * 4 % 4 = 0 := by omega
    rw [encode64_two, regroup]
    simp only [hx, hy, hz, sixBits_pad, regroup, except_ok_bind, except_pure, byte_one, h2, h3]
    rfl
  | case4 a b c rest ih =>
    have ha := a.toNat_lt
    have hb := b.toNat_lt
    have hc := c.toNat_lt
    have hx := sixBits_base64Char (a.toNat / 4) (by omega)
    have hy := sixBits_base64Char (a.toNat % 4 * 16 + b.toNat / 16) (by omega)
    have hz := sixBits_base64Char (b.toNat % 16 * 4 + c.toNat / 64) (by omega)
    have hw := sixBits_base64Char (c.toNat % 64) (by omega)
    rw [encode64_cons, padding_cons, regroup]
    simp only [hx, hy, hz, hw, ih, except_ok_bind, except_pure, byte_one, byte_two, byte_three]
    rfl

/-- Four characters for every three bytes that are begun. -/
theorem length_encode64 (val : Bytes) : (encode64 val).length = 4 * (val.length ⌈/⌉ 3) := by
  rw [Nat.ceilDiv_eq_add_pred_div]
  induction val using sextets.induct with
  | case1 => rfl
  | case2 a => simp [encode64_one]
  | case3 a b => simp [encode64_two]
  | case4 a b c rest ih =>
    rw [encode64_cons]
    simp only [List.length_cons, ih]
    omega

theorem rdropWhile_append_zeros {val : Bytes} (h : val.getLast? ≠ some 0) (n : ℕ) :
    (val ++ List.replicate n 0).rdropWhile (· == 0) = val := by
  induction n with
  | zero =>
    rw [List.replicate_zero, List.append_nil, List.rdropWhile_eq_self_iff]
    intro hne hz
    exact h (by rw [List.getLast?_eq_getLast_of_ne_nil hne, beq_iff_eq.mp hz])
  | succ n ih =>
    rw [List.replicate_succ', ← List.append_assoc, List.rdropWhile_concat_pos _ _ _ rfl]
    exact ih

/-- Base64 framing is lossless: what is decoded is what was encoded, unless it ends in a
zero, and the text has four characters for every three bytes begun. -/
theorem decode64_encode64 (x : Bytes) :
    (x.getLast? ≠ some 0 → decode64 (encode64 x) = .ok x) ∧
      (encode64 x).length = 4 * (x.length ⌈/⌉ 3) := by
  refine ⟨fun h => ?_, length_encode64 x⟩
  rw [decode64, regroup_encode64, except_ok_bind, except_pure, rdropWhile_append_zeros h]

theorem decode64_encode64_zeroThenOne :
    ((([0, 1] : Bytes).getLast? ≠ some 0) ∧ decode64 (encode64 [0, 1]) = .ok [0, 1]) ∧
      (encode64 [0, 1]).length = 4 * (([0, 1] : Bytes).length ⌈/⌉ 3) :=
  ⟨⟨by decide, (decode64_encode64 [0, 1]).1 (by decide)⟩, (decode64_encode64 [0, 1]).2⟩

end BotTrader.Web
