import Mathlib.Data.List.DropRight
import Mathlib.Data.Nat.Notation
import BotTrader.Automata.Handler
import BotTrader.Boost.Ptree

/-! The base64 decoder of the web server: groups of six bits, regrouped to
bytes, most significant first. A character outside the alphabet raises, and so
does the end of the text within the first byte of a group, which is read as a
character like any other. -/

namespace BotTrader.Web

open Automata Boost

abbrev Bytes := List UInt8

/-- The bytes of a text of ASCII characters. -/
def ascii (s : String) : Bytes := s.toList.map fun c => .ofNat c.toNat

/-- `binary_from_base64`: the pad character stands for zero. -/
def sixBits (c : UInt8) : Except Exc ℕ :=
  let n := c.toNat
  if 65 ≤ n ∧ n ≤ 90 then .ok (n - 65)
  else if 97 ≤ n ∧ n ≤ 122 then .ok (n - 71)
  else if 48 ≤ n ∧ n ≤ 57 then .ok (n + 4)
  else if n = 43 then .ok 62
  else if n = 47 then .ok 63
  else if n = 61 then .ok 0
  else .error .dataflow

/-- `transform_width<.., 8, 6>`; bits left over at the end are dropped. -/
def regroup : Bytes → Except Exc Bytes
  | [] => .ok []
  | [a] => do
    let _ ← sixBits a
    .error .dataflow
  | [a, b] => do
    let x ← sixBits a
    let y ← sixBits b
    return [.ofNat (x * 4 + y / 16)]
  | [a, b, c] => do
    let x ← sixBits a
    let y ← sixBits b
    let z ← sixBits c
    return [.ofNat (x * 4 + y / 16), .ofNat (y % 16 * 16 + z / 4)]
  | a :: b :: c :: d :: rest => do
    let x ← sixBits a
    let y ← sixBits b
    let z ← sixBits c
    let w ← sixBits d
    let bytes ← regroup rest
    return .ofNat (x * 4 + y / 16) :: .ofNat (y % 16 * 16 + z / 4) :: .ofNat (z % 4 * 64 + w) ::
      bytes

def decode64 (val : Bytes) : Except Exc Bytes := do
  let bytes ← regroup val
  return bytes.rdropWhile (· == 0)

/-- The character is in the alphabet, or pads. -/
def InAlphabet (c : UInt8) : Prop := ∃ n, sixBits c = .ok n

/-- A text is regrouped when its characters are of the alphabet and it does not end
in a single one of a group. -/
theorem regroup_ok_iff (val : Bytes) :
    (∃ bytes, regroup val = .ok bytes) ↔ (∀ c ∈ val, InAlphabet c) ∧ val.length % 4 ≠ 1 := by
  induction val using regroup.induct with
  | case1 => simp [regroup]
  | case2 a => simp [regroup, exists_bind_eq_ok]
  | case3 a b => simp [regroup, exists_bind_eq_ok, InAlphabet]
  | case4 a b c => simp [regroup, exists_bind_eq_ok, InAlphabet]
  | case5 a b c d rest ih =>
    have hl : (a :: b :: c :: d :: rest).length % 4 = rest.length % 4 := by
      simp only [List.length_cons]
      omega
    rw [hl]
    simp only [List.forall_mem_cons]
    constructor
    · intro h
      simp only [regroup, exists_bind_eq_ok] at h
      obtain ⟨x, hx, y, hy, z, hz, w, hw, bytes, hb, -⟩ := h
      obtain ⟨hr, hn⟩ := ih.mp ⟨bytes, hb⟩
      exact ⟨⟨⟨x, hx⟩, ⟨y, hy⟩, ⟨z, hz⟩, ⟨w, hw⟩, hr⟩, hn⟩
    · rintro ⟨⟨⟨x, hx⟩, ⟨y, hy⟩, ⟨z, hz⟩, ⟨w, hw⟩, hr⟩, hn⟩
      obtain ⟨bytes, hb⟩ := ih.mpr ⟨hr, hn⟩
      simp only [regroup, hx, hy, hz, hw, hb, except_ok_bind, except_pure]
      exact ⟨_, rfl⟩

theorem decode64_ok_iff (val : Bytes) :
    (∃ text, decode64 val = .ok text) ↔ (∀ c ∈ val, InAlphabet c) ∧ val.length % 4 ≠ 1 := by
  rw [← regroup_ok_iff]
  simp [decode64, exists_bind_eq_ok]

end BotTrader.Web
