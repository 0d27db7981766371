import Mathlib.Data.List.Basic

/-! Pieces of text packed into messages of a limited length. A piece that does not fit
behind what the message already holds begins the next one. Nothing is lost, and only a
piece that alone exceeds the limit makes a message that does. -/

namespace BotTrader.Text

variable {α : Type*} {limit : ℕ}

/-- `buf` is the message that is being filled. -/
def pack (limit : ℕ) : List α → List (List α) → List (List α)
  | buf, [] => [buf]
  | buf, p :: ps =>
    if limit < p.length + buf.length then buf :: pack limit p ps else pack limit (buf ++ p) ps

theorem pack_of_lt {buf p : List α} (h : limit < p.length + buf.length) (ps : List (List α)) :
    pack limit buf (p :: ps) = buf :: pack limit p ps := if_pos h

theorem pack_of_le {buf p : List α} (h : p.length + buf.length ≤ limit) (ps : List (List α)) :
    pack limit buf (p :: ps) = pack limit (buf ++ p) ps := if_neg (by omega)

theorem flatten_pack (buf : List α) (ps : List (List α)) :
    (pack limit buf ps).flatten = buf ++ ps.flatten := by
  induction ps generalizing buf with
  | nil => simp [pack]
  | cons p ps ih =>
    by_cases h : limit < p.length + buf.length
    · rw [pack_of_lt h, List.flatten_cons, List.flatten_cons, ih]
    · rw [pack_of_le (by omega), ih, List.flatten_cons, List.append_assoc]

/-- A message fits, or it is the message begun with or a piece. -/
theorem length_le_of_mem_pack {buf m : List α} {ps : List (List α)} (hm : m ∈ pack limit buf ps) :
    m.length ≤ limit ∨ m = buf ∨ m ∈ ps := by
  induction ps generalizing buf with
  | nil => exact .inr (.inl (List.mem_singleton.mp hm))
  | cons p ps ih =>
    by_cases h : limit < p.length + buf.length
    · rw [pack_of_lt h, List.mem_cons] at hm
      apply hm.elim
      · intro he
        exact .inr (.inl he)
      · intro hm
        rcases ih hm with hl | he | hp
        · exact .inl hl
        · exact .inr (.inr (by simp [he]))
        · exact .inr (.inr (by simp [hp]))
    · rw [pack_of_le (by omega)] at hm
      rcases ih hm with hl | he | hp
      · exact .inl hl
      · have hl : m.length ≤ limit := by
          rw [he, List.length_append]
          omega
        exact .inl hl
      · exact .inr (.inr (by simp [hp]))

theorem ne_nil_of_mem_pack {buf m : List α} {ps : List (List α)} (hb : buf ≠ [])
    (hp : ∀ p ∈ ps, p ≠ []) (hm : m ∈ pack limit buf ps) : m ≠ [] := by
  induction ps generalizing buf with
  | nil =>
    rw [pack, List.mem_singleton] at hm
    rw [hm]
    exact hb
  | cons p ps ih =>
    have hps : ∀ p ∈ ps, p ≠ [] := fun q hq => hp q (List.mem_cons_of_mem p hq)
    by_cases h : limit < p.length + buf.length
    · rw [pack_of_lt h, List.mem_cons] at hm
      apply hm.elim
      · intro he
        rw [he]
        exact hb
      · exact ih (hp p List.mem_cons_self) hps
    · rw [pack_of_le (by omega)] at hm
      exact ih (by simp [hb]) hps hm

end BotTrader.Text
