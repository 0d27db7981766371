import Mathlib.Data.List.Basic
import Mathlib.Order.Lattice

/-! A growing log of ascending entries that is read in batches, each from behind the last
entry of the one before. What was read is an initial part of the log, whatever the size
of the batches and whenever the log grows. -/

namespace BotTrader.Automata

/-- What holds of a value and of all entries holds of the last one, or the value. -/
theorem forall_getLastD {β : Type*} {p : β → Prop} {l : List β} {c : β} (hc : p c)
    (hl : ∀ x ∈ l, p x) : p (l.getLastD c) := by
  have hm : l.getLastD c ∈ c :: l := List.getLastD_mem_cons
  exact List.forall_mem_cons.mpr ⟨hc, hl⟩ _ hm

variable {α : Type*} [LinearOrder α]

/-- The reader began behind `c₀` and stands at `c`; `out` is what it has read. -/
structure Cursor (log : List α) (c₀ c : α) (out : List α) : Prop where
  sorted : log.Pairwise (· < ·)
  le : c₀ ≤ c
  mem : c = c₀ ∨ c ∈ log
  split : out ++ log.filter (c < ·) = log.filter (c₀ < ·)

theorem le_getLastD {l : List α} (hl : l.Pairwise (· < ·)) {x : α} (hx : x ∈ l) (c : α) :
    x ≤ l.getLastD c := by
  induction l generalizing c with
  | nil => exact absurd hx List.not_mem_nil
  | cons y ys ih =>
    obtain ⟨hy, hys⟩ := List.pairwise_cons.mp hl
    rw [List.getLastD_cons]
    rcases List.mem_cons.mp hx with rfl | hx
    · exact forall_getLastD le_rfl fun z hz => (hy z hz).le
    · exact ih hys hx y

/-- Behind the last entry of a batch is what the batch has left. -/
theorem filter_getLastD_take {l : List α} {c : α} (hl : l.Pairwise (· < ·))
    (hc : ∀ x ∈ l, c < x) (n : ℕ) : l.filter ((l.take n).getLastD c < ·) = l.drop n := by
  induction n generalizing l c with
  | zero => simpa [List.filter_eq_self] using hc
  | succ n ih =>
    cases l with
    | nil => rfl
    | cons x xs =>
      obtain ⟨hx, hxs⟩ := List.pairwise_cons.mp hl
      have hlast : ¬(xs.take n).getLastD x < x :=
        forall_getLastD (p := fun y => ¬y < x) (lt_irrefl x) fun y hy =>
          (hx y (List.mem_of_mem_take hy)).not_gt
      rw [List.take_succ_cons, List.getLastD_cons, List.filter_cons_of_neg (by simpa using hlast),
        ih hxs hx, List.drop_succ_cons]

namespace Cursor

variable {log out : List α} {c₀ c : α}

theorem nil (c : α) : Cursor ([] : List α) c c [] := ⟨List.Pairwise.nil, le_rfl, .inl rfl, rfl⟩

theorem append (h : Cursor log c₀ c out) {x : α} (hx : ∀ y ∈ log, y < x) :
    Cursor (log ++ [x]) c₀ c out where
  sorted := List.pairwise_append.mpr ⟨h.sorted, List.pairwise_singleton _ x, by simpa using hx⟩
  le := h.le
  mem := h.mem.imp_right (List.mem_append_left [x])
  split := by
    have hlt : c < x ↔ c₀ < x := by
      rcases h.mem with rfl | hm
      · rfl
      · exact ⟨h.le.trans_lt, fun _ => hx c hm⟩
    rw [List.filter_append, List.filter_append, ← List.append_assoc, h.split]
    simp [List.filter_singleton, hlt]

/-- The next batch is read. -/
theorem read (h : Cursor log c₀ c out) (n : ℕ) :
    Cursor log c₀ (((log.filter (c < ·)).take n).getLastD c)
      (out ++ (log.filter (c < ·)).take n) := by
  have htake {x : α} (hx : x ∈ (log.filter (c < ·)).take n) : x ∈ log ∧ c < x := by
    simpa using List.mem_of_mem_take hx
  have hle : c ≤ ((log.filter (c < ·)).take n).getLastD c :=
    forall_getLastD le_rfl fun x hx => (htake hx).2.le
  refine ⟨h.sorted, h.le.trans hle, ?_, ?_⟩
  · exact forall_getLastD (p := fun x => x = c₀ ∨ x ∈ log) h.mem fun x hx => .inr (htake hx).1
  · have hrest := filter_getLastD_take (h.sorted.filter (c < ·)) (c := c) (by simp) n
    rw [List.filter_filter] at hrest
    have hsub : log.filter (((log.filter (c < ·)).take n).getLastD c < ·) =
        (log.filter (c < ·)).drop n := by
      rw [← hrest]
      apply List.filter_congr
      intro x _
      simpa using fun hx => hle.trans_lt hx
    rw [hsub, List.append_assoc, List.take_append_drop, h.split]

/-- What was read has come in ascending order, each entry once. -/
theorem pairwise (h : Cursor log c₀ c out) : out.Pairwise (· < ·) := by
  have hs := h.sorted.filter (c₀ < ·)
  rw [← h.split] at hs
  exact (List.pairwise_append.mp hs).1

end Cursor

end BotTrader.Automata
