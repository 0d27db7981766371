import Mathlib.Data.List.Basic
import Mathlib.Order.Lattice

/-! A queue that is worked off from its front, with a register outside of it. Some entries note a
value, which is saved in the register when they are worked off; some act on one. In a queue that
writes ahead the noted values ascend, and an entry acts only on a value that is saved by then:
whenever the queue is lost, what was acted on is not behind the register. -/

namespace BotTrader.Automata

variable {α β : Type*} [LinearOrder β] (note act : α → Option β)

/-- Worked off with `saved` in the register, the queue leaves `last` there. -/
def WriteAhead (saved last : β) : List α → Prop
  | [] => last = saved
  | x :: q => (∀ n ∈ note x, saved < n) ∧ (∀ a ∈ act x, a ≤ (note x).getD saved) ∧
      WriteAhead ((note x).getD saved) last q

namespace WriteAhead

variable {note act} {saved last : β} {q : List α} {x : α}

theorem le_getD (h : ∀ n ∈ note x, saved < n) : saved ≤ (note x).getD saved := by
  cases hn : note x with
  | none => exact le_rfl
  | some n => exact (h n hn).le

/-- The register ends no lower than it is. -/
theorem le (h : WriteAhead note act saved last q) : saved ≤ last := by
  induction q generalizing saved with
  | nil => exact h.ge
  | cons x q ih => exact (le_getD h.1).trans (ih h.2.2)

/-- Nor lower than what is acted on. -/
theorem act_le (h : WriteAhead note act saved last q) : ∀ a ∈ q.filterMap act, a ≤ last := by
  induction q generalizing saved with
  | nil => simp
  | cons x q ih =>
    intro a ha
    obtain ⟨y, hy, hact⟩ := List.mem_filterMap.mp ha
    obtain rfl | hy := List.mem_cons.mp hy
    · exact (h.2.1 a hact).trans h.2.2.le
    · exact ih h.2.2 a (List.mem_filterMap.mpr ⟨y, hy, hact⟩)

theorem append {last' : β} {q' : List α} (h : WriteAhead note act saved last q)
    (h' : WriteAhead note act last last' q') : WriteAhead note act saved last' (q ++ q') := by
  induction q generalizing saved with
  | nil =>
    obtain rfl : last = saved := h
    exact h'
  | cons x q ih => exact ⟨h.1, h.2.1, ih h.2.2⟩

/-- Entries that note ascending values, and do not act. -/
theorem of_note (hn : (saved :: q.filterMap note).Pairwise (· < ·)) (ha : q.filterMap act = []) :
    WriteAhead note act saved ((q.filterMap note).getLastD saved) q := by
  induction q generalizing saved with
  | nil => rfl
  | cons x q ih =>
    have hact : act x = none := by
      cases hx : act x with
      | none => rfl
      | some a => simp [hx] at ha
    have hrest : q.filterMap act = [] := by simpa [hact] using ha
    cases hx : note x with
    | none =>
      rw [List.filterMap_cons_none hx] at hn ⊢
      refine ⟨by simp [hx], by simp [hact], ?_⟩
      rw [hx]
      exact ih hn hrest
    | some n =>
      rw [List.filterMap_cons_some hx] at hn ⊢
      obtain ⟨hlt, htail⟩ := List.pairwise_cons.mp hn
      refine ⟨by simpa [hx] using hlt n List.mem_cons_self, by simp [hact], ?_⟩
      rw [hx, List.getLastD_cons]
      exact ih htail hrest

/-- Entries that act on values that are saved, and note nothing. -/
theorem of_act (hn : q.filterMap note = []) (ha : ∀ a ∈ q.filterMap act, a ≤ saved) :
    WriteAhead note act saved saved q := by
  induction q with
  | nil => rfl
  | cons x q ih =>
    have hnote : note x = none := by
      cases hx : note x with
      | none => rfl
      | some n => simp [hx] at hn
    have hrest : q.filterMap note = [] := by simpa [hnote] using hn
    refine ⟨by simp [hnote], fun a hact => ?_, ?_⟩
    · rw [hnote]
      exact ha a (by simp [List.filterMap_cons_some hact])
    · rw [hnote]
      refine ih hrest fun a hm => ha a ?_
      obtain ⟨y, hy, hact⟩ := List.mem_filterMap.mp hm
      exact List.mem_filterMap.mpr ⟨y, List.mem_cons_of_mem x hy, hact⟩

end WriteAhead

/-- What was acted on, and what the queue will act on, ascends, and the register has caught up with
what was. -/
structure Logged (done : List β) (saved last : β) (q : List α) : Prop where
  ahead : WriteAhead note act saved last q
  ascending : (done ++ q.filterMap act).Pairwise (· < ·)
  saved : ∀ a ∈ done, a ≤ saved

namespace Logged

variable {note act} {done : List β} {saved last : β} {q : List α} {x : α}

theorem nil (h : done.Pairwise (· < ·)) (hs : ∀ a ∈ done, a ≤ saved) :
    Logged note act done saved saved [] := ⟨rfl, by simpa using h, hs⟩

/-- The front is worked off. -/
theorem pop (h : Logged note act done saved last (x :: q)) :
    Logged note act (done ++ (act x).toList) ((note x).getD saved) last q where
  ahead := h.ahead.2.2
  ascending := by
    have hs := h.ascending
    cases hx : act x with
    | none => simpa [List.filterMap_cons_none hx] using hs
    | some a => simpa [List.filterMap_cons_some hx] using hs
  saved a ha := by
    rcases List.mem_append.mp ha with ha | ha
    · exact (h.saved a ha).trans (WriteAhead.le_getD h.ahead.1)
    · exact h.ahead.2.1 a (by simpa using ha)

/-- A batch comes to the end: its values are noted, and then acted on. -/
theorem push (h : Logged note act done saved last q) {ids : List β} {q' : List α}
    (hq : WriteAhead note act last (ids.getLastD last) q') (ha : q'.filterMap act = ids)
    (hi : (last :: ids).Pairwise (· < ·)) :
    Logged note act done saved (ids.getLastD last) (q ++ q') where
  ahead := h.ahead.append hq
  ascending := by
    obtain ⟨hlt, hids⟩ := List.pairwise_cons.mp hi
    rw [List.filterMap_append, ha, ← List.append_assoc]
    refine List.pairwise_append.mpr ⟨h.ascending, hids, fun a hm b hb => ?_⟩
    have hle : a ≤ last := by
      rcases List.mem_append.mp hm with hm | hm
      · exact (h.saved a hm).trans h.ahead.le
      · exact h.ahead.act_le a hm
    exact hle.trans_lt (hlt b hb)
  saved := h.saved

/-- The queue is lost, and the register is all that is left. -/
theorem lose (h : Logged note act done saved last q) : Logged note act done saved saved [] :=
  nil (List.pairwise_append.mp h.ascending).1 h.saved

end Logged

end BotTrader.Automata
