import BotTrader.Automata.Machine
import Mathlib.Data.List.GetD
import Mathlib.Order.Filter.AtTopBot.Basic

/-! Runs that never end. A schedule says which event comes at every time. It is fair to an
event that happens again and again if it can happen again and again. Proved here: what only one
event ends is ended by it, if the schedule is fair to this event and it can always happen
later. -/

namespace BotTrader.Automata

open Filter

namespace Machine

variable {σ ε ω : Type*} (M : Machine σ ε ω)

/-- The events before a time. -/
def before (es : ℕ → ε) (n : ℕ) : List ε := (List.range n).map es

/-- The state at a time. -/
def stateAt (s : σ) (es : ℕ → ε) (n : ℕ) : σ := M.run s (before es n)

/-- The outputs before a time. -/
def outputsAt (s : σ) (es : ℕ → ε) (n : ℕ) : List ω := M.emitted s (before es n)

/-- The event can happen: it does not leave the state alone. -/
def Enabled (s : σ) (e : ε) : Prop := M.next s e ≠ s

/-- The event happens at this time. -/
def Happens (s : σ) (es : ℕ → ε) (e : ε) (n : ℕ) : Prop :=
  es n = e ∧ M.Enabled (M.stateAt s es n) e

/-- An event that can happen again and again does so. -/
def Fair (s : σ) (es : ℕ → ε) (e : ε) : Prop :=
  (∃ᶠ n in atTop, M.Enabled (M.stateAt s es n) e) → ∃ᶠ n in atTop, M.Happens s es e n

variable {M} {s : σ} {es : ℕ → ε} {e : ε}

theorem before_succ (es : ℕ → ε) (n : ℕ) : before es (n + 1) = before es n ++ [es n] := by
  simp [before, List.range_succ]

theorem stateAt_succ (s : σ) (es : ℕ → ε) (n : ℕ) :
    M.stateAt s es (n + 1) = M.next (M.stateAt s es n) (es n) := by
  rw [stateAt, before_succ, run_append]
  rfl

theorem outputsAt_succ (s : σ) (es : ℕ → ε) (n : ℕ) :
    M.outputsAt s es (n + 1) = M.outputsAt s es n ++ M.emit (M.stateAt s es n) (es n) := by
  rw [outputsAt, before_succ, emitted_append, emitted_cons, emitted_nil, List.append_nil]
  rfl

theorem outputsAt_mono (s : σ) (es : ℕ → ε) {n m : ℕ} (h : n ≤ m) :
    M.outputsAt s es n <+: M.outputsAt s es m := by
  induction m, h using Nat.le_induction with
  | base => exact List.prefix_refl _
  | succ m _ ih => exact ih.trans (outputsAt_succ s es m ▸ List.prefix_append _ _)

/-- What only `e` ends is ended by `e`, if it cannot last without `e` being possible later. -/
theorem Fair.happens (hf : M.Fair s es e) {P : σ → Prop}
    (hkeep : ∀ n, P (M.stateAt s es n) → es n ≠ e → P (M.next (M.stateAt s es n) (es n)))
    (hen : ∀ n, ∃ m ≥ n, P (M.stateAt s es m) → M.Enabled (M.stateAt s es m) e)
    {n : ℕ} (hn : P (M.stateAt s es n)) : ∃ m ≥ n, P (M.stateAt s es m) ∧ M.Happens s es e m := by
  by_contra! hno
  -- As long as `e` does not happen nothing ends `P`.
  have hall : ∀ m ≥ n, P (M.stateAt s es m) := by
    intro m hm
    induction m, hm using Nat.le_induction with
    | base => exact hn
    | succ m hm ih =>
      by_cases he : es m = e
      · have hstay : M.next (M.stateAt s es m) e = M.stateAt s es m :=
          not_not.mp fun h => hno m hm ih ⟨he, h⟩
        rw [stateAt_succ, he, hstay]
        exact ih
      · rw [stateAt_succ]
        exact hkeep m ih he
  have hoften : ∃ᶠ m in atTop, M.Enabled (M.stateAt s es m) e := by
    refine frequently_atTop.mpr fun a => ?_
    obtain ⟨m, hm, h⟩ := hen (max a n)
    exact ⟨m, (le_max_left a n).trans hm, h (hall m ((le_max_right a n).trans hm))⟩
  obtain ⟨m, hm, h⟩ := frequently_atTop.mp (hf hoften) n
  exact hno m hm (hall m hm) h

/-- What cannot happen any more needs no fairness. -/
theorem Fair.of_disabled (N : ℕ) (h : ∀ n ≥ N, ¬M.Enabled (M.stateAt s es n) e) :
    M.Fair s es e := by
  intro hen
  obtain ⟨n, hn, hen⟩ := frequently_atTop.mp hen N
  exact absurd hen (h n hn)

/-- A run that has ended is a run that never ends, if `e` leaves its last state alone. -/
theorem stateAt_getD {l : List ε} (h : M.next (M.run s l) e = M.run s l) {n : ℕ}
    (hn : l.length ≤ n) : M.stateAt s (fun n => l.getD n e) n = M.run s l := by
  induction n, hn using Nat.le_induction with
  | base =>
    have hbefore : before (fun n => l.getD n e) l.length = l := by
      refine List.ext_getElem (by simp [before]) fun i hi hi' => ?_
      simp [before, hi']
    rw [stateAt, hbefore]
  | succ n hn ih =>
    rw [stateAt_succ, ih, List.getD_eq_default _ _ hn, h]

end Machine

end BotTrader.Automata
