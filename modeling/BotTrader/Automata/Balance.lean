import Mathlib.Algebra.BigOperators.Group.List.Basic
import Mathlib.Algebra.Ring.Nat
import BotTrader.Automata.Machine

/-! Balances of runs. A measure of the state grows by what the outputs gain and
shrinks by what they lose; what holds so of every step holds of every run. -/

namespace BotTrader.Automata

section Totals

variable {ω : Type*} (f : ω → ℕ)

/-- The sum over a list of outputs. -/
def total (os : List ω) : ℕ := (os.map f).sum

@[simp] theorem total_nil : total f [] = 0 := rfl

@[simp] theorem total_cons (o : ω) (os : List ω) : total f (o :: os) = f o + total f os := by
  simp [total]

@[simp] theorem total_append (os os' : List ω) : total f (os ++ os') = total f os + total f os' := by
  simp [total]

@[simp] theorem total_replicate (n : ℕ) (o : ω) : total f (List.replicate n o) = n * f o := by
  induction n with
  | zero => simp
  | succ n ih => rw [List.replicate_succ, total_cons, ih, Nat.succ_mul, Nat.add_comm]

theorem total_eq_zero {os : List ω} : total f os = 0 ↔ ∀ o ∈ os, f o = 0 := by
  induction os with
  | nil => simp
  | cons o os ih => simp [ih]

end Totals

namespace Machine

variable {σ ε ω : Type*} {M : Machine σ ε ω} {P : σ → ε → Prop}

/-- What every step balances, a run balances. -/
theorem run_balance (I : σ → Prop) (f : σ → ℕ) (gain loss : ω → ℕ)
    (hstep : ∀ s e, I s → P s e → I (M.next s e))
    (hlaw : ∀ s e, I s → P s e →
      f s + total gain (M.emit s e) = total loss (M.emit s e) + f (M.next s e))
    {s : σ} {es : List ε} (hs : I s) (h : M.Along P s es) :
    f s + total gain (M.emitted s es) = total loss (M.emitted s es) + f (M.run s es) := by
  induction es generalizing s with
  | nil => simp
  | cons e es ih =>
    have hone := hlaw s e hs h.1
    have hrest := ih (hstep s e hs h.1) h.2
    rw [emitted_cons, total_append, total_append, run_cons]
    omega

/-- The same in order: what is pending and what is gained is what is lost and what is pending
then. -/
theorem run_passes {α : Type*} (I : σ → Prop) (pending : σ → List α) (gain loss : ω → List α)
    (hstep : ∀ s e, I s → P s e → I (M.next s e))
    (hlaw : ∀ s e, I s → P s e → pending s ++ (M.emit s e).flatMap gain =
      (M.emit s e).flatMap loss ++ pending (M.next s e))
    {s : σ} {es : List ε} (hs : I s) (h : M.Along P s es) :
    pending s ++ (M.emitted s es).flatMap gain =
      (M.emitted s es).flatMap loss ++ pending (M.run s es) := by
  induction es generalizing s with
  | nil => simp
  | cons e es ih =>
    have hrest := ih (hstep s e hs h.1) h.2
    rw [emitted_cons, List.flatMap_append, List.flatMap_append, ← List.append_assoc,
      hlaw s e hs h.1, List.append_assoc, hrest, List.append_assoc, run_cons]

end Machine

end BotTrader.Automata
