import Mathlib.Logic.Function.Basic
import BotTrader.Automata.Machine

/-! Copies of one machine side by side, each under its own name. An event is
for one of them and its outputs bear that name, so what a copy does in a run of
the whole is what it does alone under its own events. -/

namespace BotTrader.Automata

section Only

variable {ι α : Type*} [DecidableEq ι]

/-- The entries of one name. -/
def only (i : ι) (xs : List (ι × α)) : List α := xs.filterMap fun x => if x.1 = i then some x.2 else none

@[simp] theorem only_nil (i : ι) : only i ([] : List (ι × α)) = [] := rfl

@[simp] theorem only_append (i : ι) (xs ys : List (ι × α)) :
    only i (xs ++ ys) = only i xs ++ only i ys := List.filterMap_append

theorem only_cons_self (i : ι) (x : α) (xs : List (ι × α)) :
    only i ((i, x) :: xs) = x :: only i xs := by
  simp [only]

theorem only_cons_of_ne {i j : ι} (h : j ≠ i) (x : α) (xs : List (ι × α)) :
    only i ((j, x) :: xs) = only i xs := by
  simp [only, h]

theorem only_map_self (i : ι) (xs : List α) : only i (xs.map fun x => (i, x)) = xs := by
  induction xs with
  | nil => rfl
  | cons x xs ih => rw [List.map_cons, only_cons_self, ih]

theorem only_map_of_ne {i j : ι} (h : j ≠ i) (xs : List α) : only i (xs.map fun x => (j, x)) = [] := by
  induction xs with
  | nil => rfl
  | cons x xs ih => rw [List.map_cons, only_cons_of_ne h, ih]

/-- Entries that are recognised by their name are found without it. -/
theorem filter_only {p : α → Bool} {i : ι} {xs : List (ι × α)}
    (h : ∀ x ∈ xs, p x.2 = true → x.1 = i) : (xs.map Prod.snd).filter p = (only i xs).filter p := by
  induction xs with
  | nil => rfl
  | cons x xs ih =>
    obtain ⟨j, a⟩ := x
    have ih := ih fun y hy => h y (List.mem_cons_of_mem _ hy)
    by_cases hj : j = i
    · subst hj
      rw [only_cons_self, List.map_cons, List.filter_cons, List.filter_cons, ih]
    · have hp : ¬p a = true := fun hp => hj (h (j, a) List.mem_cons_self hp)
      rw [only_cons_of_ne hj, List.map_cons, List.filter_cons_of_neg hp, ih]

end Only

namespace Machine

variable {ι σ ε ω : Type*} [DecidableEq ι] (M : Machine σ ε ω)

/-- A copy of `M` under each name that has a state. -/
def fleet : Machine (ι → Option σ) (ι × ε) (ι × ω) where
  next t e := Function.update t e.1 ((t e.1).map fun s => M.next s e.2)
  emit t e := ((t e.1).toList.flatMap fun s => M.emit s e.2).map fun o => (e.1, o)

variable (t : ι → Option σ) (es : List (ι × ε)) (i : ι)

theorem fleet_next_self (e : ε) : M.fleet.next t (i, e) i = (t i).map fun s => M.next s e := by
  simp [fleet]

theorem fleet_next_of_ne {i j : ι} (h : j ≠ i) (e : ε) : M.fleet.next t (j, e) i = t i := by
  simp [fleet, h.symm]

/-- A copy is where its own events take it. -/
theorem run_fleet : M.fleet.run t es i = (t i).map fun s => M.run s (only i es) := by
  induction es generalizing t with
  | nil => simp
  | cons e es ih =>
    obtain ⟨j, e⟩ := e
    rw [run_cons, ih]
    by_cases h : j = i
    · subst h
      rw [fleet_next_self, only_cons_self, Option.map_map]
      rfl
    · rw [fleet_next_of_ne M t h, only_cons_of_ne h]

/-- It emits what it emits alone. -/
theorem emitted_fleet :
    only i (M.fleet.emitted t es) = (t i).toList.flatMap fun s => M.emitted s (only i es) := by
  induction es generalizing t with
  | nil => cases t i <;> rfl
  | cons e es ih =>
    obtain ⟨j, e⟩ := e
    rw [emitted_cons, only_append, ih]
    by_cases h : j = i
    · subst h
      rw [fleet_next_self, only_cons_self, fleet, only_map_self]
      cases t j <;> simp
    · rw [fleet_next_of_ne M t h, only_cons_of_ne h, fleet, only_map_of_ne h, List.nil_append]

/-- No copy comes or goes. -/
theorem isSome_run_fleet : (M.fleet.run t es i).isSome = (t i).isSome := by
  rw [run_fleet, Option.isSome_map]

/-- What all outputs of a copy meet in every run of its own, its outputs meet in every run
of the whole. -/
theorem forall_emitted_fleet {Q : ι → ω → Prop}
    (h : ∀ i s, t i = some s → ∀ es, ∀ o ∈ M.emitted s es, Q i o) :
    ∀ x ∈ M.fleet.emitted t es, Q x.1 x.2 := by
  rintro ⟨i, o⟩ hx
  have ho : o ∈ only i (M.fleet.emitted t es) := List.mem_filterMap.mpr ⟨(i, o), hx, by simp⟩
  rw [emitted_fleet] at ho
  obtain ⟨s, hs, ho⟩ := List.mem_flatMap.mp ho
  exact h i s (Option.mem_toList.mp hs) _ o ho

end Machine

end BotTrader.Automata
