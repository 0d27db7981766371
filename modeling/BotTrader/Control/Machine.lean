import Mathlib.Data.Fin.Basic
import Mathlib.Logic.Function.Basic
import Mathlib.Tactic.Simps.Basic
import BotTrader.Automata.Machine
import BotTrader.Python.Runtime

/-! What the script is for, without its data: one symbol alternates between its
two sides, has at most one order that it tracks, and leaves a tracked order
only when the exchange has ended it or the confirmation timer has run out. An
input says what an event means to the symbol; whether a trigger fires and
whether a commission can be read are part of it. -/

namespace BotTrader.Control

open Automata

/-- Where a symbol stands in its trade. -/
inductive Phase where
  | idle | waiting | confirming | filling
  /-- A fill was taken, but its commission could not be read. -/
  | halfFilled
  /-- The order of side `i` is to be deleted. -/
  | deleting (i : Fin 2)
  deriving DecidableEq

/-- The phases in which an order is tracked. -/
def Phase.Tracking : Phase → Prop
  | idle | waiting | halfFilled => False
  | confirming | filling | deleting _ => True

structure State (π : Type) where
  phase : Phase
  step : Fin 2
  counter : ℕ
  changeMode : Bool
  ids : Fin 2 → String
  prices : Fin 2 → π

/-- An order as the exchange sees it. -/
structure Ticket (π : Type) where
  id : String
  side : Fin 2
  price : π

inductive Input (π : Type) where
  | start (side : Fin 2) (prices : Fin 2 → π) (fires : Bool)
  | stop
  | tick (fires : Bool)
  | report (id status : Option String) (fires readable : Bool)
  | timeout
  | silent

/-- What a symbol asks of the exchange and of its confirmation timer. -/
inductive Act (π : Type) where
  | issue (t : Ticket π)
  | delete (id : String)
  | arm
  | disarm

variable {π : Type}

/-- The order that an act issues, if it does. -/
def Act.ticket? : Act π → Option (Ticket π)
  | .issue t => some t
  | _ => none

@[simp] theorem ticket?_issue (t : Ticket π) : (Act.issue t).ticket? = some t := rfl

@[simp] theorem ticket?_delete (id : String) : (Act.delete id : Act π).ticket? = none := rfl

@[simp] theorem ticket?_arm : (Act.arm : Act π).ticket? = none := rfl

@[simp] theorem ticket?_disarm : (Act.disarm : Act π).ticket? = none := rfl

namespace State

/-- The side whose order is tracked. -/
def tracked (c : State π) : Option (Fin 2) :=
  match c.phase with
  | .idle | .waiting | .halfFilled => none
  | .confirming | .filling => some c.step
  | .deleting i => some i

@[simps -fullyApplied] def load (side : Fin 2) (prices : Fin 2 → π) (c : State π) : State π :=
  { c with step := side, prices := prices }

@[simps -fullyApplied] def wait (c : State π) : State π := { c with phase := .waiting }

def ticket (name : Fin 2 → ℕ → String) (c : State π) : Ticket π :=
  ⟨name c.step c.counter, c.step, c.prices c.step⟩

/-- The order of the current step goes out. -/
def place (name : Fin 2 → ℕ → String) (c : State π) : State π :=
  { c with phase := .confirming, ids := Function.update c.ids c.step (name c.step c.counter) }

/-- The side after a fill; a sale ends the cycle. -/
@[simps -fullyApplied] def turn (c : State π) : State π :=
  { c with
    step := if c.step = 0 then 1 else 0
    counter := if c.step = 0 then c.counter else c.counter + 1 }

@[simps -fullyApplied] def rest (c : State π) : State π := { c with phase := .idle, step := 0 }

@[simps -fullyApplied] def cancel (i : Fin 2) (c : State π) : State π := { c with phase := .deleting i }

/-- A filled order, with the commission read or not. -/
def fill (readable : Bool) (c : State π) : State π :=
  { c.turn with phase := if readable then .waiting else .halfFilled }

end State

/-- The transitions, one for each thing that can happen to a symbol. -/
inductive Step (name : Fin 2 → ℕ → String) :
    State π → Input π → State π → List (Act π) → Prop
  | skip {c i} (h : ∀ side prices fires, i ≠ .start side prices fires) (hs : i ≠ .timeout)
      (hp : i = .stop → c.phase = .idle) : Step name c i c []
  | begin {c side prices} (h : c.phase = .idle) :
      Step name c (.start side prices false) (c.load side prices).wait []
  | beginAndPlace {c side prices} (h : c.phase = .idle) :
      Step name c (.start side prices true) ((c.load side prices).wait.place name)
        [.issue ((c.load side prices).ticket name), .arm]
  | reload {c side prices fires} (h : c.phase = .waiting ∨ c.phase = .halfFilled) :
      Step name c (.start side prices fires) (c.load side prices) []
  | change {c side prices fires i}
      (h : (c.phase = .confirming ∨ c.phase = .filling) ∧ i = c.step ∨ c.phase = .deleting i) :
      Step name c (.start side prices fires)
        ({ c.load side prices with changeMode := true }.cancel i) [.delete (c.ids i)]
  | place {c i} (h : c.phase = .waiting)
      (hi : i = .tick true ∨ ∃ id status readable, i = .report id status true readable) :
      Step name c i (c.place name) [.issue (c.ticket name), .arm]
  | halt {c i}
      (h : (c.phase = .confirming ∨ c.phase = .filling) ∧ i = c.step ∨ c.phase = .deleting i) :
      Step name c .stop (c.cancel i) [.delete (c.ids i)]
  | confirm {c fires readable} (h : c.phase = .confirming) :
      Step name c (.report (some (c.ids c.step)) (some "NEW") fires readable)
        { c with phase := .filling } [.disarm]
  | fill {c fires readable} (h : c.phase = .filling ∨ c.phase = .halfFilled) :
      Step name c (.report (some (c.ids c.step)) (some "FILLED") fires readable)
        (c.fill readable) [.disarm]
  | resume {c id fires readable i} (h : c.phase = .deleting i) (hm : c.changeMode = true) :
      Step name c (.report id (some "CANCELED") fires readable)
        { c.wait with changeMode := false } [.disarm]
  | canceled {c id fires readable i} (h : c.phase = .deleting i) (hm : c.changeMode = false) :
      Step name c (.report id (some "CANCELED") fires readable) c.rest [.disarm, .disarm]
  | rest {c} (h : c.phase = .waiting ∨ c.phase = .halfFilled) : Step name c .stop c.rest [.disarm]
  | timeout {c} : Step name c .timeout c.rest [.disarm]

/-- The one transition that an input makes, computed. -/
def step (name : Fin 2 → ℕ → String) (c : State π) : Input π → State π × List (Act π)
  | .start side prices fires => match c.phase with
    | .idle =>
      if fires then
        ((c.load side prices).wait.place name, [.issue ((c.load side prices).ticket name), .arm])
      else ((c.load side prices).wait, [])
    | .waiting | .halfFilled => (c.load side prices, [])
    | .confirming | .filling =>
      ({ c.load side prices with changeMode := true }.cancel c.step, [.delete (c.ids c.step)])
    | .deleting i =>
      ({ c.load side prices with changeMode := true }.cancel i, [.delete (c.ids i)])
  | .stop => match c.phase with
    | .idle => (c, [])
    | .waiting | .halfFilled => (c.rest, [.disarm])
    | .confirming | .filling => (c.cancel c.step, [.delete (c.ids c.step)])
    | .deleting i => (c.cancel i, [.delete (c.ids i)])
  | .tick fires =>
    if c.phase = .waiting ∧ fires then (c.place name, [.issue (c.ticket name), .arm]) else (c, [])
  | .report id status fires readable => match c.phase with
    | .idle => (c, [])
    | .waiting => if fires then (c.place name, [.issue (c.ticket name), .arm]) else (c, [])
    | .confirming =>
      if id = some (c.ids c.step) ∧ status = some "NEW" then ({ c with phase := .filling }, [.disarm])
      else (c, [])
    | .filling | .halfFilled =>
      if id = some (c.ids c.step) ∧ status = some "FILLED" then (c.fill readable, [.disarm])
      else (c, [])
    | .deleting _ =>
      if status = some "CANCELED" then
        if c.changeMode then ({ c.wait with changeMode := false }, [.disarm])
        else (c.rest, [.disarm, .disarm])
      else (c, [])
  | .timeout => (c.rest, [.disarm])
  | .silent => (c, [])

/-- A symbol that names its orders by `name`. -/
def machine (name : Fin 2 → ℕ → String) : Machine (State π) (Input π) (Act π) where
  next c i := (step name c i).1
  emit c i := (step name c i).2

theorem step_start (name : Fin 2 → ℕ → String) (c : State π) (side : Fin 2)
    (prices : Fin 2 → π) (fires : Bool) :
    Step name c (.start side prices fires) (step name c (.start side prices fires)).1
      (step name c (.start side prices fires)).2 := by
  simp only [step]
  split
  case h_1 h =>
    cases fires
    · exact .begin h
    · exact .beginAndPlace h
  case h_2 h => exact .reload (.inl h)
  case h_3 h => exact .reload (.inr h)
  case h_4 h => exact .change (.inl ⟨.inl h, rfl⟩)
  case h_5 h => exact .change (.inl ⟨.inr h, rfl⟩)
  case h_6 i h => exact .change (.inr h)

theorem step_stop (name : Fin 2 → ℕ → String) (c : State π) :
    Step name c .stop (step name c .stop).1 (step name c .stop).2 := by
  simp only [step]
  split
  case h_1 h => exact .skip (by simp) (by simp) fun _ => h
  case h_2 h => exact .rest (.inl h)
  case h_3 h => exact .rest (.inr h)
  case h_4 h => exact .halt (.inl ⟨.inl h, rfl⟩)
  case h_5 h => exact .halt (.inl ⟨.inr h, rfl⟩)
  case h_6 i h => exact .halt (.inr h)

theorem step_report (name : Fin 2 → ℕ → String) (c : State π) (id status : Option String)
    (fires readable : Bool) :
    Step name c (.report id status fires readable)
      (step name c (.report id status fires readable)).1
      (step name c (.report id status fires readable)).2 := by
  have skip : Step name c (.report id status fires readable) c [] := .skip (by simp) (by simp) (by simp)
  simp only [step]
  split
  case h_1 h => exact skip
  case h_2 h =>
    split
    · next hf => exact .place h (.inr ⟨id, status, readable, by rw [hf]⟩)
    · exact skip
  case h_3 h =>
    split
    · next hr =>
      obtain ⟨rfl, rfl⟩ := hr
      exact .confirm h
    · exact skip
  case h_4 h =>
    split
    · next hr =>
      obtain ⟨rfl, rfl⟩ := hr
      exact .fill (.inl h)
    · exact skip
  case h_5 h =>
    split
    · next hr =>
      obtain ⟨rfl, rfl⟩ := hr
      exact .fill (.inr h)
    · exact skip
  case h_6 i h =>
    split
    · next hr =>
      subst hr
      split
      · next hm => exact .resume h hm
      · next hm => exact .canceled h (by simpa using hm)
    · exact skip

/-- Every input makes one of the listed transitions. -/
theorem step_cases (name : Fin 2 → ℕ → String) (c : State π) (i : Input π) :
    Step name c i ((machine name).next c i) ((machine name).emit c i) := by
  cases i with
  | start side prices fires => exact step_start name c side prices fires
  | stop => exact step_stop name c
  | tick fires =>
    simp only [machine, step]
    split
    · next h => exact .place h.1 (.inl (by rw [h.2]))
    · exact .skip (by simp) (by simp) (by simp)
  | report id status fires readable => exact step_report name c id status fires readable
  | timeout => exact .timeout
  | silent => exact .skip (by simp) (by simp) (by simp)

/-- A transition places one order and arms the timer for it, or does neither; it
enters the phase of an unconfirmed order only by placing it. -/
theorem Step.places_or_not {name : Fin 2 → ℕ → String} {c c' : State π} {i : Input π}
    {acts : List (Act π)} (h : Step name c i c' acts) :
    (∃ c₀ : State π, acts = [.issue (c₀.ticket name), .arm] ∧ c' = c₀.place name ∧
        ¬c.phase.Tracking) ∨
      acts.filterMap Act.ticket? = [] ∧ Act.arm ∉ acts ∧ (c'.phase = .confirming → c' = c) := by
  cases h with
  | @beginAndPlace side prices hw =>
    exact .inl ⟨(c.load side prices).wait, rfl, rfl, by simp [hw, Phase.Tracking]⟩
  | place hw => exact .inl ⟨_, rfl, rfl, by simp [hw, Phase.Tracking]⟩
  | reload hw => exact .inr ⟨rfl, by simp, by rcases hw with hw | hw <;> simp [State.load, hw]⟩
  | @fill _ readable => exact .inr ⟨rfl, by simp, by cases readable <;> simp [State.fill]⟩
  | _ => exact .inr ⟨rfl, by simp, by simp⟩

/-- A symbol lets go of its order on a timeout, on a fill of it, or on a
cancellation that it waits for. -/
theorem Step.letsGo {name : Fin 2 → ℕ → String} {c c' : State π} {i : Input π}
    {acts : List (Act π)} (h : Step name c i c' acts) (ht : c.phase.Tracking)
    (ht' : ¬c'.phase.Tracking) :
    i = .timeout ∨ ∃ id status fires readable, i = .report id status fires readable ∧
      (c.phase = .filling ∧ id = some (c.ids c.step) ∧ status = some "FILLED" ∨
        (∃ j, c.phase = .deleting j) ∧ status = some "CANCELED") := by
  cases h with
  | skip => exact absurd ht ht'
  | change | halt | confirm => simp [State.cancel, Phase.Tracking] at ht'
  | begin hp | beginAndPlace hp | place hp => simp [hp, Phase.Tracking] at ht
  | reload hp | rest hp => rcases hp with hp | hp <;> simp [hp, Phase.Tracking] at ht
  | fill hp =>
    rcases hp with hp | hp
    · exact .inr ⟨_, _, _, _, rfl, .inl ⟨hp, rfl, rfl⟩⟩
    · simp [hp, Phase.Tracking] at ht
  | resume hp | canceled hp => exact .inr ⟨_, _, _, _, rfl, .inr ⟨⟨_, hp⟩, rfl⟩⟩
  | timeout => exact .inl rfl

end BotTrader.Control
