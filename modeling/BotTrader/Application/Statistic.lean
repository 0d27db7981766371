import Mathlib.Tactic.Cases
import BotTrader.Automata.Machine
import BotTrader.Application.Report

/-! The dialogue of the statistics: the symbol, then the period. The engine passes through its
`switch` with the text that came, and once more with an empty one when a branch ends in a
`break`. -/

namespace BotTrader.Application

open Automata

namespace Statistic

inductive State where
  | SS_Idle | SS_Start | SS_Symbol | SS_Period | SS_Ready
  deriving DecidableEq

/-- The state after a `break` is a later one. -/
def State.left : State → ℕ
  | .SS_Idle => 0
  | .SS_Start => 3
  | .SS_Symbol | .SS_Period => 2
  | .SS_Ready => 1

/-- What is sent and told. A keyboard has a row for each key. -/
inductive Out where
  | setInputMode (statistic : Bool)
  | sendMessage (text : String) (keys : List String)
  | statReady (data : StatData)
  deriving DecidableEq

end Statistic

structure Statistic where
  state : Statistic.State := .SS_Idle
  data : StatData := ⟨"", 0⟩
  cancel : Bool := false

namespace Statistic

/-- The text up to the first space. -/
def firstArg (str : String) : String := String.ofList (str.toList.takeWhile (· ≠ ' '))

def periodKeys : List String :=
  ["1 час", "2 часа", "3 часа", "12 часов", "24 часа", "48 часов", "Отмена"]

variable (lexicalCast : String → Option UInt16) (symbolsList : List String)

def engine (m : Statistic) (data : String) : Statistic × List Out :=
  match _h : m.state with
  | .SS_Start =>
    let m := { m with cancel := false }
    if 1 < symbolsList.length then
      ({ m with state := .SS_Symbol },
        [.sendMessage "Отчет по валюте:" (symbolsList ++ ["$a Все"] ++ ["$c Отмена"])])
    else if symbolsList.length = 1 then engine { m with state := .SS_Symbol } ""
    else engine { m with cancel := true, state := .SS_Ready } ""
  | .SS_Symbol =>
    let cmdata := firstArg data
    if cmdata = "$c" then engine { m with cancel := true, state := .SS_Ready } ""
    else
      let symbol := if cmdata = "$a" then "" else cmdata
      ({ m with data := { m.data with symbol := symbol }, state := .SS_Period },
        [.sendMessage "Статистика за период:" periodKeys])
  | .SS_Period =>
    match lexicalCast (firstArg data) with
    | some hours => engine { m with data := { m.data with hours := hours }, state := .SS_Ready } ""
    | none => engine { m with cancel := true, state := .SS_Ready } ""
  | .SS_Ready =>
    ({ m with state := .SS_Idle },
      [if m.cancel then .sendMessage "Отменено" [] else .statReady m.data, .setInputMode false])
  | .SS_Idle => (m, [])
termination_by m.state.left
decreasing_by all_goals simp [State.left, _h]

def start (m : Statistic) : Statistic × List Out :=
  let r := engine lexicalCast symbolsList { m with state := .SS_Start } ""
  (r.1, .setInputMode true :: r.2)

inductive Input where
  | start
  | setData (data : String)

/-- The dialogue under any inputs. -/
def statistic : Machine Statistic Input Out where
  next m
    | .start => (m.start lexicalCast symbolsList).1
    | .setData data => (m.engine lexicalCast symbolsList data).1
  emit m
    | .start => (m.start lexicalCast symbolsList).2
    | .setData data => (m.engine lexicalCast symbolsList data).2

/-- The symbol that a reply chooses; none means all of them. -/
def chosen (reply : String) : String :=
  if firstArg reply = "$a" then "" else firstArg reply

variable {lexicalCast symbolsList} {d : StatData} {c : Bool} {data : String}

@[simp] theorem engine_idle :
    engine lexicalCast symbolsList ⟨.SS_Idle, d, c⟩ data = (⟨.SS_Idle, d, c⟩, []) := by
  rw [engine]

@[simp] theorem engine_ready :
    engine lexicalCast symbolsList ⟨.SS_Ready, d, c⟩ data = (⟨.SS_Idle, d, c⟩,
      [if c then .sendMessage "Отменено" [] else .statReady d, .setInputMode false]) := by
  rw [engine]

theorem engine_period :
    engine lexicalCast symbolsList ⟨.SS_Period, d, c⟩ data =
      match lexicalCast (firstArg data) with
      | some hours => (⟨.SS_Idle, { d with hours := hours }, c⟩,
          [if c then .sendMessage "Отменено" [] else .statReady { d with hours := hours },
            .setInputMode false])
      | none => (⟨.SS_Idle, d, true⟩, [.sendMessage "Отменено" [], .setInputMode false]) := by
  rw [engine]
  cases lexicalCast (firstArg data) <;> simp

theorem engine_symbol :
    engine lexicalCast symbolsList ⟨.SS_Symbol, d, c⟩ data =
      if firstArg data = "$c" then
        (⟨.SS_Idle, d, true⟩, [.sendMessage "Отменено" [], .setInputMode false])
      else (⟨.SS_Period, { d with symbol := chosen data }, c⟩,
        [.sendMessage "Статистика за период:" periodKeys]) := by
  rw [engine]
  by_cases h : firstArg data = "$c" <;> simp [h, chosen]

theorem engine_start :
    engine lexicalCast symbolsList ⟨.SS_Start, d, c⟩ data =
      if 1 < symbolsList.length then
        (⟨.SS_Symbol, d, false⟩,
          [.sendMessage "Отчет по валюте:" (symbolsList ++ ["$a Все"] ++ ["$c Отмена"])])
      else if symbolsList.length = 1 then
        (⟨.SS_Period, { d with symbol := "" }, false⟩,
          [.sendMessage "Статистика за период:" periodKeys])
      else (⟨.SS_Idle, d, true⟩, [.sendMessage "Отменено" [], .setInputMode false]) := by
  rw [engine]
  have hs : firstArg "" ≠ "$c" := by decide
  have hc : chosen "" = "" := by decide
  by_cases h : 1 < symbolsList.length
  · simp [h]
  · by_cases h' : symbolsList.length = 1 <;> simp [h, h', engine_symbol, hs, hc]

/-! ### The symbol of a request -/

/-- Between two inputs the engine waits for a text, or for nothing. -/
def Waits (m : Statistic) : Prop :=
  m.state = .SS_Idle ∨ m.state = .SS_Symbol ∨ m.state = .SS_Period

/-- The symbol that an input asks for. -/
def Input.symbol : Input → String
  | .start => ""
  | .setData reply => chosen reply

variable {m : Statistic} {sd : StatData}

variable (lexicalCast symbolsList) in
theorem Waits.next (h : m.Waits) (i : Input) :
    ((statistic lexicalCast symbolsList).next m i).Waits := by
  obtain ⟨state, d, c⟩ := m
  cases i with
  | start =>
    simp only [statistic, Statistic.start, engine_start]
    split_ifs <;> simp [Waits]
  | setData data =>
    rcases h with rfl | rfl | rfl
    · simp [statistic, Waits]
    · simp only [statistic, engine_symbol]
      split_ifs <;> simp [Waits]
    · simp only [statistic, engine_period]
      cases lexicalCast (firstArg data) <;> simp [Waits]

/-- The period is asked for behind the input that gave the symbol. -/
theorem Waits.symbol (h : m.Waits) (i : Input)
    (hp : ((statistic lexicalCast symbolsList).next m i).state = .SS_Period) :
    ((statistic lexicalCast symbolsList).next m i).data.symbol = i.symbol := by
  obtain ⟨state, d, c⟩ := m
  cases i with
  | start =>
    simp only [statistic, Statistic.start, engine_start] at hp ⊢
    by_cases hm : 1 < symbolsList.length
    · simp [hm] at hp
    · by_cases ho : symbolsList.length = 1
      · simp [ho, Input.symbol]
      · simp [hm, ho] at hp
  | setData data =>
    rcases h with rfl | rfl | rfl
    · simp [statistic] at hp
    · simp only [statistic, engine_symbol] at hp ⊢
      by_cases hc : firstArg data = "$c"
      · simp [hc] at hp
      · simp [hc, Input.symbol]
    · simp only [statistic, engine_period] at hp
      cases hl : lexicalCast (firstArg data) <;> simp [hl] at hp

theorem Waits.ready (h : m.Waits) (i : Input)
    (hr : .statReady sd ∈ (statistic lexicalCast symbolsList).emit m i) :
    m.state = .SS_Period ∧ sd.symbol = m.data.symbol := by
  obtain ⟨state, d, c⟩ := m
  cases i with
  | start =>
    simp only [statistic, Statistic.start, engine_start] at hr
    split_ifs at hr <;> simp at hr
  | setData data =>
    rcases h with rfl | rfl | rfl
    · simp [statistic] at hr
    · simp only [statistic, engine_symbol] at hr
      split_ifs at hr <;> simp at hr
    · refine ⟨rfl, ?_⟩
      simp only [statistic, engine_period] at hr
      cases hl : lexicalCast (firstArg data) with
      | none => simp [hl] at hr
      | some hours =>
        cases c with
        | true => simp [hl] at hr
        | false =>
          simp only [hl, Bool.false_eq_true, if_false, List.mem_cons, Out.statReady.injEq] at hr
          simp_all

/-- What is requested is the symbol that the input before gave. -/
theorem symbol_of_ready {es : List Input} {i j : Input}
    (hr : .statReady sd ∈ (statistic lexicalCast symbolsList).emit
      ((statistic lexicalCast symbolsList).run {} (es ++ [i])) j) :
    sd.symbol = i.symbol := by
  have hw : ((statistic lexicalCast symbolsList).run {} es).Waits :=
    (statistic lexicalCast symbolsList).run_invariant (P := fun _ _ => True) Waits
      (fun _ i h _ => h.next lexicalCast symbolsList i) (.inl rfl)
      ((statistic lexicalCast symbolsList).along_of_forall (fun _ _ => trivial) _ _)
  rw [Machine.run_append, Machine.run_cons, Machine.run_nil] at hr
  obtain ⟨hp, hs⟩ := (hw.next lexicalCast symbolsList i).ready j hr
  rw [hs, hw.symbol i hp]

end Statistic

end BotTrader.Application
