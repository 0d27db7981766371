import Mathlib.Data.List.ReduceOption
import BotTrader.Python.Rational
import BotTrader.Strategy.Deliveries
import BotTrader.Strategy.Labels

/-! A symbol only ever calls in its own name: its orders are for its own pair, and so are its
timer and its journal entries. So what the script does in the name of a symbol is what this
symbol does, and the messages of the others have no part in it. -/

namespace BotTrader.Strategy

open Automata Handler Python

variable {F : Type}

/-- What a call to the exchange, to the timers or to the journal names. -/
inductive CallName where
  | pair (name : String)
  | timer (name : String)
  | journal (symbol : String)
  deriving DecidableEq

/-- What goes to the web client and to the alert channel names nothing. -/
def Call.name? : Call F → Option CallName
  | .execOrder o | .deleteOrder o => some (.pair o.symbol)
  | .startTimer name _ | .stopTimer name => some (.timer name)
  | .toJournal symbol _ => some (.journal symbol)
  | .sendToWeb _ | .toAlertChannel _ => none

/-- The names of a symbol. -/
def namesOf (s : String) : List CallName :=
  [.pair (s ++ "USDT"), .timer (s ++ "_compl_timer"), .journal s]

/-- A call in the name of `s`, if in any. -/
def Call.Own (s : String) (c : Call F) : Prop := ∀ n, c.name? = some n → n ∈ namesOf s

/-- The label that is the kind of an order. -/
abbrev kindLabel (F : Type) : OrderKind → F → OrderKind := fun kind _ => kind

/-- What the two orders of a symbol are from the start. -/
def ownKind (s : String) : OrderKind := ⟨s ++ "USDT", .LIMIT, .GTC⟩

/-- The symbol and its two orders bear its name. -/
abbrev Named (s : String) : SymbolData F → Prop := Bears (kindLabel F) s (ownKind s)

/-- The call is in the name of `s`, and its order is of the kind of the orders of `s`. -/
abbrev Call.OwnKind (s : String) : Call F → Prop := Call.Bears (kindLabel F) s (ownKind s)

theorem own_of_ownKind {s : String} {c : Call F} (h : c.OwnKind s) : c.Own s := by
  intro n hn
  cases c with
  | execOrder o | deleteOrder o =>
    obtain rfl := Option.some.inj hn
    simp [namesOf, show o.symbol = s ++ "USDT" from congrArg OrderKind.symbol h]
  | startTimer name k =>
    obtain rfl := Option.some.inj hn
    simp [namesOf, show name = s ++ "_compl_timer" from h]
  | stopTimer name =>
    obtain rfl := Option.some.inj hn
    simp [namesOf, show name = s ++ "_compl_timer" from h]
  | toJournal symbol msg =>
    obtain rfl := Option.some.inj hn
    simp [namesOf, show symbol = s from h]
  | sendToWeb data => cases hn
  | toAlertChannel msg => cases hn

variable {s : String} [Runtime F]

/-- Every method keeps the names of its symbol and calls in no other. -/
theorem named_handler (e : Event F) : e.handler.Guards (Named s) (Call.OwnKind s) :=
  carries_handler (fun _ _ _ => rfl) e

theorem owned_handler (e : Event F) : e.handler.Guards (Named s) (Call.Own s) := by
  intro d hd
  obtain ⟨hs, hc⟩ := named_handler e d hd
  exact ⟨hs, fun c h => own_of_ownKind (hc c h)⟩

/-! ### Runs -/

theorem named_init (s : String) : Named s (SymbolData.init s : SymbolData F) := ⟨rfl, fun _ => rfl⟩

omit [Runtime F] in
theorem eq_of_mem_namesOf {s' : String} {n : CallName} (h : n ∈ namesOf s) (h' : n ∈ namesOf s') :
    s = s' := by
  simp only [namesOf, List.mem_cons, List.not_mem_nil, or_false] at h h'
  rcases h with rfl | rfl | rfl <;> rcases h' with h' | h' | h' <;> simp at h' <;> exact h'

/-- The call is in the name of `s`. -/
def Call.inNameOf (s : String) (c : Call F) : Bool :=
  match c.name? with
  | some n => decide (n ∈ namesOf s)
  | none => false

omit [Runtime F] in
theorem eq_of_inNameOf {s' : String} {c : Call F} (ho : c.Own s') (h : c.inNameOf s = true) :
    s' = s := by
  rw [Call.inNameOf] at h
  cases hn : c.name? with
  | none => simp [hn] at h
  | some n => exact eq_of_mem_namesOf (ho n hn) (by simpa [hn] using h)

/-- A symbol that shows its state in between runs as if it did not. -/
theorem run_desk (d : SymbolData F) (es : List (Option (Event F))) :
    desk.run d es = bot.run d es.reduceOption := by
  induction es generalizing d with
  | nil => rfl
  | cons e es ih =>
    cases e with
    | none => exact ih d
    | some e => exact ih (bot.next d e)

theorem own_desk {d : SymbolData F} (hd : Named s d) (es : List (Option (Event F))) :
    ∀ c ∈ desk.emitted d es, c.Own s :=
  Machine.emitted_invariant (Named s) (Call.Own s) (P := fun _ _ => True)
    (fun d e hd _ => by
      cases e with
      | none => exact hd
      | some e => exact (owned_handler e d hd).1)
    (fun d e hd _ => by
      cases e with
      | none =>
        intro c hc n hn
        obtain rfl := List.mem_singleton.mp hc
        cases hn
      | some e => exact (owned_handler e d hd).2)
    hd (Machine.along_of_forall _ (fun _ _ => trivial) _ _)

theorem filter_emitted_desk (d : SymbolData F) (es : List (Option (Event F))) :
    (desk.emitted d es).filter (Call.inNameOf s) =
      (bot.emitted d es.reduceOption).filter (Call.inNameOf s) := by
  induction es generalizing d with
  | nil => rfl
  | cons e es ih =>
    cases e with
    | none => exact ih d
    | some e =>
      rw [Machine.emitted_cons, List.reduceOption_cons_of_some, Machine.emitted_cons,
        List.filter_append, List.filter_append]
      exact congrArg _ (ih (bot.next d e))

/-- The events that messages bring to a symbol of the script. -/
def inbox (t : Script F) (ms : List (Message F)) (s : String) : List (Event F) :=
  (only s (ms.flatMap (Message.deliveries t))).reduceOption

omit [Runtime F] in
/-- All symbols bear their names. -/
def Script.Named (t : Script F) : Prop := ∀ i d, t.symbolData i = some d → Strategy.Named i d

theorem named_initScript (symbols : List String) : (Script.init symbols : Script F).Named := by
  intro i d hd
  simp only [Script.init] at hd
  split at hd
  · obtain rfl := Option.some.inj hd
    exact named_init i
  · cases hd

theorem named_desk {d : SymbolData F} (hd : Named s d) (es : List (Option (Event F))) :
    Named s (desk.run d es) := by
  rw [run_desk]
  exact Machine.run_invariant (Named s) (P := fun _ _ => True)
    (fun d e hd _ => (owned_handler e d hd).1) hd (Machine.along_of_forall _ (fun _ _ => trivial) _ _)

variable {t : Script F} {d : SymbolData F}

theorem named_runScript (hn : t.Named) (ms : List (Message F)) : (strategy.run t ms).Named := by
  intro i d hd
  rw [(strategy_run_eq_fleet t ms).1, Machine.run_fleet, Option.map_eq_some_iff] at hd
  obtain ⟨d₀, hd₀, rfl⟩ := hd
  exact named_desk (hn i d₀ hd₀) _

theorem runs_alone (hn : t.Named) (hd : t.symbolData s = some d) (ms : List (Message F)) :
    (strategy.run t ms).symbolData s = some (bot.run d (inbox t ms s)) ∧
      (strategy.emitted t ms).filter (Call.inNameOf s) =
        (bot.emitted d (inbox t ms s)).filter (Call.inNameOf s) := by
  obtain ⟨hrun, hcalls⟩ := strategy_run_eq_fleet t ms
  have hown := Machine.forall_emitted_fleet desk t.symbolData
    (ms.flatMap (Message.deliveries t)) (Q := fun i c => c.Own i)
    fun i d hd es => own_desk (hn i d hd) es
  constructor
  · rw [hrun, Machine.run_fleet, hd, Option.map_some, run_desk]
    rfl
  · rw [hcalls, filter_only fun x hx hn => eq_of_inNameOf (hown x hx) hn, Machine.emitted_fleet, hd]
    simp only [Option.toList_some, List.flatMap_singleton]
    exact filter_emitted_desk _ _

end BotTrader.Strategy
