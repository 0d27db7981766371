import BotTrader.Https.Request
import BotTrader.Strategy.Script

/-! The whole script: every message goes to the data of one symbol at most, so a symbol of a
reachable script has seen some list of events. Prices and reports find their symbol by deleting
every `USDT` from the name of the pair. -/

namespace BotTrader.Strategy

open Automata Handler Python

/-! ### Names of pairs -/

/-- `str.replace(old, '')` on characters; the first `k` of them belong to an occurrence
that is being deleted. -/
def removeFrom (old : List Char) : ℕ → List Char → List Char
  | _, [] => []
  | k + 1, _ :: cs => removeFrom old k cs
  | 0, c :: cs =>
    if old.isPrefixOf (c :: cs) then removeFrom old (old.length - 1) cs
    else c :: removeFrom old 0 cs

/-- `s.replace(old, '')` -/
def remove (old s : String) : String := String.ofList (removeFrom old.toList 0 s.toList)

variable {F : Type}

/-- `j.replace("USDT", '')` -/
def withoutUsdt : Json F → Except Exc String
  | .str s => .ok (remove "USDT" s)
  | _ => .error .attributeError

/-! ### Methods -/

variable [Runtime F]

/-- The part of the exchange information that is about one symbol. -/
def symbolInfo (symbol : Json F) : ScriptPy F Unit := do
  let quoteAsset ← attempt (symbol.item "quoteAsset")
  if quoteAsset.isStr "USDT" then
    let s ← attempt (symbol.item "baseAsset")
    match ← attempt (knownSymbol (← self) s), symbol with
    | some s, .obj info => onSymbol s (Strategy.onExchangeInfo info)
    | _, _ => pure ()

def Script.onExchangeInfo (data : Option (Json F)) : ScriptPy F Unit := do
  match data with
  | none => pure ()
  | some j =>
    let symbols ← attempt (do (← j.loads.item "symbols").iter)
    symbols.forM symbolInfo

/-- A key error, also one from the symbol's own method, makes it an error of the exchange. The
script has no `h_to_alert_channel`, by which that is told. -/
def Script.onOrderReport (data : Option (Json F)) : ScriptPy F Unit := do
  match data with
  | none => pure ()
  | some j =>
    match j.loads with
    | .obj report =>
      tryExcept .keyError
        (do
          let symbol ← attempt (do withoutUsdt (← Dict.item report "s"))
          if ((← self).symbolData symbol).isSome then
            onSymbol symbol (Strategy.onOrderReport report))
        (tryExcept .keyError
          (do
            let _ ← attempt (Dict.item report "msg")
            let _ ← attempt (Dict.item report "code")
            raise .attributeError)
          (pure ()))
    | _ => raise .typeError

def Script.onPrice (data : Option (Json F)) : ScriptPy F Unit := do
  match data with
  | none => pure ()
  | some j =>
    match j.loads with
    | .obj pdata =>
      let symbol ← attempt (Dict.item pdata "symbol")
      let price ← attempt (Dict.item pdata "price")
      let symbol ← attempt (withoutUsdt symbol)
      if ((← self).symbolData symbol).isSome then
        onSymbol symbol (Strategy.onPrice price)
    | _ => raise .typeError

/-- What the strategy is called with for its trade: texts that are JSON or not, a name, or the
timer of a symbol. `on_account`, `on_balance` and `get_trade_steps` are left out: they set and read
the funds, which nothing here reads. -/
inductive Message (F : Type) where
  | exchangeInfo (data : Option (Json F))
  | tradeData (data : Option (Json F))
  | tradeRun (data : Option (Json F))
  | getTradeState (symbol : String)
  | price (data : Option (Json F))
  | orderReport (data : Option (Json F))
  | timeout (symbol : String)

def Message.handler : Message F → ScriptPy F Unit
  | .exchangeInfo data => Script.onExchangeInfo data
  | .tradeData data => Script.onTradeData data
  | .tradeRun data => Script.onTradeRun data
  | .getTradeState symbol => Script.onGetTradeState symbol
  | .price data => Script.onPrice data
  | .orderReport data => Script.onOrderReport data
  | .timeout symbol => onSymbol symbol onOrderCompleteTimeout

/-- The strategy under messages. -/
def strategy : Machine (Script F) (Message F) (Call F) where
  next t m := (m.handler.run t).state
  emit t m := (m.handler.run t).calls

/-- `on_symbols_list` -/
def Script.init (symbols : List String) : Script F where
  symbolData s := if s ∈ symbols then some (SymbolData.init s) else none

/-! ### Symbols of a reachable script -/

/-- Every symbol has seen some events, and no symbol comes or goes. -/
def Routed (t t' : Script F) : Prop :=
  ∀ s, ∃ es, t'.symbolData s = (t.symbolData s).map fun d => bot.run d es

theorem routed_refl (t : Script F) : Routed t t := fun s => ⟨[], by simp⟩

theorem routed_trans {t t' t'' : Script F} (h : Routed t t') (h' : Routed t' t'') :
    Routed t t'' := by
  intro s
  obtain ⟨es, he⟩ := h s
  obtain ⟨es', he'⟩ := h' s
  refine ⟨es ++ es', ?_⟩
  rw [he', he, Option.map_map]
  simp only [Function.comp_def, Machine.run_append]

/-- From `t` the handler only passes events to symbols. -/
abbrev Routes {α : Type} (h : ScriptPy F α) (t : Script F) : Prop :=
  h.Keeps Routed (fun _ => True) t

theorem state_onSymbol_event {t : Script F} {symbol : String} (e : Event F) (s : String) :
    ((onSymbol symbol e.handler).run t).state.symbolData s =
      if s = symbol then (t.symbolData s).map fun d => bot.next d e else t.symbolData s := by
  rcases hd : t.symbolData symbol with _ | d
  · have hs : ((onSymbol symbol e.handler).run t).state = t := by simp [onSymbol, Handler.run, hd]
    rw [hs]
    split
    · next h =>
      subst h
      simp [hd]
    · rfl
  · rw [state_onSymbol hd]
    by_cases h : s = symbol
    · subst h
      simp [hd, bot, SymbolData.react]
    · simp [h]

theorem routes_onSymbol (symbol : String) (e : Event F) (t : Script F) :
    Routes (onSymbol symbol e.handler) t := by
  refine ⟨fun s => ?_, fun _ _ => trivial⟩
  rw [state_onSymbol_event]
  by_cases h : s = symbol
  · exact ⟨[e], by rw [if_pos h]; rfl⟩
  · exact ⟨[], by rw [if_neg h]; simp⟩

theorem routes_symbolInfo (symbol : Json F) (t : Script F) : Routes (symbolInfo symbol) t := by
  refine keeps_attempt_bind routed_refl fun quoteAsset _ => keeps_ite (fun _ => ?_) fun _ =>
    keeps_pure routed_refl _
  refine keeps_attempt_bind routed_refl fun s _ => keeps_self_bind ?_
  refine keeps_attempt_bind routed_refl fun known _ => ?_
  split
  · exact routes_onSymbol _ (.exchangeInfo _) t
  · exact keeps_pure routed_refl _

theorem routes_onExchangeInfo (data : Option (Json F)) (t : Script F) :
    Routes (Script.onExchangeInfo data) t := by
  cases data with
  | none => exact keeps_pure routed_refl _
  | some j =>
    refine keeps_attempt_bind routed_refl fun symbols _ => ?_
    exact keeps_forM routed_refl routed_trans symbols (fun x _ t => routes_symbolInfo x t) t

theorem routes_onTradeData (data : Option (Json F)) (t : Script F) :
    Routes (Script.onTradeData data) t := by
  cases data with
  | none => exact keeps_pure routed_refl _
  | some j =>
    simp only [Script.onTradeData]
    split
    · next dict _ =>
      refine keeps_attempt_bind routed_refl fun a _ => keeps_attempt_bind routed_refl fun s _ => ?_
      refine keeps_self_bind (keeps_attempt_bind routed_refl fun known _ => ?_)
      split
      · exact routes_onSymbol _ (.tradeData dict) t
      · exact ⟨routed_refl t, fun _ _ => trivial⟩
    · exact ⟨routed_refl t, fun _ _ => trivial⟩

theorem routes_onTradeRun (data : Option (Json F)) (t : Script F) :
    Routes (Script.onTradeRun data) t := by
  cases data with
  | none => exact keeps_pure routed_refl _
  | some j =>
    simp only [Script.onTradeRun]
    split
    · next dict _ =>
      refine keeps_attempt_bind routed_refl fun s _ => ?_
      refine keeps_self_bind (keeps_attempt_bind routed_refl fun known _ => ?_)
      split
      · exact routes_onSymbol _ (.tradeRun dict) t
      · exact keeps_pure routed_refl _
    · exact ⟨routed_refl t, fun _ _ => trivial⟩

theorem routes_onGetTradeState (symbol : String) (t : Script F) :
    Routes (Script.onGetTradeState symbol) t := by
  refine keeps_self_bind ?_
  cases t.symbolData symbol <;> exact ⟨routed_refl t, fun _ _ => trivial⟩

theorem routes_onPrice (data : Option (Json F)) (t : Script F) :
    Routes (Script.onPrice data) t := by
  cases data with
  | none => exact keeps_pure routed_refl _
  | some j =>
    simp only [Script.onPrice]
    split
    · next pdata _ =>
      refine keeps_attempt_bind routed_refl fun symbol _ => ?_
      refine keeps_attempt_bind routed_refl fun price _ => ?_
      refine keeps_attempt_bind routed_refl fun symbol _ => keeps_self_bind ?_
      exact keeps_ite (fun _ => routes_onSymbol symbol (.price price) t) fun _ =>
        keeps_pure routed_refl _
    · exact ⟨routed_refl t, fun _ _ => trivial⟩

theorem routes_onOrderReport (data : Option (Json F)) (t : Script F) :
    Routes (Script.onOrderReport data) t := by
  cases data with
  | none => exact keeps_pure routed_refl _
  | some j =>
    simp only [Script.onOrderReport]
    split
    · next report _ =>
      refine keeps_tryExcept routed_trans ?_ fun t _ => keeps_tryExcept routed_trans ?_ fun t _ =>
        keeps_pure routed_refl _
      · refine keeps_attempt_bind routed_refl fun symbol _ => keeps_self_bind ?_
        exact keeps_ite (fun _ => routes_onSymbol symbol (.orderReport report) t) fun _ =>
          keeps_pure routed_refl _
      · refine keeps_attempt_bind routed_refl fun msg _ => ?_
        exact keeps_attempt_bind routed_refl fun code _ => ⟨routed_refl t, fun _ _ => trivial⟩
    · exact ⟨routed_refl t, fun _ _ => trivial⟩

theorem routed_next (t : Script F) (m : Message F) : Routed t (strategy.next t m) := by
  suffices Routes m.handler t from this.1
  cases m with
  | exchangeInfo data => exact routes_onExchangeInfo data t
  | tradeData data => exact routes_onTradeData data t
  | tradeRun data => exact routes_onTradeRun data t
  | getTradeState symbol => exact routes_onGetTradeState symbol t
  | price data => exact routes_onPrice data t
  | orderReport data => exact routes_onOrderReport data t
  | timeout symbol => exact routes_onSymbol symbol .orderCompleteTimeout t

theorem routed_run (t : Script F) (ms : List (Message F)) : Routed t (strategy.run t ms) := by
  induction ms generalizing t with
  | nil => exact routed_refl t
  | cons m ms ih => exact routed_trans (routed_next t m) (ih (strategy.next t m))

/-- A symbol of a reachable script is a reachable symbol. -/
theorem reachable_symbol {symbols : List String} {ms : List (Message F)} {s : String}
    {d : SymbolData F} (h : (strategy.run (Script.init symbols) ms).symbolData s = some d) :
    ∃ es, d = bot.run (SymbolData.init s) es := by
  obtain ⟨es, he⟩ := routed_run (Script.init symbols) ms s
  rw [h] at he
  simp only [Script.init] at he
  split at he
  · exact ⟨es, Option.some.inj he⟩
  · cases he

end BotTrader.Strategy
