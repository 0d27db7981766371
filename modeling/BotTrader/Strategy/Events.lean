import BotTrader.Automata.Machine
import BotTrader.Strategy.Fsm

/-! The event methods of a symbol and the machine that they form. An exception
that escapes from a method is swallowed by the callers, so the next event finds
whatever the method had changed before it. -/

namespace BotTrader.Strategy

open Automata Handler Python

variable {F : Type} [Runtime F]

/-! ### Exchange information -/

def onFilter (filter : Json F) : Py F Unit := do
  let type ← attempt (filter.item "filterType")
  let value (key : String) : Except Exc F := do (← filter.item key).toFloat
  if type.isStr "PRICE_FILTER" then
    let x ← attempt (value "tickSize")
    update fun d => { d with tickSize := x }
  else if type.isStr "LOT_SIZE" then
    let x ← attempt (value "stepSize")
    update fun d => { d with stepSize := x }
  else if type.isStr "PERCENT_PRICE" then
    let x ← attempt (value "multiplierUp")
    update fun d => { d with multiplierUp := x }
    let x ← attempt (value "multiplierDown")
    update fun d => { d with multiplierDown := x }
  else if type.isStr "MIN_NOTIONAL" then
    let x ← attempt (value "minNotional")
    update fun d => { d with minNotional := x }

def onExchangeInfo (info : Dict F) : Py F Unit := do
  let n ← attempt (do Runtime.int (← info.item "quotePrecision"))
  update fun d => { d with quotePrecision := n }
  let n ← attempt (do Runtime.int (← info.item "quoteAssetPrecision"))
  update fun d => { d with quoteAssetPrecision := n }
  let filters ← attempt (do (← info.item "filters").iter)
  filters.forM onFilter

/-! ### Commands of the user -/

/-- `float(data[leg][key])` -/
def legValue (data : Dict F) (leg key : String) : Except Exc F := do
  (← (← data.item leg).item key).toFloat

/-- The five staged values, read and stored one by one. -/
def stageData (data : Dict F) : Py F Unit := do
  let x ← attempt (legValue data "B" "t")
  update fun d => { d with tempTrigger := Function.update d.tempTrigger 0 x }
  let x ← attempt (legValue data "B" "p")
  update fun d => { d with tempPrice := Function.update d.tempPrice 0 x }
  let x ← attempt (legValue data "S" "t")
  update fun d => { d with tempTrigger := Function.update d.tempTrigger 1 x }
  let x ← attempt (legValue data "S" "p")
  update fun d => { d with tempPrice := Function.update d.tempPrice 1 x }
  let x ← attempt (do (← data.item "q").toFloat)
  update fun d => { d with tempQuantity := x }

/-- Staged data are ready for a start. -/
def markReady : Py F Unit := do
  update (SymbolData.setState .READY)
  fsmRun

/-- The answer to a trade-data request, built in the request's own dictionary. -/
def tradeDataReply (data : Dict F) (d : SymbolData F) : Dict F :=
  let text (x : F) : Json F := .str (Runtime.str (.num x))
  ((((data.set "q" (text d.tempQuantity)).set "r" (.str "1s")).set "B"
    (.obj [("t", text (d.tempTrigger 0)), ("p", text (d.tempPrice 0))])).set "S"
    (.obj [("t", text (d.tempTrigger 1)), ("p", text (d.tempPrice 1))])).set "c" (.str "000")
    |>.set "m" (.str "Ok")

def onTradeData (data : Dict F) : Py F Unit := do
  let data := data.set "e" (.str "tradeData")
  let reply ← tryExcept .keyError
    (do
      let a ← attempt (data.item "a")
      if a.isStr "set" then
        stageData data
        if (← self).running = false then
          markReady
        else
          update (SymbolData.banner "script" "wait" "Данные изменены. Торги работают")
      sendTradeState
      return tradeDataReply data (← self))
    (return (data.set "c" (.str "002")).set "m" (.str "JSON Ключ не найден"))
  call (.sendToWeb (.obj reply))

/-- Take over the staged data and the requested side. -/
@[simps -fullyApplied] def SymbolData.loadTradeData (side : Json F) (d : SymbolData F) : SymbolData F :=
  { d with
    trigger := d.tempTrigger
    orders := fun i => { d.orders i with price := d.tempPrice i, quantity := d.tempQuantity }
    step := if side.isStr "BUY" then 0 else 1 }

/-- Ask the exchange to delete the tracked order and wait for the end of it. -/
def deleteWaitOrder : Py F Unit := do
  match (← self).waitOrderFill with
  | some i => call (.deleteOrder ((← self).orders i))
  | none => pure ()
  update (SymbolData.setState .WAIT_ORDER_DEL)
  update fun d => d.banner "order" "wait" ("Ожидание удаления ордера " ++ d.currentOrder.newClientOrderId)

/-- A start from rest, up to the run of the new state. -/
def beginTrade (side : Json F) : Py F Unit := do
  let symbol := (← self).symbol
  update (SymbolData.loadTradeData side)
  update fun d => { d with running := true, waitPrice := true }
  update (SymbolData.banner "script" "start"
    ("Торги запущены. Ожидание триггера " ++ symbol ++ "-" ++ Runtime.str side))
  sendTradeState
  call (.toAlertChannel ("Торги " ++ symbol ++ " запущены"))
  journal "Торги запущены"
  journal ((← self).printTradePos "Торговые данные")
  update (SymbolData.setState .WAIT_PRICE)

/-- A stop at rest. -/
def refuseStop : Py F Unit := do
  update (SymbolData.banner "script" "stop" "Торги не запущены.")
  sendTradeState
  journal "Запрос на остановку торгов"

/-- A start while the trade runs: a change of its data. -/
def changeTrade (side : Json F) : Py F Unit := do
  let symbol := (← self).symbol
  update (SymbolData.loadTradeData side)
  call (.toAlertChannel ("Торги " ++ symbol ++ " запущены c новыми данными"))
  journal ((← self).printTradePos "Торговые данные")
  if (← self).waitOrderAct then
    update fun d => { d with changeMode := true }
    deleteWaitOrder
  else
    update (SymbolData.banner "script" "start" ("Торги " ++ symbol ++ " запущены c новыми данными"))
  journal (← self).tradeState.m
  sendTradeState

/-- A stop while the trade runs. -/
def stopTrade : Py F Unit := do
  call (.toAlertChannel ("Торги " ++ (← self).symbol ++ " остановлены пользователем"))
  if (← self).waitOrderAct then
    deleteWaitOrder
    sendTradeState
  else
    update (SymbolData.setState .RESUME)
    fsmRun

def onTradeRun (data : Dict F) : Py F Unit := do
  let go := (← attempt (data.item "a")).isStr "start"
  let side ← attempt (data.item "p")
  if (← self).running = false then
    if go then
      beginTrade side
      fsmRun
    else
      refuseStop
  else if go then
    changeTrade side
  else
    stopTrade

/-! ### Prices, reports and the confirmation timer -/

def onPrice (price : Json F) : Py F Unit := do
  if (← self).price.isEmpty then raise .indexError
  update fun d => { d with price := d.price.dropLast }
  let x ← attempt price.toFloat
  update fun d => { d with price := x :: d.price }
  if (← self).waitPrice then
    fsmRun

def onOrderReport (report : Dict F) : Py F Unit := do
  update fun d => { d with report := some report }
  if (← self).fsm ≠ .RESUME then
    fsmRun

def onOrderCompleteTimeout : Py F Unit := do
  let d ← self
  journal ("FSM: Нет подтверждения ордера " ++ d.currentOrder.newClientOrderId)
  forgetOrder
  update (SymbolData.banner "order" "error" "Нет подтвердениея ордера от Binance")
  sendTradeState
  call (.toAlertChannel ("Торги " ++ d.symbol ++ " остановлены по таймауту"))
  update (SymbolData.setState .RESUME)
  fsmRun

/-! ### The machine -/

inductive Event (F : Type) where
  | exchangeInfo (info : Dict F)
  | tradeData (data : Dict F)
  | tradeRun (data : Dict F)
  | price (price : Json F)
  | orderReport (report : Dict F)
  | orderCompleteTimeout

def Event.handler : Event F → Py F Unit
  | .exchangeInfo x => onExchangeInfo x
  | .tradeData x => onTradeData x
  | .tradeRun x => onTradeRun x
  | .price x => onPrice x
  | .orderReport x => onOrderReport x
  | .orderCompleteTimeout => onOrderCompleteTimeout

/-- What delivering an event to a symbol does. -/
def SymbolData.react (d : SymbolData F) (e : Event F) : Outcome (SymbolData F) (Call F) Exc Unit :=
  e.handler.run d

/-- A symbol under events. -/
def bot : Machine (SymbolData F) (Event F) (Call F) where
  next d e := (d.react e).state
  emit d e := (d.react e).calls

/-- The orders that a run from `d` passes to `h_exec_order`. -/
def ordersOf (d : SymbolData F) (es : List (Event F)) : List (Order F) := issued (bot.emitted d es)

end BotTrader.Strategy
