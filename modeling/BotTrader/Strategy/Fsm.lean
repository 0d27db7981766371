import BotTrader.Strategy.SymbolData

/-! The handlers of the trading FSM. A handler that ends in `fsm.run` after
setting the state runs the handler of the state it has just set; the two
handlers that do so are never entered in the end state, so that handler is
called by name. -/

namespace BotTrader.Strategy

open Automata Handler Python

variable {F : Type}

/-- A method of `SymbolData`. -/
abbrev Py (F : Type) := Handler (SymbolData F) (Call F) Exc

/-- `trade_state["x"], trade_state["a"], trade_state["m"] = x, a, m` -/
@[simps -fullyApplied] def SymbolData.banner (x a m : String) (d : SymbolData F) : SymbolData F :=
  { d with tradeState := { d.tradeState with x := x, a := a, m := m } }

@[simps -fullyApplied] def SymbolData.setOrder (i : Fin 2) (o : Order F) (d : SymbolData F) : SymbolData F :=
  { d with orders := Function.update d.orders i o }

@[simp] theorem setOrder_setOrder (i : Fin 2) (o o' : Order F) (d : SymbolData F) :
    (d.setOrder i o).setOrder i o' = d.setOrder i o' := by
  simp [SymbolData.setOrder]

def sendTradeState : Py F Unit := do
  let d ← self
  call (.sendToWeb d.tradeState.toJson)

def journal (msg : String) : Py F Unit := do
  let d ← self
  call (.toJournal d.symbol msg)

def stopComplTimer : Py F Unit := do
  let d ← self
  call (.stopTimer d.complTimer)

/-- `self.report` -/
def lastReport : Py F (Dict F) := do
  match (← self).report with
  | some r => pure r
  | none => raise .attributeError

/-- `report['c'] == id and report['X'] == status` -/
def confirms (r : Dict F) (id status : String) : Except Exc Bool := do
  let c ← r.item "c"
  if c.isStr id then
    let x ← r.item "X"
    return x.isStr status
  else
    return false

def emptyReport : Dict F :=
  [("X", .str "EMPTY"), ("c", .str ""), ("p", .int 0), ("q", .int 0), ("n", .int 0)]

def resetOrderReport : Py F Unit := update fun d => { d with report := some emptyReport }

def reset : Py F Unit := update fun d => { d with waitPrice := false, step := 0 }

def fsmReady : Py F Unit :=
  update (SymbolData.banner "data" "ready" "Данные для торгов готовы")

def fsmResume : Py F Unit := do
  stopComplTimer
  reset
  update fun d => { d with running := false }
  let msg := "Торги " ++ (← self).symbol ++ " остановлены"
  update (SymbolData.banner "script" "stop" msg)
  sendTradeState
  call (.toAlertChannel msg)
  journal msg

/-- `self.wait_order_fill = Order()` -/
def forgetOrder : Py F Unit := update fun d => { d with waitOrderFill := none }

def fsmWaitOrderCompl : Py F Unit :=
  tryExcept .keyError
    (do
      let r ← lastReport
      if ← attempt (confirms r (← self).currentOrder.newClientOrderId "NEW") then
        resetOrderReport
        stopComplTimer
        let msg := "Ордер подтвержден Binance, ожидание выполнения"
        update (SymbolData.banner "order" "wait" msg)
        sendTradeState
        journal msg
        update (SymbolData.setState .WAIT_ORDER_FILL))
    (pure ())

def fsmWaitOrderDel : Py F Unit := do
  let r ← lastReport
  let x ← attempt (r.item "X")
  if x.isStr "CANCELED" then
    let msg := "Ордер " ++ (← self).waitOrderId ++ " отменен"
    stopComplTimer
    forgetOrder
    journal msg
    update (SymbolData.banner "order" "stop" msg)
    sendTradeState
    if (← self).changeMode then
      update fun d => { d with waitPrice := true }
      update (SymbolData.setState .WAIT_PRICE)
      update fun d => { d with changeMode := false }
    else
      update (SymbolData.setState .RESUME)
      fsmResume

section Arithmetic

variable [Runtime F]

def fsmInPrice : Py F Unit := do
  let d ← self
  let msg := "Сработал триггер " ++ d.symbol ++ "-" ++ Runtime.str (.num (d.trigger d.step))
  update (SymbolData.banner "trigger" "ready" msg)
  sendTradeState
  journal msg
  update fun d => d.setOrder d.step
    { d.currentOrder with newClientOrderId := orderId d.symbol d.step d.counter }
  let d ← self
  let price := Runtime.str (.num d.currentOrder.price)
  let msg := if d.step = 1 then "Выставлен ордер на продажу " ++ d.symbol ++ " по " ++ price ++ " USDT"
    else "Выставлен ордер на покупку " ++ d.symbol ++ " по " ++ price ++ " USDT"
  call (.execOrder d.currentOrder)
  update fun d => { d with waitOrderFill := some d.step }
  call (.startTimer d.complTimer 5)
  journal msg
  journal (SymbolData.printOrderToString d.currentOrder)
  update (SymbolData.setState .WAIT_ORDER_CMPL)

def fsmWaitPrice : Py F Unit := do
  let d ← self
  if ← attempt (d.isTriggerInPrice (d.trigger d.step)) then
    update fun d => { d with waitPrice := false }
    update (SymbolData.setState .IN_PRICE)
    fsmInPrice

def sendOrdersChange (msg : String) : Py F Unit := do
  let d ← self
  let leg (i : Fin 2) : Json F := .obj [("p", .num (d.orders i).price), ("q", .num (d.orders i).quantity)]
  call (.sendToWeb (.obj [("e", .str "getFilters"), ("s", .str d.symbol), ("m", .str msg),
    ("B", leg 0), ("S", leg 1)]))

def SymbolData.setQuantity (i : Fin 2) (q : F) (d : SymbolData F) : SymbolData F :=
  d.setOrder i { d.orders i with quantity := q }

/-- Reduce the quantity of both orders by a commission. -/
def takeCommission (cmsn : F) (msg : String) : Py F Unit := do
  update fun d => d.setQuantity 0 (Runtime.sub (d.orders d.step).quantity cmsn)
  let d ← self
  let q ← attempt (SymbolData.roundAtStep (d.orders 0).quantity d.stepSize)
  update (SymbolData.setQuantity 0 q)
  update fun d => d.setQuantity 1 (d.orders 0).quantity
  sendOrdersChange msg

/-- The side to trade next; a full cycle ends with a sale. -/
@[simps -fullyApplied] def SymbolData.nextStep (d : SymbolData F) : SymbolData F :=
  { d with
    step := if d.step = 0 then 1 else 0
    counter := if d.step = 0 then d.counter else d.counter + 1 }

/-- The part of a fill that reads the commission off the report. -/
def payCommission (r : Dict F) : Py F Unit := do
  let cmsnAsset ← attempt (r.item "N")
  let n ← attempt (r.item "n")
  if cmsnAsset.isStr "USDT" then
    let n ← attempt n.toFloat
    let p ← attempt (do (← r.item "p").toFloat)
    let cmsnSymb ← attempt (divide n p)
    takeCommission cmsnSymb "Комиссия в USDT, количество в ордере уменьшено"
  else if !cmsnAsset.isStr "BNB" then
    takeCommission (← attempt n.toFloat)
      ("Комиссия в " ++ Runtime.str cmsnAsset ++ ", количество в ордере уменьшено")

def fsmWaitOrderFill : Py F Unit := do
  let r ← lastReport
  if ← attempt (confirms r (← self).currentOrder.newClientOrderId "FILLED") then
    stopComplTimer
    forgetOrder
    let msg := "Ордер выполнен Binance"
    update fun d => { d with tradeState := { d.tradeState with a := "ready", m := msg } }
    sendTradeState
    journal msg
    update SymbolData.nextStep
    payCommission r
    update fun d => { d with waitPrice := true }
    update (SymbolData.setState .WAIT_PRICE)

/-- `fsm.run`: the start state has no handler, the end state runs nothing. -/
def fsmRun : Py F Unit := do
  match (← self).fsm with
  | .START => raise .keyError
  | .READY => fsmReady
  | .WAIT_PRICE => fsmWaitPrice
  | .IN_PRICE => fsmInPrice
  | .WAIT_ORDER_CMPL => fsmWaitOrderCompl
  | .WAIT_ORDER_FILL => fsmWaitOrderFill
  | .WAIT_ORDER_DEL => fsmWaitOrderDel
  | .RESUME => fsmResume
  | .STOP => pure ()

end Arithmetic

end BotTrader.Strategy
