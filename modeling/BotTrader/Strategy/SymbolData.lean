import Mathlib.Logic.Function.Basic
import Mathlib.Tactic.Simps.Basic
import BotTrader.Automata.Handler
import BotTrader.Python.Runtime

/-! The trading state of one symbol and the helpers of its class. The two
orders are objects that other fields point to: `waitOrderFill` is either one of
them or an order object of its own with an empty id, so it is kept as the index
of the order it aliases. Log and console lines are not modelled; what goes to
the web, the journal, the alert channel, the exchange and the timer is. -/

namespace BotTrader.Strategy

open Automata Python

inductive Side where
  | BUY | SELL
  deriving DecidableEq, Repr

inductive OrderType where
  | UNKNOWN | LIMIT | MARKET | STOP_LOSS | STOP_LOSS_LIMIT | TAKE_PROFIT | TAKE_PROFIT_LIMIT
  | LIMIT_MAKER
  deriving DecidableEq, Repr

inductive TimeInForce where
  | UNK | GTC | IOC | FOK
  deriving DecidableEq, Repr

def Side.name : Side → String
  | .BUY => "BUY"
  | .SELL => "SELL"

def OrderType.name : OrderType → String
  | .UNKNOWN => "UNKNOWN"
  | .LIMIT => "LIMIT"
  | .MARKET => "MARKET"
  | .STOP_LOSS => "STOP_LOSS"
  | .STOP_LOSS_LIMIT => "STOP_LOSS_LIMIT"
  | .TAKE_PROFIT => "TAKE_PROFIT"
  | .TAKE_PROFIT_LIMIT => "TAKE_PROFIT_LIMIT"
  | .LIMIT_MAKER => "LIMIT_MAKER"

def TimeInForce.name : TimeInForce → String
  | .UNK => "UNK"
  | .GTC => "GTC"
  | .IOC => "IOC"
  | .FOK => "FOK"

structure Order (F : Type) where
  symbol : String
  newClientOrderId : String
  type : OrderType
  side : Side
  timeInForce : TimeInForce
  quantity : F
  price : F

/-- What a handler asks of the outside world (the `h_*` callbacks). -/
inductive Call (F : Type) where
  | sendToWeb (data : Json F)
  | toJournal (symbol msg : String)
  | toAlertChannel (msg : String)
  | execOrder (order : Order F)
  | deleteOrder (order : Order F)
  | startTimer (name : String) (interval : ℕ)
  | stopTimer (name : String)

/-- The order that a call passes to the exchange, if it does. -/
def Call.order? {F : Type} : Call F → Option (Order F)
  | .execOrder o => some o
  | _ => none

/-- The orders that a list of calls passes to `h_exec_order`. -/
def issued {F : Type} (calls : List (Call F)) : List (Order F) := calls.filterMap Call.order?

/-- States of the trading FSM. -/
inductive FsmState where
  | START | READY | WAIT_PRICE | IN_PRICE | WAIT_ORDER_CMPL | WAIT_ORDER_FILL | WAIT_ORDER_DEL
  | RESUME | STOP
  deriving DecidableEq, Repr

/-- The banner shown in the web interface. -/
structure TradeState where
  e : String
  s : String
  x : String
  a : String
  m : String

structure SymbolData (F : Type) where
  step : Fin 2
  orders : Fin 2 → Order F
  waitOrderFill : Option (Fin 2)
  fsm : FsmState
  waitPrice : Bool
  running : Bool
  changeMode : Bool
  counter : ℕ
  symbol : String
  price : List F
  trigger : Fin 2 → F
  tradeState : TradeState
  tempPrice : Fin 2 → F
  tempTrigger : Fin 2 → F
  tempQuantity : F
  quotePrecision : ℤ
  quoteAssetPrecision : ℤ
  tickSize : F
  stepSize : F
  minNotional : F
  multiplierUp : F
  multiplierDown : F
  report : Option (Dict F)

/-- The side that a value of `step` trades on. -/
def sideOf (step : Fin 2) : Side := if step = 0 then .BUY else .SELL

/-- The client order id of `step` in cycle `counter`. -/
def orderId (symbol : String) (step : Fin 2) (counter : ℕ) : String :=
  if step = 1 then "order_" ++ symbol ++ "_to_USDT_" ++ toString counter
  else "order_USDT_to_" ++ symbol ++ "_" ++ toString counter

/-- `json.dumps(self.trade_state)` before printing. -/
def TradeState.toJson {F : Type} (t : TradeState) : Json F :=
  .obj [("e", .str t.e), ("s", .str t.s), ("x", .str t.x), ("a", .str t.a), ("m", .str t.m)]

namespace SymbolData

variable {F : Type}

def currentOrder (d : SymbolData F) : Order F := d.orders d.step

/-- `self.wait_order_fill.newClientOrderId` -/
def waitOrderId (d : SymbolData F) : String :=
  match d.waitOrderFill with
  | some i => (d.orders i).newClientOrderId
  | none => ""

def waitOrderAct (d : SymbolData F) : Bool := d.waitOrderId != ""

/-- `fsm.set_state`: the end state is never left. -/
@[simps -fullyApplied] def setState (st : FsmState) (d : SymbolData F) : SymbolData F :=
  { d with fsm := if d.fsm = .STOP then .STOP else st }

def complTimer (d : SymbolData F) : String := d.symbol ++ "_compl_timer"

variable [Runtime F]

/-- `SymbolData(symbol)` -/
def init (symbol : String) : SymbolData F where
  step := 0
  orders i :=
    { symbol := symbol ++ "USDT", newClientOrderId := "", type := .LIMIT, side := sideOf i,
      timeInForce := .GTC, quantity := Runtime.literal 0 0, price := Runtime.literal 0 0 }
  waitOrderFill := none
  fsm := .START
  waitPrice := false
  running := false
  changeMode := false
  counter := 0
  symbol := symbol
  price := [Runtime.literal 0 0, Runtime.literal 0 0]
  trigger _ := Runtime.literal 0 0
  tradeState :=
    { e := "tradeState", s := symbol ++ "USDT", x := "data", a := "wait",
      m := "Торги остановлены. Ожидание торговых данных" }
  tempPrice _ := Runtime.literal 0 0
  tempTrigger _ := Runtime.literal 0 0
  tempQuantity := Runtime.literal 0 0
  quotePrecision := 8
  quoteAssetPrecision := 8
  tickSize := Runtime.literal 1 2
  stepSize := Runtime.literal 1 6
  minNotional := Runtime.literal 10 0
  multiplierUp := Runtime.literal 5 0
  multiplierDown := Runtime.literal 2 1
  report := none

/-- The two newest prices enclose `val`; a price of zero is no price yet. -/
def isTriggerInPrice (d : SymbolData F) (val : F) : Except Exc Bool :=
  match d.price with
  | [] => .error .indexError
  | [p] => if Runtime.isZero p then .ok false else .error .indexError
  | p :: q :: _ =>
    if Runtime.isZero p || Runtime.isZero q then .ok false
    else .ok ((Runtime.le p val && Runtime.le val q) || (Runtime.le val p && Runtime.le q val))

/-- The corrected value is overwritten by the plain rounding. -/
def roundAtStep (val step : F) : Except Exc F := do
  let stepPrec ← fractionLength (Runtime.fixed step)
  let roundVal := Runtime.round val stepPrec
  let _roundVal := if Runtime.le val roundVal then Runtime.sub roundVal step else roundVal
  return Runtime.round val stepPrec

def printOrderToString (o : Order F) : String :=
  "------------------------------\n" ++
  "ОРДЕР: " ++ o.newClientOrderId ++ "\n" ++
  "------------------------------\n" ++
  "пара: " ++ o.symbol ++ "\n" ++
  "операция: " ++ o.side.name ++ "\n" ++
  "количество: " ++ Runtime.str (.num o.quantity) ++ "\n" ++
  "цена: " ++ Runtime.str (.num o.price) ++ "\n" ++
  "тип: " ++ o.type.name ++ "\n" ++
  "вид: " ++ o.timeInForce.name ++ "\n" ++
  "------------------------------\n"

/-- One direction of `print_trade_pos`. -/
def printLeg (name : String) (trigger price quantity : F) : String :=
  name ++ "\n" ++
  "Kурс триггер: " ++ Runtime.fixed trigger ++ "\n" ++
  "Kурс операции: " ++ Runtime.fixed price ++ "\n" ++
  "Количество: " ++ Runtime.fixed quantity ++ "\n"

def printTradePos (d : SymbolData F) (header : String) : String :=
  header ++ ":\n" ++
  "----------------------------\n" ++
  printLeg ("USDT -> " ++ d.symbol) (d.trigger 0) (d.orders 0).price (d.orders 0).quantity ++
  printLeg (d.symbol ++ " -> USDT") (d.trigger 1) (d.orders 1).price (d.orders 1).quantity ++
  "----------------------------\n"

end SymbolData

end BotTrader.Strategy
