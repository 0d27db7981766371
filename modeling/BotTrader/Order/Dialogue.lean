import Mathlib.Tactic.Simps.Basic
import BotTrader.Automata.Handler
import BotTrader.Automata.Machine
import BotTrader.Python.Rational
import BotTrader.Telegram.Poll

/-! The dialogue that enters, deletes and lists orders. The engine passes through its `switch`
with a text that came; some branches pass it once more, always as the last thing that they do,
so a call of the engine is a loop. It ends after four passes at the latest. -/

namespace BotTrader.Order

open Automata Handler Telegram

inductive OrderType where
  | UNKNOWN | LIMIT | MARKET | STOP_LOSS | STOP_LOSS_LIMIT | TAKE_PROFIT | TAKE_PROFIT_LIMIT
  | LIMIT_MAKER
  deriving DecidableEq, Repr

inductive Side where
  | BUY | SELL
  deriving DecidableEq, Repr

inductive TimeInForce where
  | UNK | GTC | IOC | FOK
  deriving DecidableEq, Repr

/-- There is no entry for `TAKE_PROFIT_LIMIT`. -/
def typeMap : List (OrderType × String) :=
  [(.UNKNOWN, ""), (.LIMIT, "LIMIT"), (.MARKET, "MARKET"), (.STOP_LOSS, "STOP_LOSS"),
    (.STOP_LOSS_LIMIT, "STOP_LOSS_LIMIT"), (.TAKE_PROFIT, "TAKE_PROFIT"),
    (.LIMIT_MAKER, "LIMIT_MAKER")]

def tifMap : List (TimeInForce × String) :=
  [(.UNK, ""), (.GTC, "GTC"), (.IOC, "IOC"), (.FOK, "FOK")]

def stringToType (st : String) : OrderType :=
  ((typeMap.find? fun it => st = it.2).map Prod.fst).getD .UNKNOWN

def stringToSide (st : String) : Side := if st = "BUY" then .BUY else .SELL

def stringToTif (stif : String) : TimeInForce :=
  ((tifMap.find? fun it => stif = it.2).map Prod.fst).getD .UNK

/-- `bnc_order_t`, without the fields that no code sets. -/
structure BncOrder (F : Type) where
  symbol : String
  newClientOrderId : String
  side : Side
  type : OrderType
  timeInForce : TimeInForce
  quantity : F
  price : F
  stopPrice : F

inductive State where
  | idle | start | name | side | price | stopPrice | quantity | symbol | inputType | type
  | timeInForce | orderReady | orderResult | delete | delName | delSymbol | delReady | list
  | listSymbol | listReady
  deriving DecidableEq, Repr

/-- The rows of a keyboard. -/
abbrev Keyboard := List (List String)

/-- `TlgKeyboard::add_keys` in its default direction, with a row for each key. -/
def addKeys (keys : List String) (keyboard : Keyboard) : Keyboard := keyboard ++ keys.map ([·])

/-- `m_view`: label and value of each field, sorted by the names of the fields. -/
abbrev View := List (String × String × String)

def View.init : View :=
  [("newClientOrderId", "имя: ", ""), ("price", "цена: ", ""), ("quantity", "количество: ", ""),
    ("side", "операция: ", ""), ("stopPrice", "стоп - цена: ", ""), ("symbol", "пара: ", ""),
    ("timeInForce", "вид: ", ""), ("type", "тип: ", "")]

/-- `m_view[name].second = val` -/
def View.set (name val : String) (v : View) : View :=
  v.map fun line => if line.1 = name then (line.1, line.2.1, val) else line

def View.reset (v : View) : View := v.map fun line => (line.1, line.2.1, "")

def View.print (v : View) : String :=
  "------------------------------\nНОВЫЙ ОРДЕР\n------------------------------\n" ++
    String.join (v.map fun line => line.2.1 ++ line.2.2 ++ "\n") ++
    "------------------------------\n"

/-- `TOrder`. -/
structure TOrder (F : Type) where
  state : State := .idle
  prevState : State := .idle
  data : String := ""
  keyboard : Keyboard := []
  keys : List String := []
  view : View := View.init
  order : BncOrder F
  symbolsList : List String
  repeat_ : Bool := false
  /-- The input mode of `m_telegram`. -/
  inputMode : InputMode := .command

inductive Markup where
  | textOnly
  | replay
  | keyboard (rows : Keyboard)
  deriving DecidableEq, Repr

inductive OrderResult where
  | cancel | execute | correct
  deriving DecidableEq, Repr

inductive Call (F : Type) where
  | sendMessage (text : String) (markup : Markup)
  /-- `EVENT_ORD_MANUAL` -/
  | manual (result : OrderResult)
  /-- `EVENT_ORD_DELETE` -/
  | delete (order : BncOrder F)
  /-- `EVENT_ORD_REQ_LIST` -/
  | reqList (symbol : String)

/-- A dialogue that was just built. The code leaves the order uninitialised. -/
def TOrder.init {F : Type} (order : BncOrder F) (symbols : List String) : TOrder F where
  order := order
  symbolsList := symbols

/-- What is undefined: the first element of an empty vector. -/
inductive Undefined where
  | emptyFront
  deriving DecidableEq

/-- `boost::lexical_cast<double>` -/
class LexicalCast (F : Type) where
  lexicalCast : String → Option F

/-- Decimal numerals, read exactly. Concrete runs are evaluated on it. -/
instance : LexicalCast ℚ where
  lexicalCast val := Python.Rational.ofChars val.toList

/-- The text up to the first space. -/
def firstArg (str : String) : String := String.ofList (str.toList.takeWhile (· ≠ ' '))

variable {F : Type}

namespace TOrder

/-- `set_state` -/
@[simps]
def goto (st : State) (d : TOrder F) : TOrder F := { d with prevState := d.state, state := st }

/-- `m_view[name].second = val` -/
@[simps]
def show_ (name val : String) (d : TOrder F) : TOrder F := { d with view := d.view.set name val }

@[simps]
def enter (f : BncOrder F → BncOrder F) (d : TOrder F) : TOrder F := { d with order := f d.order }

@[simps]
def setRepeat (b : Bool) (d : TOrder F) : TOrder F := { d with repeat_ := b }

@[simps]
def setInputMode (mode : InputMode) (d : TOrder F) : TOrder F := { d with inputMode := mode }

@[simps]
def setData (data : String) (d : TOrder F) : TOrder F := { d with data := data }

/-- Push the options to `keys` and add all keys to the keyboard. -/
@[simps]
def push (options : List String) (d : TOrder F) : TOrder F :=
  { d with keys := d.keys ++ options, keyboard := addKeys (d.keys ++ options) d.keyboard }

/-- Clear the keys and the keyboard. -/
@[simps]
def clear (d : TOrder F) : TOrder F := { d with keys := [], keyboard := [] }

end TOrder

/-- A method of `TOrder`. -/
abbrev Dialogue (F : Type) := Handler (TOrder F) (Call F) Undefined

def sendMessage (text : String) (markup : Markup) : Dialogue F Unit :=
  call (.sendMessage text markup)

def print : Dialogue F Unit := do
  sendMessage (← self).view.print .textOnly

/-- A prompt with a keyboard of the options and whatever was not cleared before. -/
def ask (text : String) (options : List String) : Dialogue F Unit := do
  update (TOrder.push options)
  sendMessage text (.keyboard (← self).keyboard)

/-- `*m_symbols_list.begin()` -/
def frontSymbol : Dialogue F String := do
  match (← self).symbolsList with
  | [] => raise .emptyFront
  | s :: _ => pure s

def helpType : String :=
  "LIMIT - \nMARKET - подажа или покупка по рыночной цене\n" ++
  "STOP_LOSS - исполнятся по рынку, как только будет достигнута стоп - цена\n" ++
  "STOP_LOSS_LIMIT\nTAKE_PROFIT - При достижении стоп-цены будет выполнен MARKET ордер.\n" ++
  "TAKE_PROFIT_LIMIT\n" ++
  "LIMIT_MAKER - отклонятся, если ордер при выставлении может выполниться по рынку\n"

def helpTimeInForce : String :=
  "GTC - ордер будет висеть до тех пор, пока его не отменят.\n" ++
  "IOC - Будет куплено то количество, которое можно купить немедленно. " ++
  "Все, что не удалось купить, будет отменено.\n" ++
  "FOK - Либо будет куплено все указанное количество немедленно, " ++
  "либо не будет куплено вообще ничего, ордер отменится.\n"

/-- Help, and then the engine with an empty text in the state before. -/
def help : Dialogue F (Option String) := do
  match (← self).state with
  | .type => sendMessage helpType .textOnly; back
  | .timeInForce => sendMessage helpTimeInForce .textOnly; back
  | _ => return none
where
  back : Dialogue F (Option String) := do
    let d ← self
    update (TOrder.goto d.prevState)
    update (TOrder.setRepeat true)
    return some ""

section Engine

variable [LexicalCast F]

/-- Whether the text is a number, which then is the value of the field. -/
def inputDouble (val : String) (field : F → BncOrder F → BncOrder F) (name emsg : String) :
    Dialogue F Bool := do
  match LexicalCast.lexicalCast val with
  | some x =>
    update (TOrder.enter (field x))
    update (TOrder.show_ name val)
    return true
  | none =>
    sendMessage emsg .replay
    return false

/-- The same for a price, which is printed. After help nothing is read. -/
def inputPrice (val : String) (field : F → BncOrder F → BncOrder F) (name emsg : String) :
    Dialogue F Bool := do
  if (← self).repeat_ then
    update (TOrder.setRepeat false)
    return true
  else if ← inputDouble val field name emsg then
    print
    return true
  else return false

def enterName (name : String) : Dialogue F Unit := do
  update (TOrder.enter fun o => { o with newClientOrderId := name })
  update (TOrder.show_ "newClientOrderId" name)
  print

/-- The currency of the order. -/
def enterSymbol (symbol : String) : Dialogue F Unit := do
  update (TOrder.enter fun o => { o with symbol := symbol ++ "USDT" })
  update (TOrder.show_ "symbol" (symbol ++ "USDT"))

def enterSide (side : String) : Dialogue F Unit := do
  update (TOrder.enter fun o => { o with side := stringToSide side })
  update (TOrder.show_ "side" side)

/-- One pass through the `switch`. After `some text` the engine is called with this text. -/
def visitIn (data : String) : State → Dialogue F (Option String)
  | .start => do
    if (← self).symbolsList.isEmpty then
      update (TOrder.setInputMode .command)
    else
      update fun d => { d with view := d.view.reset }
      sendMessage "Введите имя ордера" .replay
      update (TOrder.goto .name)
    return none
  | .name => do
    if (← self).repeat_ then
      update (TOrder.setRepeat false)
    else
      enterName data
    -- What was left in the keyboard is not cleared here.
    if (← self).symbolsList.length > 1 then
      ask "Выбор валюты:" (← self).symbolsList
      update (TOrder.goto .symbol)
      return none
    else
      enterSymbol (← frontSymbol)
      update (TOrder.goto .inputType)
      return some (← self).data
  | .symbol => do
    enterSymbol (firstArg data)
    update (TOrder.goto .inputType)
    return some (← self).data
  | .inputType => do
    update TOrder.clear
    ask "Тип ордера?" ["LIMIT", "MARKET"]
    update (TOrder.goto .type)
    return none
  | .type => do
    if firstArg data = "$h" then help
    else
      update (TOrder.enter fun o => { o with type := stringToType (firstArg data) })
      update (TOrder.show_ "type" (firstArg data))
      update TOrder.clear
      ask "Тип операции" ["BUY - покупка", "SELL - продажа"]
      update (TOrder.goto .side)
      return none
  | .side => do
    if (← self).repeat_ then
      update (TOrder.setRepeat false)
    else
      enterSide (firstArg data)
    print
    sendMessage "Введите количество" .replay
    update (TOrder.goto .quantity)
    return none
  | .quantity => do
    if ← inputDouble data (fun x o => { o with quantity := x }) "quantity"
        "Ошибка ввода количества" then
      print
      if (← self).order.type = .MARKET then
        update (TOrder.goto .orderReady)
        return some (← self).data
      else if (← self).order.type = .LIMIT then
        update (TOrder.goto .price)
        sendMessage "Введите цену" .replay
        return none
      else
        update (TOrder.goto .stopPrice)
        sendMessage "Введите стоп - цену" .replay
        return none
    else return none
  | .stopPrice => do
    if ← inputPrice data (fun x o => { o with stopPrice := x }) "stopPrice"
        "Ошибка ввода стоп-цены" then
      if (← self).order.type = .STOP_LOSS_LIMIT ∨ (← self).order.type = .TAKE_PROFIT_LIMIT then
        update (TOrder.goto .price)
        sendMessage "Введите цену" .replay
      else
        update (TOrder.goto .timeInForce)
        update TOrder.clear
        ask "Время действия ордера?" ["GTC", "IOC", "FOK", "$h ОПИСАНИЕ"]
    return none
  | .price => do
    if ← inputPrice data (fun x o => { o with price := x }) "price" "Ошибка ввода цены" then
      -- Nothing follows for other types, also not for those that come from the stop price.
      if (← self).order.type = .LIMIT then
        update (TOrder.goto .timeInForce)
        update TOrder.clear
        ask "Время действия ордера?" ["GTC", "IOC", "FOK"]
    return none
  | .timeInForce => do
    if firstArg data = "$h" then help
    else
      update (TOrder.enter fun o => { o with timeInForce := stringToTif (firstArg data) })
      update (TOrder.show_ "timeInForce" (firstArg data))
      print
      update (TOrder.goto .orderReady)
      return some (← self).data
  | .orderReady => do
    update TOrder.clear
    ask "Ордер готов" ["$e Выставить", "$c Отмена"]
    update (TOrder.goto .orderResult)
    return none
  | .orderResult => do
    if firstArg data = "$e" then
      sendMessage ("Ордер " ++ (← self).order.newClientOrderId ++ " отправлен") .textOnly
      call (.manual .execute)
      update (TOrder.setInputMode .command)
    else if firstArg data = "$c" then
      sendMessage ("Ордер " ++ (← self).order.newClientOrderId ++ " отменен") .textOnly
      call (.manual .cancel)
      update (TOrder.setInputMode .command)
    update (TOrder.setInputMode .command)
    return none
  | .delete => do
    if (← self).symbolsList.isEmpty then
      update (TOrder.setInputMode .command)
    else
      sendMessage "Введите имя ордера для удаления" .replay
      update (TOrder.goto .delName)
    return none
  | .delName => do
    update (TOrder.enter fun o => { o with newClientOrderId := data })
    if (← self).symbolsList.length > 1 then
      update TOrder.clear
      ask "Выбор валюты:" (← self).symbolsList
      update (TOrder.goto .delSymbol)
      return none
    else
      update (TOrder.setData (← frontSymbol))
      update (TOrder.goto .delSymbol)
      return some (← self).data
  | .delSymbol => do
    update (TOrder.enter fun o => { o with symbol := data ++ "USDT" })
    update (TOrder.goto .delReady)
    return some (← self).data
  | .delReady => do
    call (.delete (← self).order)
    update (TOrder.setInputMode .command)
    return none
  | .list => do
    if (← self).symbolsList.length > 1 then
      update TOrder.clear
      ask "Выбор валюты:" (← self).symbolsList
      update (TOrder.goto .listSymbol)
      return none
    else
      update (TOrder.setData (← frontSymbol))
      update (TOrder.goto .listSymbol)
      return some (← self).data
  | .listSymbol => do
    update (TOrder.goto .idle)
    call (.reqList data)
    update (TOrder.setInputMode .command)
    return some (← self).data
  | .idle | .listReady => return none

def visit (data : String) : Dialogue F (Option String) := do
  visitIn data (← self).state

/-- The passes of a call, as long as there are any left. -/
def passes : ℕ → String → Dialogue F Unit
  | 0, _ => pure ()
  | n + 1, data => do
    match ← visit data with
    | none => pure ()
    | some data => passes n data

/-- `engine` -/
def engine (data : String) : Dialogue F Unit := passes 4 data

def start : Dialogue F Unit := do
  update fun d => { d with state := .start }
  update (TOrder.setInputMode .order)
  engine ""

def del : Dialogue F Unit := do
  update fun d => { d with state := .delete }
  update (TOrder.setInputMode .order)
  engine ""

def list : Dialogue F Unit := do
  update fun d => { d with state := .list }
  update (TOrder.setInputMode .order)
  engine ""

/-- What comes from the rest of the program. -/
inductive Event where
  | start
  | del
  | list
  | setData (data : String)
  deriving DecidableEq

def Event.handler : Event → Dialogue F Unit
  | .start => Order.start
  | .del => Order.del
  | .list => Order.list
  | .setData data => engine data

/-- The dialogue as a machine. -/
def dialogue : Machine (TOrder F) Event (Call F) where
  next d e := (e.handler.run d).state
  emit d e := (e.handler.run d).calls

end Engine

end BotTrader.Order
