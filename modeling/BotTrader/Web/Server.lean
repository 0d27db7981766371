import Mathlib.Logic.Function.Basic
import BotTrader.Cpp.Int
import BotTrader.Cpp.Multimap
import BotTrader.Web.Base64

/-! The web server: its clients, their log-in, the decoding of their commands, and
the messages that it sends. Sessions are numbered in the order in which they were
accepted. What is sent is kept as the tree or the text that is encoded then, and
the JSON parser and the printing of a number are parameters; log lines are not
modelled. -/

namespace BotTrader.Web

open Automata Handler Boost Cpp

/-- `uinterface` -/
inductive Interface where
  | IntfTlg | IntfWeb
  deriving DecidableEq, Repr

/-- The parts of boost that are not modelled. -/
structure Library where
  /-- `read_json`; nothing for a `json_parser_error`. -/
  readJson : Bytes → Option Ptree
  /-- `get<double>` of a text, and the text that `put<double>` makes of it. -/
  double : String → Option String

/-- What the server reads and sets of a `session`. -/
structure Session where
  id : ℤ := -1
  readyForPrice : Bool := false

structure Server where
  adminPassword : String
  userPassword : String
  interface : Interface
  symbolsList : List String
  currId : ℤ := 1
  session : ℕ → Session := fun _ => {}
  clientMap : Multimap ℤ ℕ := []

/-- What `session::send` gets, before it is printed and encoded. -/
inductive Payload where
  | tree (t : Ptree)
  | text (s : String)

/-- The events that the server posts. -/
inductive WebEvent where
  | tradeRun (data : Ptree)
  | ordReqList (symbol : String)
  | tlgGetAccount
  | ordDelete (newClientOrderId symbol : String)
  | setTradeData (data : Ptree)
  | reqTradeState (symbol : String)
  | scrGetPrice (symbol : String)
  | reqTradePos (symbol : String)
  | getFilters

inductive Out where
  | send (client : ℕ) (data : Payload)
  | event (e : WebEvent)

abbrev Srv := Handler Server Out Exc

namespace Server

def id (s : Server) (k : ℕ) : ℤ := (s.session k).id

/-- `client->set_id(i)` -/
def setId (k : ℕ) (i : ℤ) (s : Server) : Server :=
  { s with session := Function.update s.session k { s.session k with id := i } }

/-- `client->set_ready_for_price(true)` -/
def setReady (k : ℕ) (s : Server) : Server :=
  { s with session := Function.update s.session k { s.session k with readyForPrice := true } }

/-- `m_client_map.emplace(key, client)` -/
def emplace (key : ℤ) (k : ℕ) (s : Server) : Server :=
  { s with clientMap := s.clientMap.emplace key k }

end Server

/-! ### The table of clients -/

def changeClientKey (k : ℕ) (newKey : ℤ) : Srv Unit := do
  if (← self).clientMap.any (·.2 = k) then
    update fun s => { s with clientMap := s.clientMap.eraseValue k }
    if 0 ≤ newKey then
      update (Server.emplace newKey k)

def onConnect (k : ℕ) : Srv Unit := update (Server.emplace (-1) k)

/-- The entry that `find` gives is erased, whichever session it is of. -/
def onDisconnect (k : ℕ) : Srv Unit :=
  update fun s => { s with clientMap := s.clientMap.eraseKey (s.id k) }

/-! ### Messages of a client -/

def errorText : ℕ → String
  | 1 => "Внутренняя ошибка"
  | 2 => "Доступ запрещен"
  | 3 => "Ошибка формата данных"
  | _ => "Неизвестная ошибка"

def errorMessage (k : ℕ) (ecode : ℕ) : Srv Unit :=
  let ept := Ptree.empty.put "e" "errorMsg"
  let ept := ept.put "c" (toString ecode)
  let ept := ept.put "m" (errorText ecode)
  call (.send k (.tree ept))

/-- From the label `as_user` to the end of its branch. -/
def asUser (k : ℕ) (apt : Ptree) : Srv Ptree := do
  update fun s => { s with currId := int32 (s.currId + 1) }
  update fun s => s.setId k s.currId
  changeClientKey k (← self).currId
  let apt := apt.put "c" "0"
  let apt := apt.put "r" "user"
  return apt.put "m" "Пароль принят. Управление блокировано"

/-- The branch of the admin password. -/
def asAdmin (k : ℕ) (apt : Ptree) : Srv Ptree := do
  let s ← self
  let apt := apt.put "r" "admin"
  if s.interface = .IntfTlg then
    let apt := apt.put "с" "2"
    let apt := apt.put "m" "Пароль принят. Управление от Telegram"
    asUser k apt
  else if s.clientMap.findKey 0 = none then
    update (Server.setId k 0)
    changeClientKey k 0
    let apt := apt.put "с" "0"
    return apt.put "m" "Пароль принят"
  else
    let apt := apt.put "c" "1"
    let apt := apt.put "r" "admin"
    return apt.put "m" "Пользователь уже авторизован"

/-- The reply to a wrong password. -/
def rejectPassword (apt : Ptree) : Ptree :=
  let apt := apt.put "c" "0"
  let apt := apt.put "r" ""
  apt.put "m" "Password fail"

/-- The command `authUser`. -/
def authUser (k : ℕ) (pt : Ptree) : Srv Unit := do
  let s ← self
  let password := pt.getD "p" ""
  let apt := Ptree.empty.put "e" "authUser"
  if (-1, k) ∈ s.clientMap then
    let apt ←
      if password = s.adminPassword then asAdmin k apt
      else if password = s.userPassword then asUser k apt
      else pure (rejectPassword apt)
    call (.send k (.tree apt))

/-- `m_symbols_list` as an answer. -/
def symbolsReply (symbols : List String) : Ptree :=
  (Ptree.empty.put "e" "getSymbols").addChild "s" (Ptree.ofList symbols)

def post (e : WebEvent) : Srv Unit := call (.event e)

def commandDecoder (k : ℕ) (cmd : String) (pt : Ptree) : Srv Unit := do
  let s ← self
  if cmd = "runTrade" then
    if s.id k ≠ 0 then errorMessage k 2
    else post (.tradeRun pt)
  else if cmd = "ordersList" then
    if (← attempt (pt.get "m")) = "open" then post (.ordReqList (← attempt (pt.get "s")))
    else if (← attempt (pt.get "m")) = "all" then post (.ordReqList "")
  else if cmd = "outboundAccountInfo" then
    post .tlgGetAccount
  else if cmd = "ordersDel" then
    if s.id k ≠ 0 then errorMessage k 2
    else
      -- an exception within the `try` is logged, and nothing posted
      match pt.get "n" with
      | .ok n => post (.ordDelete n (pt.getD "s" "" ++ "USDT"))
      | .error _ => pure ()
  else if cmd = "tradeData" then
    if s.id k ≠ 0 then
      if (← attempt (pt.get "a")) ≠ "get" then errorMessage k 1
      else post (.setTradeData pt)
    else post (.setTradeData pt)
  else if cmd = "tradeState" then
    post (.reqTradeState (← attempt (pt.get "s")))
  else if cmd = "priceSymbol" then
    post (.scrGetPrice (← attempt (pt.get "s")))
  else if cmd = "tradePos" then
    post (.reqTradePos (← attempt (pt.get "s")))
  else if cmd = "getSymbols" then
    call (.send k (.tree (symbolsReply s.symbolsList)))
    update (Server.setReady k)
  else if cmd = "getFilters" then
    post .getFilters
  else
    errorMessage k 3

def onReceive (lib : Library) (k : ℕ) (msg : Bytes) : Srv Unit := do
  -- outside of the `try` block
  let text ← attempt (decode64 msg)
  match lib.readJson text with
  | none => errorMessage k 3
  | some pt =>
    let cmd ← attempt (pt.get "c")
    if cmd = "authUser" then authUser k pt
    else if (← self).id k < 0 then pure ()
    else commandDecoder k cmd pt

/-! ### Messages to the clients -/

/-- `send(data, client)`; -2 is everyone. -/
def send (data : Payload) (client : ℤ) : Srv Unit := do
  let s ← self
  if client = -2 then
    s.clientMap.forM fun e => if 0 ≤ s.id e.2 then call (.send e.2 data) else pure ()
  else
    match s.clientMap.findKey client with
    | some e => if 0 ≤ s.id e.2 then call (.send e.2 data) else pure ()
    | none => pure ()

/-- `read_json`, where no handler catches its exception. -/
def Library.parse (lib : Library) (data : Bytes) : Except Exc Ptree :=
  match lib.readJson data with
  | some t => .ok t
  | none => .error .jsonParser

/-- `put<double>(key, get<double>(..))` of a text. -/
def Library.reprint (lib : Library) (s : String) : Except Exc String :=
  match lib.double s with
  | some d => .ok d
  | none => .error .badData

def onPrice (lib : Library) (data : Bytes) : Srv Unit := do
  let ipt ← attempt (lib.parse data)
  let opt := Ptree.empty.put "e" "priceSymbol"
  let opt := opt.put "s" (← attempt (ipt.get "symbol"))
  let opt := opt.put "p" (← attempt (do lib.reprint (← ipt.get "price")))
  let s ← self
  s.clientMap.forM fun e =>
    if s.id e.2 < 0 then pure ()
    else if (s.session e.2).readyForPrice = false then pure ()
    else call (.send e.2 (.tree opt))

def onBinanceError (lib : Library) (data : Bytes) : Srv Unit := do
  let ipt ← attempt (lib.parse data)
  let opt := Ptree.empty.put "e" "binanceError"
  let opt := opt.put "c" (← attempt (ipt.get "code"))
  let opt := opt.put "m" (← attempt (ipt.get "msg"))
  send (.tree opt) (-2)

/-- One balance of the account; those of other symbols are left out. -/
def balance (symbols : List String) (b : Ptree) : Except Exc (Option Ptree) := do
  let symbol ← b.get "asset"
  if symbol ∉ symbols ∧ symbol ≠ "USDT" then
    return none
  let pt := Ptree.empty.put "a" symbol
  let pt := pt.put "f" (← b.get "free")
  return some (pt.put "l" (← b.get "locked"))

def onAccount (lib : Library) (data : Bytes) : Srv Unit := do
  let ipt ← attempt (lib.parse data)
  let opt := Ptree.empty.put "e" "outboundAccountInfo"
  let opt := opt.put "m" (← attempt (ipt.get "makerCommission"))
  let opt := opt.put "t" (← attempt (ipt.get "takerCommission"))
  let blnc ← attempt (ipt.getChild "balances")
  let symbols := (← self).symbolsList
  let balances ← attempt (blnc.children.filterMapM fun c => balance symbols c.2)
  send (.tree (opt.addChild "B" (.node (balances.map fun b => ("", b))))) (-2)

def onOrdersList (lib : Library) (data : Bytes) : Srv Unit := do
  let ipt ← attempt (lib.parse data)
  let opt := Ptree.empty.put "e" "ordersList"
  send (.tree (opt.addChild "orders" ipt)) (-2)

def onTradeSteps (symbol : String) (posList : List String) : Srv Unit :=
  let opt := Ptree.empty.put "e" "tradePos"
  let opt := opt.put "s" symbol
  send (.tree (opt.addChild "p" (Ptree.ofList posList))) (-2)

end BotTrader.Web
