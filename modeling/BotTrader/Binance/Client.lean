import BotTrader.Automata.Machine
import BotTrader.Https.Owner
import BotTrader.Wss.Client

/-! The client of the exchange: its HTTPS client, the user data stream and three timers,
under calls of the application, completions and expiries in any order. Each handler is
one step, and reads the clocks once. Not modelled are the texts for Telegram, with the
functions that print them, the messages of the streams, and the statistic streams. An
exception that escapes from a handler ends the process. -/

namespace BotTrader.Binance

open Automata Handler Boost Https

/-- `deadline_timer`. The handler of a wait that was cancelled only returns, and is not
kept. -/
structure DeadlineTimer where
  /-- Waits that are pending. -/
  waiting : ℕ := 0
  /-- Handlers of waits that have expired. -/
  due : ℕ := 0

namespace DeadlineTimer

def cancel (t : DeadlineTimer) : DeadlineTimer := { t with waiting := 0 }

/-- `expires_from_now`, which cancels the wait before, and `async_wait` -/
def start (t : DeadlineTimer) : DeadlineTimer := { t.cancel with waiting := 1 }

def expire (t : DeadlineTimer) : DeadlineTimer := { waiting := 0, due := t.due + t.waiting }

/-- An expired wait's handler is called. -/
def take (t : DeadlineTimer) : DeadlineTimer := { t with due := t.due - 1 }

end DeadlineTimer

/-- The settings, and the signing of a text. -/
structure Config where
  hmac : String → String → String
  secretKey : String
  recvWindow : ℤ
  symbolsList : List String

/-- What `Binance` has besides the HTTPS client. -/
structure Fields where
  user : Wss.Client := {}
  listenKey : String := ""
  pingTimer : DeadlineTimer := {}
  priceTimer : DeadlineTimer := {}
  cleanupTimer : DeadlineTimer := {}
  alive : Bool := true

namespace Fields

def cancelPrice (b : Fields) : Fields := { b with priceTimer := b.priceTimer.cancel }

def startPrice (b : Fields) : Fields := { b with priceTimer := b.priceTimer.start }

def cancelCleanup (b : Fields) : Fields := { b with cleanupTimer := b.cleanupTimer.cancel }

def startCleanup (b : Fields) : Fields := { b with cleanupTimer := b.cleanupTimer.start }

def startPing (b : Fields) : Fields := { b with pingTimer := b.pingTimer.start }

/-- `set_stream` and `connect` of the user stream -/
def connectUser (b : Fields) : Fields :=
  { b with user := ({ b.user with stream := b.listenKey } : Wss.Client).connect }

end Fields

/-- The events for the application, with the trees of their texts. -/
inductive Out where
  | orderReport (data : Ptree)
  | price (data : Ptree)
  | account (data : Ptree)
  | exchangeInfo (data : Ptree)
  | orderList (data : Ptree)

abbrev State := Owner Request Fields

abbrev Bnc := Method Request Fields Out

/-! ### Requests -/

def createUserStream : Request := ⟨.post, "/api/v3/userDataStream"⟩

/-- The request of `ping_user_stream` -/
def pingRequest : Request := ⟨.put, "/api/v3/userDataStream"⟩

def createOrder : Request := ⟨.post, "/api/v3/order"⟩

def deleteOrder : Request := ⟨.delete_, "/api/v3/order"⟩

def getExchangeInfo : Request := ⟨.get, "/api/v3/exchangeInfo"⟩

section Signed

variable (cfg : Config)

def deleteAllOrders : Request :=
  ⟨.delete_, nocontent cfg.hmac "/api/v3/openOrders" .empty cfg.secretKey⟩

def getPrice (symbol : String) : Request :=
  let pt := if symbol ≠ "" then Ptree.empty.put "symbol" (symbol ++ "USDT") else .empty
  ⟨.get, nocontent cfg.hmac "/api/v3/ticker/price" pt ""⟩

def getAccount (now : UInt64) : Request :=
  let pt := Ptree.empty.put "recvWindow" (toString cfg.recvWindow)
  let pt := pt.put "timestamp" (toString now)
  ⟨.get, nocontent cfg.hmac "/api/v3/account" pt cfg.secretKey⟩

def getOpenOrders (symbol : String) (now : UInt64) : Request :=
  let pt := Ptree.empty.put "symbol" symbol
  let pt := pt.put "recvWindow" (toString cfg.recvWindow)
  let pt := pt.put "timestamp" (toString now)
  ⟨.get, nocontent cfg.hmac "/api/v3/openOrders" pt cfg.secretKey⟩

def getAllOrders (now : UInt64) : Request :=
  let pt := Ptree.empty.put "timestamp" (toString now)
  ⟨.get, nocontent cfg.hmac "/api/v3/allOrders" pt cfg.secretKey⟩

/-- The requests that the application makes, for itself, Telegram, the script and the
web clients. -/
inductive Call where
  | createOrder | deleteOrder | deleteAllOrders
  | getPrice (symbol : String)
  | getAccount
  | getOpenOrders (symbol : String)
  | getAllOrders

def Call.request (now : UInt64) : Call → Request
  | createOrder => Binance.createOrder
  | deleteOrder => Binance.deleteOrder
  | deleteAllOrders => Binance.deleteAllOrders cfg
  | getPrice symbol => Binance.getPrice cfg symbol
  | getAccount => Binance.getAccount cfg now
  | getOpenOrders symbol => Binance.getOpenOrders cfg symbol now
  | getAllOrders => Binance.getAllOrders cfg now

end Signed

/-! ### Timers and connections -/

def startPriceTimer : Bnc Unit := update (Owner.modify Fields.startPrice)

def onPriceTimer (cfg : Config) (now : UInt64) (time : UInt32) : Bnc Unit := do
  if (← self).http.ready then
    update (Owner.push (getPrice cfg "") now time)
    startPriceTimer

/-- `cleanup_requests` takes the window as an unsigned number. -/
def Config.window (cfg : Config) : UInt64 := .ofInt cfg.recvWindow

def onCleanupTimer (cfg : Config) (now : UInt64) : Bnc Unit := do
  update (Owner.perform (.cleanupRequests cfg.window now))
  update (Owner.modify Fields.startCleanup)

def pingUserStream (now : UInt64) (time : UInt32) : Bnc Unit := do
  update (Owner.push pingRequest now time)
  update (Owner.modify Fields.startPing)

def onConnectUserStream (now : UInt64) (time : UInt32) (connect : Bool) : Bnc Unit :=
  if connect then pingUserStream now time
  else update (Owner.push createUserStream now time)

/-- Whether the websocket is open at this time is up to the stream. -/
def onConnectHttpClient (cfg : Config) (isOpen : Bool) (now : UInt64) (time : UInt32)
    (connect : Bool) : Bnc Unit := do
  if connect then
    update (Owner.push (getAccount cfg now) now time)
    update (Owner.push getExchangeInfo now time)
    startPriceTimer
    onCleanupTimer cfg now
    if !isOpen then
      update (Owner.push createUserStream now time)
  else
    update (Owner.modify Fields.cancelPrice)
    update (Owner.modify Fields.cancelCleanup)

/-! ### Answers -/

/-- The branches of `http_data_handler` -/
inductive Route where
  | ping | order | prices | price | account | exchangeInfo | userDataStream | orders | other
  deriving DecidableEq

def route (target : String) : Route :=
  if contains target "/api/v3/ping" then .ping
  else if contains target "/api/v3/order" then .order
  else if contains target "/api/v3/ticker/price" then
    if !contains target "symbol" then .prices else .price
  else if contains target "/api/v3/account" then .account
  else if contains target "/api/v3/exchangeInfo" then .exchangeInfo
  else if contains target "/api/v3/userDataStream" then .userDataStream
  else if contains target "/api/v3/openOrders" || contains target "/api/v3/allOrders" then .orders
  else .other

/-- The answer to an order, with the keys of a report. -/
def orderReport (tree : Ptree) : Except Exc Ptree := do
  let empt := Ptree.empty.put "e" "executionReport"
  let empt := empt.put "s" (← tree.get "symbol")
  let empt := empt.put "X" (← tree.get "status")
  let empt := empt.put "c" (← tree.get "clientOrderId")
  let empt := empt.put "f" (← tree.get "timeInForce")
  let empt := empt.put "S" (← tree.get "side")
  return empt.put "o" (← tree.get "type")

/-- An entry of the list of all prices is passed on if it is of a symbol of the list. -/
def priceEntry (cfg : Config) (entry : Ptree) : Bnc Unit :=
  match entry.get "symbol", entry.get "price" with
  | .ok symb, .ok _ =>
    match substrBefore symb "USDT" with
    | some symb => if symb ∈ cfg.symbolsList then call (.price entry) else pure ()
    | none => pure ()
  | _, _ => pure ()

/-- The answer to a `POST` is the key for a new stream. -/
def keyHandler (tree : Ptree) : Bnc Unit := do
  let key ← attempt (tree.get "listenKey")
  update (Owner.modify fun b => { b with listenKey := key })
  if (← self).own.user.connectState = .closed then
    update (Owner.modify Fields.connectUser)

def httpDataHandler (cfg : Config) (req : Request) (resp : Response) : Bnc Unit :=
  match resp.body with
  | none => pure ()
  | some tree =>
    if resp.status = 200 then
      match route req.target with
      | .order => do call (.orderReport (← attempt (orderReport tree)))
      | .prices => tree.children.forM fun c => priceEntry cfg c.2
      | .price => do
        call (.price tree)
        update (Owner.modify Fields.cancelPrice)
      | .account => call (.account tree)
      | .exchangeInfo => call (.exchangeInfo tree)
      | .userDataStream => match req.method with
        | .post => keyHandler tree
        | _ => pure ()
      | .orders => call (.orderList tree)
      | .ping | .other => pure ()
    else pure ()

/-! ### What an answer does -/

/-- The price of one symbol. -/
def PriceOf (req : Request) (resp : Response) : Prop :=
  resp.body.isSome ∧ resp.status = 200 ∧ route req.target = .price

instance (req : Request) (resp : Response) : Decidable (PriceOf req resp) :=
  inferInstanceAs (Decidable (_ ∧ _ ∧ _))

/-- The answer to a `POST` for a stream. -/
def KeyOf (req : Request) (resp : Response) (tree : Ptree) : Prop :=
  resp.body = some tree ∧ resp.status = 200 ∧ route req.target = .userDataStream ∧
    req.method = .post

/-- An answer that lacks a key which its handler reads. -/
def Malformed (req : Request) (resp : Response) : Prop :=
  ∃ tree x, resp.body = some tree ∧ resp.status = 200 ∧
    (route req.target = .order ∧ orderReport tree = .error x ∨
      KeyOf req resp tree ∧ tree.get "listenKey" = .error x)

/-- The state after the key of a new stream. -/
def keyed (key : String) (s : State) : State :=
  if s.own.user.connectState = .closed then
    (s.modify fun b => { b with listenKey := key }).modify Fields.connectUser
  else s.modify fun b => { b with listenKey := key }

/-- What `http_data_handler` leaves behind. -/
inductive Handled (req : Request) (resp : Response) (s : State) :
    Outcome State Out Exc Unit → Prop
  | price (h : PriceOf req resp) (o : List Out) :
    Handled req resp s (.done () (s.modify Fields.cancelPrice) o)
  | key (tree : Ptree) (key : String) (h : KeyOf req resp tree)
    (hk : tree.get "listenKey" = .ok key) : Handled req resp s (.done () (keyed key s) [])
  | malformed (h : Malformed req resp) (x : Exc) : Handled req resp s (.raised x s [])
  | rest (hp : ¬PriceOf req resp) (hk : ∀ tree, ¬KeyOf req resp tree)
    (hm : ¬Malformed req resp) (o : List Out) : Handled req resp s (.done () s o)

theorem run_priceEntry (cfg : Config) (entry : Ptree) (s : State) :
    ∃ o, (priceEntry cfg entry).run s = .done () s o := by
  unfold priceEntry
  split
  · split
    · split
      · exact ⟨[.price entry], rfl⟩
      · exact ⟨[], rfl⟩
    · exact ⟨[], rfl⟩
  · exact ⟨[], rfl⟩

theorem run_keyHandler {tree : Ptree} {key : String} (h : tree.get "listenKey" = .ok key)
    (s : State) : (keyHandler tree).run s = .done () (keyed key s) [] := by
  rw [keyHandler, h, run_bind_done (run_attempt_ok key s), run_bind_done (run_update _ s),
    run_bind_done (run_self _)]
  simp only [Outcome.after_nil, keyed]
  by_cases hc : s.own.user.connectState = .closed
  · simp [Owner.modify, hc]
  · simp [Owner.modify, hc]

section Handled

variable {req : Request} {resp : Response} {tree : Ptree}

theorem handled_keyHandler (h : KeyOf req resp tree) (s : State) :
    Handled req resp s ((keyHandler tree).run s) := by
  cases hk : tree.get "listenKey" with
  | ok key =>
    rw [run_keyHandler hk]
    exact .key tree key h hk
  | error x =>
    rw [keyHandler, hk, run_bind_raised (run_attempt_error x s)]
    exact .malformed ⟨tree, x, h.1, h.2.1, .inr ⟨h, hk⟩⟩ x

theorem handled_httpDataHandler (cfg : Config) (req : Request) (resp : Response) (s : State) :
    Handled req resp s ((httpDataHandler cfg req resp).run s) := by
  -- an answer that is dropped, or passed on as it is
  have other (h : ∀ tree, resp.body = some tree → resp.status = 200 →
      route req.target ≠ .price ∧ ¬(route req.target = .userDataStream ∧ req.method = .post) ∧
        ∀ x, ¬(route req.target = .order ∧ orderReport tree = .error x)) (o : List Out) :
      Handled req resp s (.done () s o) := by
    have hk (tree : Ptree) (hk : KeyOf req resp tree) : False :=
      (h tree hk.1 hk.2.1).2.1 hk.2.2
    refine .rest (fun hp => ?_) hk (fun hm => ?_) o
    · obtain ⟨tree, ht⟩ := Option.isSome_iff_exists.mp hp.1
      exact (h tree ht hp.2.1).1 hp.2.2
    · obtain ⟨tree, x, ht, hs, ho | ⟨hk', -⟩⟩ := hm
      · exact (h tree ht hs).2.2 x ho
      · exact hk tree hk'
  unfold httpDataHandler
  cases hb : resp.body with
  | none => exact other (fun tree ht => by simp [hb] at ht) []
  | some tree =>
    by_cases hs : resp.status = 200
    · simp only [hs, if_true]
      cases hr : route req.target with
      | order =>
        cases ho : orderReport tree with
        | ok report =>
          refine other (fun tree' ht _ => ?_) [.orderReport report]
          obtain rfl : tree = tree' := Option.some.inj (hb.symm.trans ht)
          simp [hr, ho]
        | error x => exact .malformed ⟨tree, x, hb, hs, .inl ⟨hr, ho⟩⟩ x
      | prices =>
        obtain ⟨o, ho⟩ := run_forM_quiet (fun c => run_priceEntry cfg (Prod.snd c)) tree.children s
        rw [ho]
        exact other (fun _ _ _ => by simp [hr]) o
      | price => exact .price ⟨by simp [hb], hs, hr⟩ _
      | userDataStream =>
        by_cases hm : req.method = .post
        · simp only [hm]
          exact handled_keyHandler ⟨hb, hs, hr, hm⟩ s
        · have hq := other (fun _ _ _ => by simp [hr, hm]) []
          cases hv : req.method <;> first | exact absurd hv hm | exact hq
      | _ => exact other (fun _ _ _ => by simp [hr]) _
    · simp only [hs, if_false]
      exact other (fun _ _ h => absurd h hs) []

theorem PriceOf.not_keyOf (h : PriceOf req resp) : ¬KeyOf req resp tree :=
  fun hk => absurd (h.2.2.symm.trans hk.2.2.1) (by decide)

theorem PriceOf.not_malformed (h : PriceOf req resp) : ¬Malformed req resp := by
  rintro ⟨tree, x, -, -, ⟨ho, -⟩ | ⟨hk, -⟩⟩
  · exact absurd (h.2.2.symm.trans ho) (by decide)
  · exact h.not_keyOf hk

theorem KeyOf.not_malformed {key : String} (h : KeyOf req resp tree)
    (hk : tree.get "listenKey" = .ok key) : ¬Malformed req resp := by
  rintro ⟨tree', x, ht, -, ⟨ho, -⟩ | ⟨-, he⟩⟩
  · exact absurd (h.2.2.1.symm.trans ho) (by decide)
  · obtain rfl : tree = tree' := Option.some.inj (h.1.symm.trans ht)
    rw [hk] at he
    cases he

theorem run_priceOf (cfg : Config) (h : PriceOf req resp) (s : State) :
    ∃ o, (httpDataHandler cfg req resp).run s = .done () (s.modify Fields.cancelPrice) o := by
  have hc := handled_httpDataHandler cfg req resp s
  generalize (httpDataHandler cfg req resp).run s = r at hc ⊢
  cases hc with
  | price _ o => exact ⟨o, rfl⟩
  | key tree key hk => exact absurd hk h.not_keyOf
  | malformed hm => exact absurd hm h.not_malformed
  | rest hp => exact absurd h hp

end Handled

/-! ### Runs -/

/-- Completions are given by the position of the operation. -/
inductive Event where
  | call (c : Call) (now : UInt64) (time : UInt32)
  | onWrite (i : ℕ) (ok : Bool)
  | onReadError (i : ℕ)
  | onRead (i : ℕ) (resp : Response) (time : UInt32)
  | onReconnect
  | connectFailed
  | onHandshake (isOpen : Bool) (now : UInt64) (time : UInt32)
  | onStream (i : ℕ) (ok : Bool) (now : UInt64) (time : UInt32)
  | expirePing | expirePrice | expireCleanup
  | onPingTimer (now : UInt64) (time : UInt32)
  | onPriceTimer (now : UInt64) (time : UInt32)
  | onCleanupTimer (now : UInt64)

def userCallback (now : UInt64) (time : UInt32) : Wss.Io → Bnc Unit
  | .connectHandler connect => onConnectUserStream now time connect
  | .dataHandler => pure ()

/-- An operation of the user stream completes. -/
def onStream (i : ℕ) (ok : Bool) (now : UInt64) (time : UInt32) : Bnc Unit := do
  let r := (← self).own.user.step i ok
  update (Owner.modify fun b => { b with user := r.1 })
  r.2.forM (userCallback now time)

variable (cfg : Config)

def handle : Event → Bnc Unit
  | .call c now time => update (Owner.push (c.request cfg now) now time)
  | .onWrite i ok => update (Owner.perform (.onWrite i ok))
  | .onReadError i => update (Owner.perform (.onRead i false))
  | .onRead i resp time => onRead (httpDataHandler cfg) i resp time
  | .onReconnect => update (Owner.perform .onReconnect)
  | .connectFailed => connectFailed (onConnectHttpClient cfg false 0 0)
  | .onHandshake isOpen now time => onHandshake (onConnectHttpClient cfg isOpen now time) time
  | .onStream i ok now time => onStream i ok now time
  | .expirePing => update (Owner.modify fun b => { b with pingTimer := b.pingTimer.expire })
  | .expirePrice => update (Owner.modify fun b => { b with priceTimer := b.priceTimer.expire })
  | .expireCleanup => update (Owner.modify fun b => { b with cleanupTimer := b.cleanupTimer.expire })
  | .onPingTimer now time => do
    if 0 < (← self).own.pingTimer.due then
      update (Owner.modify fun b => { b with pingTimer := b.pingTimer.take })
      pingUserStream now time
  | .onPriceTimer now time => do
    if 0 < (← self).own.priceTimer.due then
      update (Owner.modify fun b => { b with priceTimer := b.priceTimer.take })
      onPriceTimer cfg now time
  | .onCleanupTimer now => do
    if 0 < (← self).own.cleanupTimer.due then
      update (Owner.modify fun b => { b with cleanupTimer := b.cleanupTimer.take })
      onCleanupTimer cfg now

/-- The state when a handler is left, by an exception or not. -/
def left : Outcome State Out Exc Unit → State
  | .done _ s _ => s
  | .raised _ s _ => s.modify fun b => { b with alive := false }

/-- The client under calls, completions and expiries in any order. -/
def binance : Machine State Event Out where
  next s e := if s.own.alive then left ((handle cfg e).run s) else s
  emit s e := if s.own.alive then ((handle cfg e).run s).calls else []

/-- `connect` of the HTTPS client was called. -/
def init : State where
  http := Client.init
  request _ := getExchangeInfo
  answer _ := {}
  own := {}

/-! ### What a connection does -/

/-- The state after `on_connect_http_client(true)`. -/
def connected (isOpen : Bool) (now : UInt64) (time : UInt32) (s : State) : State :=
  let s := s.push (getAccount cfg now) now time
  let s := s.push getExchangeInfo now time
  let s := s.modify Fields.startPrice
  let s := s.perform (.cleanupRequests cfg.window now)
  let s := s.modify Fields.startCleanup
  if isOpen then s else s.push createUserStream now time

theorem run_connected (isOpen : Bool) (now : UInt64) (time : UInt32) (s : State) :
    (onConnectHttpClient cfg isOpen now time true).run s =
      .done () (connected cfg isOpen now time s) [] := by
  cases isOpen <;> rfl

theorem run_disconnected (isOpen : Bool) (now : UInt64) (time : UInt32) (s : State) :
    (onConnectHttpClient cfg isOpen now time false).run s =
      .done () ((s.modify Fields.cancelPrice).modify Fields.cancelCleanup) [] := rfl

/-- Settings without keys; nothing is signed then. -/
def keyless : Config where
  hmac _ _ := ""
  secretKey := ""
  recvWindow := 5000
  symbolsList := ["BTC"]

/-- An answer of the exchange; what it says does not matter here. -/
def okAnswer : Response := { body := some .empty }

end BotTrader.Binance
