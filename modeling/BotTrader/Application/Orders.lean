import BotTrader.Application.System
import BotTrader.Binance.Routing
import BotTrader.Control.Channels
import BotTrader.Order.Submission

/-! The way of an order of the script to the exchange and back. The exchange reads the order
unless the name of its symbol breaks the parameters; its answer becomes a report, and the report
finds the symbol that placed the order, and no other. -/

namespace BotTrader.Application

open Automata Handler Boost Https Binance Python Strategy Control
open BotTrader.Order (BncOrder Printing Submits createOrderFields submits_of_survives
  survives_orderTexts)

variable {F : Type}

/-! ### From the script to the exchange -/

/-- The values of the enumerations that the script has for these. -/
def bncType : Strategy.OrderType → BotTrader.Order.OrderType
  | .UNKNOWN => .UNKNOWN
  | .LIMIT => .LIMIT
  | .MARKET => .MARKET
  | .STOP_LOSS => .STOP_LOSS
  | .STOP_LOSS_LIMIT => .STOP_LOSS_LIMIT
  | .TAKE_PROFIT => .TAKE_PROFIT
  | .TAKE_PROFIT_LIMIT => .TAKE_PROFIT_LIMIT
  | .LIMIT_MAKER => .LIMIT_MAKER

def bncSide : Side → BotTrader.Order.Side
  | .BUY => .BUY
  | .SELL => .SELL

def bncTif : TimeInForce → BotTrader.Order.TimeInForce
  | .UNK => .UNK
  | .GTC => .GTC
  | .IOC => .IOC
  | .FOK => .FOK

/-- The object that `h_exec_order` is called with; the script does not set `stopPrice`. -/
def bncOrder (stopPrice : F) (o : Strategy.Order F) : BncOrder F where
  symbol := o.symbol
  newClientOrderId := o.newClientOrderId
  side := bncSide o.side
  type := bncType o.type
  timeInForce := bncTif o.timeInForce
  quantity := o.quantity
  price := o.price
  stopPrice := stopPrice

section Ids

variable {π : Type}

/-- The order that an act issues is named after its side. -/
theorem named_of_issue (name : Fin 2 → ℕ → String) (c : State π) (i : Input π) :
    ∀ a ∈ (machine name).emit c i, ∀ t, a.ticket? = some t → ∃ n, t.id = name t.side n := by
  have hs := step_cases name c i
  generalize (machine name).next c i = c' at hs
  generalize (machine name).emit c i = acts at hs
  have place (c : State π) : ∀ a ∈ [Act.issue (c.ticket name), .arm], ∀ t, a.ticket? = some t →
      ∃ n, t.id = name t.side n := by
    intro a ha t ht
    rcases List.mem_cons.mp ha with rfl | ha
    · obtain rfl := Option.some.inj ht
      exact ⟨c.counter, rfl⟩
    · rw [List.mem_singleton.mp ha] at ht
      cases ht
  cases hs with
  | place => exact place c
  | beginAndPlace => exact place _
  | _ => simp

end Ids

variable [Runtime F] {s : String}

/-- The orders of a symbol are limit orders for its pair, under its own ids. -/
structure OwnOrder (s : String) (o : Strategy.Order F) : Prop where
  kind : o.kind = ownKind s
  id : ∃ i n, o.newClientOrderId = orderId s i n

theorem own_ordersOf (s : String) (es : List (Strategy.Event F)) :
    ∀ o ∈ ordersOf (SymbolData.init s : SymbolData F) es, OwnOrder s o := by
  intro o ho
  constructor
  case kind =>
    have hcalls := Machine.emitted_invariant (M := bot (F := F)) (Named s) (Call.OwnKind s)
      (P := fun _ _ => True) (fun d e hd _ => (named_handler e d hd).1)
      (fun d e hd _ => (named_handler e d hd).2) (named_init s)
      (Machine.along_of_forall _ (fun _ _ => trivial) _ es)
    obtain ⟨c, hc, horder⟩ := List.mem_filterMap.mp ho
    cases c with
    | execOrder o' =>
      obtain rfl := Option.some.inj horder
      exact hcalls _ hc
    | _ => cases horder
  case id =>
    have htickets := tickets_of_run (models_init (F := F) s) es
    have hmem : ticketOf o ∈ (ordersOf (SymbolData.init s) es).map ticketOf :=
      List.mem_map_of_mem ho
    rw [htickets] at hmem
    obtain ⟨a, ha, hticket⟩ := List.mem_filterMap.mp hmem
    have hnamed := Machine.emitted_invariant (M := machine (π := F) (orderId s)) (fun _ => True)
      (fun a => ∀ t, a.ticket? = some t → ∃ n, t.id = orderId s t.side n)
      (P := fun _ _ => True) (fun _ _ _ _ => trivial)
      (fun c i _ _ => named_of_issue (orderId s) c i) trivial
      (Machine.along_of_forall _ (fun _ _ => trivial) Control.init
        (bot.labels input (SymbolData.init s) es))
    obtain ⟨n, hn⟩ := hnamed a ha _ hticket
    exact ⟨_, n, hn⟩

/-- The script's orders in the name of a symbol are the symbol's. -/
theorem own_issued {symbols : List String} (hs : s ∈ symbols) (ms : List (Message F)) :
    ∀ o ∈ issued ((strategy.emitted (Script.init symbols) ms).filter (Call.inNameOf s)),
      OwnOrder s o := by
  have hd : (Script.init symbols : Script F).symbolData s = some (SymbolData.init s) := if_pos hs
  intro o ho
  rw [(runs_alone (named_initScript symbols) hd ms).2] at ho
  refine own_ordersOf s (inbox (Script.init symbols) ms s) o ?_
  exact (List.filter_sublist.filterMap _).subset ho

omit [Runtime F] in
/-- An id has a separator if the symbol has one. -/
theorem separator_mem_orderId (s : String) (i : Fin 2) (n : ℕ) :
    '&' ∈ (orderId s i n).toList ↔ '&' ∈ s.toList := by
  have hn : '&' ∉ (toString n).toList := Text.not_mem_toString_nat (by decide) n
  have hsell : '&' ∉ "_to_USDT_".toList := by decide
  have hbuy : '&' ∉ "order_USDT_to_".toList := by decide
  have horder : '&' ∉ "order_".toList := by decide
  have hline : '&' ∉ "_".toList := by decide
  unfold orderId
  split <;> simp only [String.toList_append, List.mem_append, hn, hsell, hbuy, horder, hline, or_false,
    false_or]

omit [Runtime F] in
/-- An order of a symbol reaches the exchange as it is, unless the name of the symbol holds a
separator or a number is not finite. -/
theorem submits_own {o : Strategy.Order F} (ho : OwnOrder s o) {print : Printing F}
    (hp : print.Documented) (hmac : String → String → String) (secretKey : String)
    (recvWindow : ℤ) (timestamp : UInt64) (stopPrice : F) :
    Submits print hmac secretKey recvWindow timestamp (bncOrder stopPrice o) ↔
      '&' ∉ s.toList ∧ print.Finite o.quantity ∧ print.Finite o.price := by
  obtain ⟨hkind, i, n, hid⟩ := ho
  have hsymbol : o.symbol = s ++ "USDT" := congrArg OrderKind.symbol hkind
  have htype : o.type = .LIMIT := congrArg OrderKind.type hkind
  have husdt : '&' ∉ "USDT".toList := by decide
  have hsurvives := survives_orderTexts hp hmac secretKey recvWindow timestamp (bncOrder stopPrice o)
  have hseparated : '&' ∉ (bncOrder stopPrice o).symbol.toList ∧
      '&' ∉ (bncOrder stopPrice o).newClientOrderId.toList ↔ '&' ∉ s.toList := by
    simp only [bncOrder, hsymbol, hid, separator_mem_orderId, String.toList_append, List.mem_append,
      husdt, or_false, and_self]
  have hlimit : (bncOrder stopPrice o).type = .LIMIT := congrArg bncType htype
  -- The stop price is no field of a limit order.
  have hfinite : (bncOrder stopPrice o).Finite print ↔
      print.Finite o.price ∧ print.Finite o.quantity := by
    rw [BncOrder.Finite, hlimit]
    simp [createOrderFields, BncOrder.number, bncOrder]
  constructor
  · intro h
    obtain ⟨hprice, hquantity⟩ := hfinite.mp h.finite
    exact ⟨hseparated.mp (hsurvives.mp h.survives), hquantity, hprice⟩
  · rintro ⟨hname, hquantity, hprice⟩
    exact submits_of_survives hp (hsurvives.mpr (hseparated.mpr hname))
      (hfinite.mpr ⟨hprice, hquantity⟩) (by simp [hlimit]) (by simp [hlimit])

/-- In every run of the script, an order in the name of a symbol reaches the exchange as it is, its
numbers to eight digits behind the point, if and only if the name of the symbol holds no separator
and the quantity and the price of the order are finite. -/
theorem script_orders_arrive {symbols : List String} (hs : s ∈ symbols) {print : Printing F}
    (hp : print.Documented) (ms : List (Message F)) (hmac : String → String → String)
    (secretKey : String) (recvWindow : ℤ) (timestamp : UInt64) (stopPrice : F) :
    ∀ o ∈ issued ((strategy.emitted (Script.init symbols) ms).filter (Call.inNameOf s)),
      (Submits print hmac secretKey recvWindow timestamp (bncOrder stopPrice o) ↔
        '&' ∉ s.toList ∧ print.Finite o.quantity ∧ print.Finite o.price) := fun o ho =>
  submits_own (own_issued hs ms o ho) hp hmac secretKey recvWindow timestamp stopPrice

theorem issued_purchase : (issued ((strategy.emitted (Script.init ["ETH", "BTC"]) purchase).filter
    (Call.inNameOf "BTC"))).map (fun o => (o.newClientOrderId, o.quantity, o.price)) =
      [("order_USDT_to_BTC_0", 1, 10)] := by
  decide +kernel

/-- The order of the purchase. -/
theorem exists_issued_purchase :
    ∃ o ∈ issued ((strategy.emitted (Script.init ["ETH", "BTC"]) purchase).filter
        (Call.inNameOf "BTC")),
      o.newClientOrderId = "order_USDT_to_BTC_0" ∧ o.quantity = 1 ∧ o.price = 10 := by
  obtain ⟨o, ho, heq⟩ := List.mem_map.mp (issued_purchase.symm ▸ List.mem_singleton.mpr rfl)
  simp only [Prod.mk.injEq] at heq
  exact ⟨o, ho, heq⟩

/-- The order of the purchase arrives: one bitcoin at ten. -/
theorem script_orders_arrive_purchase :
    ∃ o ∈ issued ((strategy.emitted (Script.init ["ETH", "BTC"]) purchase).filter
        (Call.inNameOf "BTC")),
      BotTrader.Order.decimals.fixed o.quantity = "1.00000000" ∧
        BotTrader.Order.decimals.fixed o.price = "10.00000000" ∧
        Submits BotTrader.Order.decimals (fun _ _ => "5F3A") "key" 5000 1605556800000
          (bncOrder 0 o) := by
  obtain ⟨o, ho, hid, hquantity, hprice⟩ := exists_issued_purchase
  refine ⟨o, ho, ?_, ?_, ?_⟩
  · rw [hquantity]
    decide +kernel
  · rw [hprice]
    decide +kernel
  · exact (script_orders_arrive (by decide) BotTrader.Order.documented_decimals purchase _ _ _ _ _ o
      ho).mpr ⟨by decide, ⟨_, rfl⟩, ⟨_, rfl⟩⟩

/-! ### From the exchange to the script -/

/-- The answer to the request of an order, with the fields that are read of it. -/
structure AnswersOrder (o : Strategy.Order F) (status : String) (tree : Ptree) : Prop where
  symbol : tree.get "symbol" = .ok o.symbol
  status : tree.get "status" = .ok status
  clientOrderId : tree.get "clientOrderId" = .ok o.newClientOrderId
  timeInForce : ∃ text, tree.get "timeInForce" = .ok text
  side : ∃ text, tree.get "side" = .ok text
  type : ∃ text, tree.get "type" = .ok text

/-- What the script is told of the events of the exchange that are reports. -/
def reports (os : List Binance.Out) : List (Message F) := os.filterMap fun
  | .orderReport data => message? (.inr (.orderReport (some data.writeJson)))
  | _ => none

omit [Runtime F] in
/-- The report names the pair, the order and the status of the answer. -/
theorem reports_of_answer {o : Strategy.Order F} {status : String} {tree : Ptree}
    (h : AnswersOrder o status tree) (cfg : Config) (b : Binance.State) {resp : Response}
    (hs : resp.status = 200) (hb : resp.body = some tree) :
    ∃ (j : Json F) (f side type : String),
      reports ((httpDataHandler cfg createOrder resp).run b).calls = [.orderReport (some j)] ∧
        j.loads = .obj (httpReport o.symbol status o.newClientOrderId f side type) := by
  obtain ⟨f, hf⟩ := h.timeInForce
  obtain ⟨side, hside⟩ := h.side
  obtain ⟨type, htype⟩ := h.type
  let kvs := [("e", "executionReport"), ("s", o.symbol), ("X", status), ("c", o.newClientOrderId),
    ("f", f), ("S", side), ("o", type)]
  have hempty : Ptree.empty = BotTrader.Order.texts [] := rfl
  have hreport : orderReport tree = .ok (BotTrader.Order.texts kvs) := by
    simp [orderReport, h.symbol, h.status, h.clientOrderId, hf, hside, htype, hempty,
      BotTrader.Order.put_texts, kvs, bind, Except.bind, pure, Except.pure]
  have hroute : route createOrder.target = .order := by decide
  have hcalls : ((httpDataHandler cfg createOrder resp).run b).calls =
      [.orderReport (BotTrader.Order.texts kvs)] := by
    simp [httpDataHandler, hb, hs, hroute, hreport, run_bind]
  refine ⟨(BotTrader.Order.texts kvs).writeJson, f, side, type, ?_, rfl⟩
  rw [hcalls]
  rfl

/-- A confirmation brings a symbol that waits for it to the wait for the fill. -/
theorem fsm_of_confirmed {d : SymbolData F} {r : Dict F} (hf : d.fsm = .WAIT_ORDER_CMPL)
    (hc : textAt r "c" = some d.currentOrder.newClientOrderId) (hx : textAt r "X" = some "NEW") :
    (bot.next d (.orderReport r)).fsm = .WAIT_ORDER_FILL := by
  have hbare : bare (bot.next d (.orderReport r)) = bare (d.setState .WAIT_ORDER_FILL) :=
    (quietly_confirmed hf hc hx).1
  have hfsm := congrArg SymbolData.fsm hbare
  rw [bare_fsm, bare_fsm] at hfsm
  simp [hfsm, SymbolData.setState, hf]

/-- The answer of the exchange to an order of the script reaches the symbol that placed the order,
and no other; a confirmation of the order that the symbol waits for is taken as such. -/
theorem answer_reaches_symbol {symbols : List String} (hs : s ∈ symbols)
    (hu : contains s "USDT" = false) (ms : List (Message F)) :
    let t := strategy.run (Script.init symbols) ms
    ∀ o ∈ issued ((strategy.emitted (Script.init symbols) ms).filter (Call.inNameOf s)),
      ∀ cfg b resp tree status, resp.status = 200 → resp.body = some tree →
        AnswersOrder o status tree →
        ∃ f side type, let r := httpReport o.symbol status o.newClientOrderId f side type
          (∀ x, (strategy.run t (reports ((httpDataHandler cfg createOrder resp).run b).calls)
            ).symbolData x = if x = s then (t.symbolData s).map fun d => bot.next d (.orderReport r)
              else t.symbolData x) ∧
          ∀ d, t.symbolData s = some d → d.fsm = .WAIT_ORDER_CMPL →
            d.currentOrder.newClientOrderId = o.newClientOrderId → status = "NEW" →
              (bot.next d (.orderReport r)).fsm = .WAIT_ORDER_FILL := by
  intro t o ho cfg b resp tree status hstatus hbody ha
  obtain ⟨j, f, side, type, hreports, hj⟩ := reports_of_answer ha cfg b hstatus hbody
  have hsymbol : o.symbol = s ++ "USDT" :=
    congrArg OrderKind.symbol (own_issued hs ms o ho).kind
  refine ⟨f, side, type, fun x => ?_, fun d _ hf hcurrent hnew => ?_⟩
  · have hpair : Dict.item (httpReport o.symbol status o.newClientOrderId f side type : Dict F) "s" =
        .ok (.str o.symbol) := rfl
    have hstate := state_onOrderReport (t := t) hj hpair x
    rw [hsymbol, remove_append hu, ← hsymbol] at hstate
    rw [hreports, Machine.run_cons, Machine.run_nil]
    refine hstate.trans ?_
    split
    · next hxs => rw [hxs]
    · rfl
  · subst hnew
    exact fsm_of_confirmed hf (congrArg some hcurrent.symm) rfl

/-- The answer to the order of a purchase. -/
def accepted : Ptree := BotTrader.Order.texts [("symbol", "BTCUSDT"), ("orderId", "28"),
  ("clientOrderId", "order_USDT_to_BTC_0"), ("price", "10.00000000"), ("status", "NEW"),
  ("timeInForce", "GTC"), ("type", "LIMIT"), ("side", "BUY")]

theorem waits_purchase :
    ((strategy.run (Script.init ["ETH", "BTC"]) purchase).symbolData "BTC").map
      (fun d => (d.fsm, d.currentOrder.newClientOrderId)) =
        some (.WAIT_ORDER_CMPL, "order_USDT_to_BTC_0") := by
  decide +kernel

/-- The purchase is confirmed, and the other symbol stays as it is. -/
theorem answer_reaches_symbol_purchase :
    let t := strategy.run (Script.init ["ETH", "BTC"]) purchase
    let t' := strategy.run t (reports ((httpDataHandler keyless createOrder
      { body := some accepted }).run Binance.init).calls)
    (t'.symbolData "BTC").map SymbolData.fsm = some .WAIT_ORDER_FILL ∧
      t'.symbolData "ETH" = t.symbolData "ETH" := by
  intro t t'
  obtain ⟨o, ho, hid, -, -⟩ := exists_issued_purchase
  have hsymbol : o.symbol = "BTCUSDT" :=
    congrArg OrderKind.symbol (own_issued (by decide) purchase o ho).kind
  have ha : AnswersOrder o "NEW" accepted := by
    constructor
    case symbol => exact congrArg Except.ok hsymbol.symm
    case status => rfl
    case clientOrderId => exact congrArg Except.ok hid.symm
    case timeInForce => exact ⟨"GTC", rfl⟩
    case side => exact ⟨"BUY", rfl⟩
    case type => exact ⟨"LIMIT", rfl⟩
  obtain ⟨f, side, type, hstate, hconfirmed⟩ := answer_reaches_symbol (s := "BTC") (by decide)
    (by decide) purchase o ho keyless Binance.init { body := some accepted } accepted "NEW" rfl rfl ha
  obtain ⟨d, hd, hwaits⟩ := Option.map_eq_some_iff.mp waits_purchase
  obtain ⟨hf, hcurrent⟩ := Prod.mk.inj hwaits
  constructor
  · rw [hstate "BTC", if_pos rfl, hd]
    exact congrArg some (hconfirmed d hd hf (hcurrent.trans hid.symm) rfl)
  · exact (hstate "ETH").trans (if_neg (by decide))

end BotTrader.Application
