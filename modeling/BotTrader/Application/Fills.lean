import BotTrader.Application.Orders
import BotTrader.Binance.UserMessages
import BotTrader.Strategy.Requests

/-! The way of an execution report from the user stream to the symbol whose order it is about. What
Python reads of the report is what the exchange wrote, as long as no key is there twice: of two
values the trees keep the first and Python the last. A report that cannot be printed ends the
process, and one with an error code is looked at before the script is told of it. -/

namespace BotTrader.Application

open Automata Handler Boost Https Binance Python Strategy Control

variable {F : Type}

/-! ### From a tree to a dictionary -/

theorem lookup_loadsMembers {items : List (String × Json F)} (h : (items.map Prod.fst).Nodup)
    (d : Dict F) (key : String) : (Json.loadsMembers d items).lookup key =
      ((items.lookup key).map Json.loads).or (d.lookup key) := by
  induction items generalizing d with
  | nil => rfl
  | cons item items ih =>
    obtain ⟨k, j⟩ := item
    rw [List.map_cons, List.nodup_cons] at h
    rw [Json.loadsMembers, ih h.2, lookup_cons_eq]
    by_cases hk : key = k
    · subst hk
      have hn : items.lookup key = none := by
        rw [List.lookup_eq_none_iff]
        intro item hitem
        simpa using fun he => h.1 (List.mem_map.mpr ⟨item, hitem, he.symm⟩)
      rw [hn, if_pos rfl, lookup_set_self]
      rfl
    · rw [if_neg hk, lookup_set_of_ne hk]

theorem map_fst_members (cs : List (String × Ptree)) :
    (Ptree.members cs : List (String × Json F)).map Prod.fst = cs.map Prod.fst := by
  induction cs with
  | nil => rfl
  | cons c cs ih => rw [Ptree.members, List.map_cons, List.map_cons, ih]

theorem lookup_members (cs : List (String × Ptree)) (key : String) :
    (Ptree.members cs : List (String × Json F)).lookup key = (cs.lookup key).map Ptree.toJson := by
  induction cs with
  | nil => rfl
  | cons c cs ih =>
    obtain ⟨k, c⟩ := c
    rw [Ptree.members, lookup_cons_eq, lookup_cons_eq, ih]
    split <;> rfl

/-- The dictionary that `json.loads` makes of a tree. -/
def dictOf (it : Ptree) : Dict F := Json.loadsMembers [] (Ptree.members it.children)

theorem loads_writeJson (it : Ptree) : (it.writeJson : Json F).loads = .obj (dictOf it) := rfl

/-- A text that can be read of the tree is in the dictionary, if it is not empty. -/
theorem textAt_dictOf {it : Ptree} (h : (it.children.map Prod.fst).Nodup) {key text : String}
    (hne : text ≠ "") (ht : it.get key = .ok text) :
    textAt (dictOf it : Dict F) key = some text := by
  obtain ⟨c, hc, hdata⟩ := Ptree.get_ok_iff.mp ht
  have hlookup : (dictOf it : Dict F).lookup key = some c.toJson.loads := by
    rw [dictOf, lookup_loadsMembers (by rw [map_fst_members]; exact h), lookup_members]
    rw [Ptree.child?] at hc
    rw [hc]
    rfl
  have hleaf : c = .leaf text := by
    cases c with
    | leaf s => exact congrArg Ptree.leaf hdata
    | node cs => exact absurd hdata.symm hne
  rw [textAt, hlookup, hleaf]
  rfl

/-! ### To the symbol -/

/-- A message of the user stream that reports on an order, and on no error. -/
structure ReportsOn (o : Strategy.Order F) (it : Ptree) : Prop where
  keys : (it.children.map Prod.fst).Nodup
  accepted : it.child? "code" = none
  event : it.get "e" = .ok "executionReport"
  symbol : it.get "s" = .ok o.symbol
  clientOrderId : it.get "c" = .ok o.newClientOrderId

/-- What the script is told of a message of the user stream that is a report; the exception of a
handler that does not return ends the process before. -/
def told (r : Outcome Unit UserOut Boost.Exc Unit) : List (Message F) :=
  if r.error.isNone then
    (r.calls.filterMap UserOut.report?).filterMap fun data =>
      message? (.inr (.orderReport (some data.writeJson)))
  else []

theorem message?_report {it : Ptree} (h : it.child? "code" = none) :
    message? (.inr (.orderReport (some (it.writeJson : Json F)))) =
      some (.orderReport (some it.writeJson)) := by
  have hcode : (Ptree.members it.children : List (String × Json F)).lookup "code" = none := by
    rw [lookup_members, show it.children.lookup "code" = none from h]
    rfl
  have hexplained : unexplained (it.writeJson : Json F) = false := by
    simp [unexplained, Ptree.writeJson, hcode]
  simp [message?, hexplained]

variable [Runtime F] {s : String}

/-- A fill of the order that a symbol waits for is taken if and only if its commission can be read
and taken off. -/
theorem fsm_of_filled {d : SymbolData F} {r : Dict F} (hf : d.fsm = .WAIT_ORDER_FILL)
    (hc : textAt r "c" = some d.currentOrder.newClientOrderId)
    (hx : textAt r "X" = some "FILLED") :
    (bot.next d (.orderReport r)).fsm = .WAIT_PRICE ↔ settles r d.stepSize = true := by
  have hrun := run_report (r := r) hf
  constructor
  · intro hnext
    by_contra hs
    obtain ⟨x, hx'⟩ := settle_of_not_settles (d := (d.reported r).filled) (r := r)
      (Bool.eq_false_iff.mpr hs)
    obtain ⟨q, hq⟩ := raises_fsmWaitOrderFill (d := d.reported r) rfl hc hx hx'
    have hstate : bot.next d (.orderReport r) = (d.reported r).filled.setQuantity 0 q :=
      (congrArg Outcome.state hrun).trans hq.leaves.1
    rw [hstate] at hnext
    have hfill : ((d.reported r).filled.setQuantity 0 q).fsm = d.fsm := rfl
    rw [hfill, hf] at hnext
    cases hnext
  · intro hs
    obtain ⟨d', hd', q, hq⟩ := settle_of_settles (d := (d.reported r).filled) (r := r) hs
    have hwait : d'.fsm = .WAIT_ORDER_FILL := (congrArg SymbolData.fsm hq).trans hf
    have hl := (returns_fsmWaitOrderFill (d := d.reported r) rfl hc hx hd').leaves
    have hstate : bot.next d (.orderReport r) = d'.reopened :=
      (congrArg Outcome.state hrun).trans hl.1
    rw [hstate]
    simp [hwait]

/-- A report of the user stream on an order of the script reaches the symbol that placed the order,
with every text that is in it, and no other symbol, if its handler returns; and the fill that the
symbol waits for is taken if and only if its commission can be read and taken off. -/
theorem fill_reaches_symbol {symbols : List String} (hs : s ∈ symbols)
    (hu : contains s "USDT" = false) (ms : List (Message F)) :
    let t := strategy.run (Script.init symbols) ms
    ∀ o ∈ issued ((strategy.emitted (Script.init symbols) ms).filter (Call.inNameOf s)),
      ∀ intf print data it, data.bind (·.child? "data") = some it → ReportsOn o it →
        ((wssUserHandler intf print data).run ()).error = none →
        ∃ r : Dict F, (∀ key text, text ≠ "" → it.get key = .ok text → textAt r key = some text) ∧
          (∀ x, (strategy.run t (told ((wssUserHandler intf print data).run ()))).symbolData x =
            if x = s then (t.symbolData s).map fun d => bot.next d (.orderReport r)
              else t.symbolData x) ∧
          ∀ d, t.symbolData s = some d → d.fsm = .WAIT_ORDER_FILL →
            d.currentOrder.newClientOrderId = o.newClientOrderId → it.get "X" = .ok "FILLED" →
              ((bot.next d (.orderReport r)).fsm = .WAIT_PRICE ↔ settles r d.stepSize = true) := by
  intro t o ho intf print data it hdata hit hreturns
  obtain ⟨hkind, i, n, hid⟩ := own_issued hs ms o ho
  have hsymbol : o.symbol = s ++ "USDT" := congrArg OrderKind.symbol hkind
  have htext (key text : String) (hne : text ≠ "") (ht : it.get key = .ok text) :
      textAt (dictOf it : Dict F) key = some text := textAt_dictOf hit.keys hne ht
  have hcalls : told ((wssUserHandler intf print data).run ()) =
      [Message.orderReport (some (it.writeJson : Json F))] := by
    rw [told, hreturns, reports_wssUserHandler hdata, if_pos hit.event]
    simp [message?_report hit.accepted]
  refine ⟨dictOf it, htext, fun x => ?_, fun d _ hf hcurrent hfilled => ?_⟩
  · have hne : o.symbol ≠ "" := by
      rw [hsymbol]
      intro h
      simpa using congrArg String.toList h
    have hpair := textAt_eq_some.mp (htext "s" o.symbol hne hit.symbol)
    have hstate := state_onOrderReport (t := t) (loads_writeJson it) hpair x
    rw [hsymbol, remove_append hu] at hstate
    rw [hcalls, Machine.run_cons, Machine.run_nil]
    refine hstate.trans ?_
    split
    · next hxs => rw [hxs]
    · rfl
  · have hne : o.newClientOrderId ≠ "" := by
      rw [hid]
      intro h
      unfold orderId at h
      split at h <;> simpa using congrArg String.toList h
    exact fsm_of_filled hf (hcurrent ▸ htext "c" _ hne hit.clientOrderId)
      (htext "X" "FILLED" (by decide) hfilled)

/-- A purchase that is confirmed. -/
def purchased : List (Message ℚ) := purchase ++ [.orderReport (some (.obj newReport))]

theorem waits_purchased :
    ((strategy.run (Script.init ["ETH", "BTC"]) purchased).symbolData "BTC").map
      (fun d => (d.fsm, d.currentOrder.newClientOrderId)) =
        some (.WAIT_ORDER_FILL, "order_USDT_to_BTC_0") := by
  decide +kernel

theorem issued_purchased : (issued ((strategy.emitted (Script.init ["ETH", "BTC"]) purchased).filter
    (Call.inNameOf "BTC"))).map Order.newClientOrderId = ["order_USDT_to_BTC_0"] := by
  decide +kernel

/-- The report that the order of the purchase was filled. -/
def executed : Ptree := BotTrader.Order.texts [("e", "executionReport"), ("s", "BTCUSDT"),
  ("c", "order_USDT_to_BTC_0"), ("S", "BUY"), ("o", "LIMIT"), ("f", "GTC"), ("q", "1.00000000"),
  ("p", "10.00000000"), ("P", "0.00000000"), ("F", "0.00000000"), ("X", "FILLED"),
  ("n", "0.00100000"), ("N", "BNB")]

/-- The purchase is filled, and the symbol waits for the price of the sale; the other symbol stays
as it is. -/
theorem fill_reaches_symbol_purchased :
    let print : Printer := ⟨(·.getD "0.000000"), (·.getD "0")⟩
    let t := strategy.run (Script.init ["ETH", "BTC"]) purchased
    let t' := strategy.run t (told ((wssUserHandler .IntfWeb print
      (some (.node [("data", executed)]))).run ()))
    (t'.symbolData "BTC").map SymbolData.fsm = some .WAIT_PRICE ∧
      t'.symbolData "ETH" = t.symbolData "ETH" := by
  intro print t t'
  obtain ⟨o, ho, hid⟩ := List.mem_map.mp (issued_purchased.symm ▸ List.mem_singleton.mpr rfl)
  have hsymbol : o.symbol = "BTCUSDT" :=
    congrArg OrderKind.symbol (own_issued (by decide) purchased o ho).kind
  have hit : ReportsOn o executed := by
    constructor
    case keys => decide
    case accepted => rfl
    case event => rfl
    case symbol => exact congrArg Except.ok hsymbol.symm
    case clientOrderId => exact congrArg Except.ok hid.symm
  have hreturns : ((wssUserHandler .IntfWeb print (some (.node [("data", executed)]))).run ()).error =
      none := by decide +kernel
  obtain ⟨r, htext, hstate, hfill⟩ := fill_reaches_symbol (s := "BTC") (by decide) (by decide)
    purchased o ho .IntfWeb print (some (.node [("data", executed)])) executed rfl hit hreturns
  obtain ⟨d, hd, hwaits⟩ := Option.map_eq_some_iff.mp waits_purchased
  obtain ⟨hf, hcurrent⟩ := Prod.ext_iff.mp hwaits
  have hset : settles r d.stepSize = true := by
    rw [settles_iff]
    refine ⟨.str "BNB", .str "0.00100000", ?_, ?_, .inl rfl⟩
    · exact textAt_eq_some.mp (htext "N" "BNB" (by decide) rfl)
    · exact textAt_eq_some.mp (htext "n" "0.00100000" (by decide) rfl)
  have hnext := (hfill d hd hf (hcurrent.trans hid.symm) rfl).mpr hset
  constructor
  · rw [hstate "BTC", if_pos rfl, hd]
    exact congrArg some hnext
  · exact (hstate "ETH").trans (if_neg (by decide))

end BotTrader.Application
