import BotTrader.Strategy.EventSpecs

/-! What a symbol writes on its calls. A label is read off the kind and the quantity of an order;
the methods of a symbol keep the label of its orders, and call with this label and in the
symbol's own name. A start and a commission keep it if it does not depend on the quantity. -/

namespace BotTrader.Strategy

open Automata Handler Python

variable {F β : Type}

/-- What no method changes in an order. -/
structure OrderKind where
  symbol : String
  type : OrderType
  timeInForce : TimeInForce

def Order.kind (o : Order F) : OrderKind := ⟨o.symbol, o.type, o.timeInForce⟩

/-- The label of an order. -/
def Order.label (label : OrderKind → F → β) (o : Order F) : β := label o.kind o.quantity

/-- The symbol is `s`, and its orders have the label `v`. -/
structure Bears (label : OrderKind → F → β) (s : String) (v : β) (d : SymbolData F) : Prop where
  symbol : d.symbol = s
  orders : ∀ i, (d.orders i).label label = v

/-- The call is in the name of `s`, and its order has the label `v`. -/
def Call.Bears (label : OrderKind → F → β) (s : String) (v : β) : Call F → Prop
  | .execOrder o | .deleteOrder o => o.label label = v
  | .startTimer name _ | .stopTimer name => name = s ++ "_compl_timer"
  | .toJournal symbol _ => symbol = s
  | .sendToWeb _ | .toAlertChannel _ => True

/-- The handler keeps the label of the orders and calls with it. -/
abbrev Carries {α : Type} (label : OrderKind → F → β) (s : String) (v : β) (h : Py F α) : Prop :=
  h.Guards (Bears label s v) (Call.Bears label s v)

variable {label : OrderKind → F → β} {s : String} {v : β}

/-- An update that touches neither the name nor the labels. -/
theorem carries_update {u : SymbolData F → SymbolData F} (hs : ∀ d, (u d).symbol = d.symbol)
    (ho : ∀ d i, ((u d).orders i).label label = (d.orders i).label label) :
    Carries label s v (update u) :=
  guards_update fun d hd => ⟨(hs d).trans hd.symbol, fun i => (ho d i).trans (hd.orders i)⟩

theorem carries_update_bind {α : Type} {u : SymbolData F → SymbolData F} {h : Py F α}
    (hs : ∀ d, (u d).symbol = d.symbol)
    (ho : ∀ d i, ((u d).orders i).label label = (d.orders i).label label)
    (e : Carries label s v h) : Carries label s v (update u >>= fun _ => h) :=
  (carries_update hs ho).bind fun _ => e

theorem carries_journal (msg : String) : Carries label s v (journal msg) :=
  guards_self_bind fun _ hd => guards_call hd.symbol

theorem carries_stopComplTimer : Carries label s v stopComplTimer :=
  guards_self_bind fun _ hd => guards_call (congrArg (· ++ "_compl_timer") hd.symbol)

theorem carries_sendTradeState : Carries label s v sendTradeState :=
  guards_self_bind fun _ _ => guards_call trivial

theorem carries_banner (x a m : String) : Carries label s v (update (SymbolData.banner x a m)) :=
  carries_update (fun _ => rfl) fun _ _ => rfl

theorem carries_setState (st : FsmState) : Carries label s v (update (SymbolData.setState st)) :=
  carries_update (fun _ => rfl) fun _ _ => rfl

theorem carries_forgetOrder : Carries label s v forgetOrder :=
  carries_update (fun _ => rfl) fun _ _ => rfl

theorem carries_lastReport : Carries label s v lastReport :=
  guards_self_bind fun d _ => by
    cases d.report with
    | some r => exact guards_pure r
    | none => exact guards_raise _

/-! ### The handlers of the states -/

theorem carries_fsmReady : Carries label s v fsmReady := carries_banner _ _ _

theorem carries_fsmResume : Carries label s v fsmResume := by
  refine carries_stopComplTimer.bind fun _ => ?_
  refine Guards.bind (carries_update (fun _ => rfl) fun _ _ => rfl) fun _ => ?_
  refine carries_update_bind (fun _ => rfl) (fun _ _ => rfl) ?_
  refine guards_self_bind fun d _ => (carries_banner _ _ _).bind fun _ => ?_
  refine carries_sendTradeState.bind fun _ => ?_
  exact Guards.bind (guards_call trivial) fun _ => carries_journal _

theorem carries_fsmWaitOrderCompl : Carries label s v fsmWaitOrderCompl := by
  refine Guards.tryExcept ?_ (guards_pure ())
  refine carries_lastReport.bind fun r => guards_self_bind fun d _ => ?_
  refine (guards_attempt _).bind fun b => guards_ite (fun _ => ?_) fun _ => guards_pure ()
  refine Guards.bind (carries_update (fun _ => rfl) fun _ _ => rfl) fun _ => ?_
  refine carries_stopComplTimer.bind fun _ => (carries_banner _ _ _).bind fun _ => ?_
  refine carries_sendTradeState.bind fun _ => (carries_journal _).bind fun _ => ?_
  exact carries_setState _

theorem carries_fsmWaitOrderDel : Carries label s v fsmWaitOrderDel := by
  refine carries_lastReport.bind fun r => (guards_attempt _).bind fun x => ?_
  refine guards_ite (fun _ => guards_self_bind fun d _ => ?_) fun _ => guards_pure ()
  refine carries_stopComplTimer.bind fun _ => carries_forgetOrder.bind fun _ => ?_
  refine (carries_journal _).bind fun _ => (carries_banner _ _ _).bind fun _ => ?_
  refine carries_sendTradeState.bind fun _ => guards_self_bind fun d _ => ?_
  refine guards_ite (fun _ => ?_) fun _ => (carries_setState _).bind fun _ => carries_fsmResume
  refine carries_update_bind (fun _ => rfl) (fun _ _ => rfl) ((carries_setState _).bind fun _ => ?_)
  exact carries_update (fun _ => rfl) fun _ _ => rfl

variable [Runtime F]

theorem carries_fsmInPrice : Carries label s v fsmInPrice := by
  refine guards_self_bind fun d _ => (carries_banner _ _ _).bind fun _ => ?_
  refine carries_sendTradeState.bind fun _ => (carries_journal _).bind fun _ => ?_
  refine Guards.bind (guards_update fun d' hd' => ⟨hd'.symbol, fun i => ?_⟩) fun _ => ?_
  · simp only [SymbolData.setOrder, Function.update_apply]
    split
    · exact hd'.orders d'.step
    · exact hd'.orders i
  refine guards_self_bind fun d' hd' => Guards.bind (guards_call (hd'.orders d'.step)) fun _ => ?_
  refine carries_update_bind (fun _ => rfl) (fun _ _ => rfl) ?_
  refine Guards.bind (guards_call (congrArg (· ++ "_compl_timer") hd'.symbol)) fun _ => ?_
  exact (carries_journal _).bind fun _ => (carries_journal _).bind fun _ => carries_setState _

theorem carries_fsmWaitPrice : Carries label s v fsmWaitPrice := by
  refine guards_self_bind fun d _ => (guards_attempt _).bind fun b => ?_
  refine guards_ite (fun _ => ?_) fun _ => guards_pure ()
  refine carries_update_bind (fun _ => rfl) (fun _ _ => rfl) ?_
  exact (carries_setState _).bind fun _ => carries_fsmInPrice

/-- Running a state that no fill can be taken in. -/
theorem bears_fsmRun {d : SymbolData F} (hd : Bears label s v d) (hf : d.fsm ≠ .WAIT_ORDER_FILL) :
    Bears label s v (fsmRun.run d).state ∧ ∀ c ∈ (fsmRun.run d).calls, c.Bears label s v := by
  rw [run_fsmRun]
  cases hs : d.fsm with
  | START | STOP => exact ⟨hd, by simp⟩
  | READY => exact carries_fsmReady d hd
  | WAIT_PRICE => exact carries_fsmWaitPrice d hd
  | IN_PRICE => exact carries_fsmInPrice d hd
  | WAIT_ORDER_CMPL => exact carries_fsmWaitOrderCompl d hd
  | WAIT_ORDER_FILL => exact absurd hs hf
  | WAIT_ORDER_DEL => exact carries_fsmWaitOrderDel d hd
  | RESUME => exact carries_fsmResume d hd

theorem carries_setState_fsmRun {st : FsmState} (h : st ≠ .WAIT_ORDER_FILL) :
    Carries label s v (update (SymbolData.setState st) >>= fun _ => fsmRun) := by
  intro d hd
  rw [run_bind_done (run_update _ d), Outcome.after_nil]
  refine bears_fsmRun (carries_setState st d hd).1 ?_
  simp only [SymbolData.setState_fsm]
  split
  · decide
  · exact h

/-! ### The events -/

theorem carries_onFilter (j : Json F) : Carries label s v (onFilter j) := by
  refine (guards_attempt _).bind fun type => ?_
  split
  · exact (guards_attempt _).bind fun x => carries_update (fun _ => rfl) fun _ _ => rfl
  split
  · exact (guards_attempt _).bind fun x => carries_update (fun _ => rfl) fun _ _ => rfl
  split
  · refine (guards_attempt _).bind fun x => carries_update_bind (fun _ => rfl) (fun _ _ => rfl) ?_
    exact (guards_attempt _).bind fun x => carries_update (fun _ => rfl) fun _ _ => rfl
  split
  · exact (guards_attempt _).bind fun x => carries_update (fun _ => rfl) fun _ _ => rfl
  · exact guards_pure ()

theorem carries_onExchangeInfo (info : Dict F) : Carries label s v (onExchangeInfo info) := by
  refine (guards_attempt _).bind fun n => carries_update_bind (fun _ => rfl) (fun _ _ => rfl) ?_
  refine (guards_attempt _).bind fun m => carries_update_bind (fun _ => rfl) (fun _ _ => rfl) ?_
  exact (guards_attempt _).bind fun filters => guards_forM carries_onFilter filters

theorem carries_stageData (data : Dict F) : Carries label s v (stageData data) := by
  iterate 4
    refine (guards_attempt _).bind fun x => carries_update_bind (fun _ => rfl) (fun _ _ => rfl) ?_
  exact (guards_attempt _).bind fun x => carries_update (fun _ => rfl) fun _ _ => rfl

theorem carries_onTradeData (data : Dict F) : Carries label s v (onTradeData data) := by
  refine Guards.bind (Guards.tryExcept ?_ (guards_pure _)) fun reply => guards_call trivial
  have reply : Carries label s v (do
      sendTradeState
      return tradeDataReply (data.set "e" (.str "tradeData")) (← self)) :=
    carries_sendTradeState.bind fun _ => guards_self_bind fun d _ => guards_pure _
  refine (guards_attempt _).bind fun a => guards_ite (fun _ => ?_) fun _ => reply
  refine (carries_stageData _).bind fun _ => guards_self_bind fun d _ => ?_
  refine guards_ite (fun _ => ?_) fun _ => (carries_banner _ _ _).bind fun _ => reply
  exact (carries_setState_fsmRun (by decide)).bind fun _ => reply

omit [Runtime F] in
theorem carries_deleteWaitOrder : Carries label s v deleteWaitOrder := by
  refine guards_self_bind fun d _ => ?_
  have rest : Carries label s v (do
      update (SymbolData.setState (F := F) .WAIT_ORDER_DEL)
      update fun d => d.banner "order" "wait"
        ("Ожидание удаления ордера " ++ d.currentOrder.newClientOrderId)) :=
    (carries_setState _).bind fun _ => carries_update (fun _ => rfl) fun _ _ => rfl
  cases d.waitOrderFill with
  | none => exact (guards_pure ()).bind fun _ => rest
  | some i =>
    exact guards_self_bind fun d' hd' => Guards.bind (guards_call (hd'.orders i)) fun _ => rest

omit [Runtime F] in
theorem carries_refuseStop : Carries label s v refuseStop :=
  (carries_banner _ _ _).bind fun _ => carries_sendTradeState.bind fun _ => carries_journal _

theorem carries_stopTrade : Carries label s v stopTrade := by
  refine guards_self_bind fun d _ => Guards.bind (guards_call trivial) fun _ => ?_
  refine guards_self_bind fun d _ => guards_ite (fun _ => ?_) fun _ => ?_
  · exact carries_deleteWaitOrder.bind fun _ => carries_sendTradeState
  · exact carries_setState_fsmRun (by decide)

theorem carries_onOrderCompleteTimeout : Carries label s v onOrderCompleteTimeout := by
  refine guards_self_bind fun d _ => (carries_journal _).bind fun _ => ?_
  refine carries_forgetOrder.bind fun _ => (carries_banner _ _ _).bind fun _ => ?_
  refine carries_sendTradeState.bind fun _ => Guards.bind (guards_call trivial) fun _ => ?_
  exact carries_setState_fsmRun (by decide)

/-! ### Labels without a quantity -/

section AnyQuantity

variable (hq : ∀ kind q q', label kind q = label kind q')

include hq

omit [Runtime F] in
theorem label_setQuantity (i j : Fin 2) (q : F) (d : SymbolData F) :
    ((d.setQuantity i q).orders j).label label = (d.orders j).label label := by
  simp only [SymbolData.setQuantity, SymbolData.setOrder, Function.update_apply]
  split
  · next h =>
    rw [h]
    exact hq _ _ _
  · rfl

theorem carries_takeCommission (cmsn : F) (msg : String) :
    Carries label s v (takeCommission cmsn msg) := by
  refine carries_update_bind (fun _ => rfl) (fun d j => label_setQuantity hq 0 j _ d) ?_
  refine guards_self_bind fun d _ => (guards_attempt _).bind fun q => ?_
  refine carries_update_bind (fun _ => rfl) (fun d j => label_setQuantity hq 0 j _ d) ?_
  refine carries_update_bind (fun _ => rfl) (fun d j => label_setQuantity hq 1 j _ d) ?_
  exact guards_self_bind fun d _ => guards_call trivial

theorem carries_payCommission (r : Dict F) : Carries label s v (payCommission r) := by
  refine (guards_attempt _).bind fun asset => (guards_attempt _).bind fun n => ?_
  refine guards_ite (fun _ => ?_) fun _ => guards_ite (fun _ => ?_) fun _ => guards_pure ()
  · refine (guards_attempt _).bind fun n => (guards_attempt _).bind fun p => ?_
    exact (guards_attempt _).bind fun cmsn => carries_takeCommission hq cmsn _
  · exact (guards_attempt _).bind fun cmsn => carries_takeCommission hq cmsn _

theorem carries_fsmWaitOrderFill : Carries label s v fsmWaitOrderFill := by
  refine carries_lastReport.bind fun r => guards_self_bind fun d _ => ?_
  refine (guards_attempt _).bind fun b => guards_ite (fun _ => ?_) fun _ => guards_pure ()
  refine carries_stopComplTimer.bind fun _ => carries_forgetOrder.bind fun _ => ?_
  refine carries_update_bind (fun _ => rfl) (fun _ _ => rfl) ?_
  refine carries_sendTradeState.bind fun _ => (carries_journal _).bind fun _ => ?_
  refine carries_update_bind (fun _ => rfl) (fun _ _ => rfl) ?_
  refine (carries_payCommission hq r).bind fun _ => ?_
  exact carries_update_bind (fun _ => rfl) (fun _ _ => rfl) (carries_setState _)

theorem carries_fsmRun : Carries label s v fsmRun := by
  intro d hd
  by_cases hf : d.fsm = .WAIT_ORDER_FILL
  · rw [run_fsmRun, hf]
    exact carries_fsmWaitOrderFill hq d hd
  · exact bears_fsmRun hd hf

omit [Runtime F] in
theorem carries_loadTradeData (side : Json F) :
    Carries label s v (update (SymbolData.loadTradeData side)) :=
  carries_update (fun _ => rfl) fun _ _ => hq _ _ _

theorem carries_beginTrade (side : Json F) : Carries label s v (beginTrade side) := by
  refine guards_self_bind fun d _ => (carries_loadTradeData hq side).bind fun _ => ?_
  refine carries_update_bind (fun _ => rfl) (fun _ _ => rfl) ?_
  refine (carries_banner _ _ _).bind fun _ => carries_sendTradeState.bind fun _ => ?_
  refine Guards.bind (guards_call trivial) fun _ => (carries_journal _).bind fun _ => ?_
  exact guards_self_bind fun d _ => (carries_journal _).bind fun _ => carries_setState _

theorem carries_changeTrade (side : Json F) : Carries label s v (changeTrade side) := by
  refine guards_self_bind fun d _ => (carries_loadTradeData hq side).bind fun _ => ?_
  refine Guards.bind (guards_call trivial) fun _ => guards_self_bind fun d _ => ?_
  refine (carries_journal _).bind fun _ => guards_self_bind fun d _ => ?_
  have rest : Carries label s v (do
      journal (← self).tradeState.m
      sendTradeState : Py F Unit) :=
    guards_self_bind fun d _ => (carries_journal _).bind fun _ => carries_sendTradeState
  refine guards_ite (fun _ => ?_) fun _ => (carries_banner _ _ _).bind fun _ => rest
  refine carries_update_bind (fun _ => rfl) (fun _ _ => rfl) ?_
  exact carries_deleteWaitOrder.bind fun _ => rest

theorem carries_onTradeRun (data : Dict F) : Carries label s v (onTradeRun data) := by
  refine (guards_attempt _).bind fun a => (guards_attempt _).bind fun side => ?_
  refine guards_self_bind fun d _ => guards_ite (fun _ => guards_ite (fun _ => ?_) fun _ => ?_)
    fun _ => guards_ite (fun _ => ?_) fun _ => ?_
  · exact (carries_beginTrade hq side).bind fun _ => carries_fsmRun hq
  · exact carries_refuseStop
  · exact carries_changeTrade hq side
  · exact carries_stopTrade

theorem carries_onPrice (price : Json F) : Carries label s v (onPrice price) := by
  refine guards_self_bind fun d _ => ?_
  have rest : Carries label s v (do
      update fun d => { d with price := d.price.dropLast }
      let x ← attempt price.toFloat
      update fun d => { d with price := x :: d.price }
      if (← self).waitPrice then
        fsmRun : Py F Unit) := by
    refine carries_update_bind (fun _ => rfl) (fun _ _ => rfl) ?_
    refine (guards_attempt _).bind fun x => carries_update_bind (fun _ => rfl) (fun _ _ => rfl) ?_
    exact guards_self_bind fun d _ => guards_ite (fun _ => carries_fsmRun hq) fun _ => guards_pure ()
  refine guards_ite (fun _ => ?_) fun _ => rest
  exact (guards_raise _).bind fun _ => rest

theorem carries_onOrderReport (r : Dict F) : Carries label s v (onOrderReport r) := by
  refine carries_update_bind (fun _ => rfl) (fun _ _ => rfl) (guards_self_bind fun d _ => ?_)
  exact guards_ite (fun _ => carries_fsmRun hq) fun _ => guards_pure ()

/-- Every method keeps a label that does not depend on the quantity. -/
theorem carries_handler (e : Event F) : Carries label s v e.handler := by
  cases e with
  | exchangeInfo info => exact carries_onExchangeInfo info
  | tradeData data => exact carries_onTradeData data
  | tradeRun data => exact carries_onTradeRun hq data
  | price price => exact carries_onPrice hq price
  | orderReport r => exact carries_onOrderReport hq r
  | orderCompleteTimeout => exact carries_onOrderCompleteTimeout

end AnyQuantity

end BotTrader.Strategy
