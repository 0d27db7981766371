import BotTrader.Strategy.HandlerSpecs

/-! What each event does to a symbol. Exchange information and staged data only
touch fields that no running trade reads; the other events amount to a pure
update of the symbol followed by the handler of its state. -/

namespace BotTrader.Strategy

open Automata Handler Python Control

variable {F : Type}

/-! ### Exchange information and staged data -/

/-- The part of a symbol that its trade runs on, the FSM state apart. -/
def SymbolData.trade (d : SymbolData F) :=
  (d.step, d.orders, d.waitOrderFill, d.waitPrice, d.running, d.changeMode, d.counter, d.symbol,
    d.price)

/-- The trade of a symbol is untouched, except that an idle symbol may get ready;
its step size stays in `Q`. -/
structure Restaged (Q : F → Prop) (d d' : SymbolData F) : Prop where
  trade : d'.trade = d.trade
  fsm : d'.fsm = d.fsm ∨ d.running = false ∧ d'.fsm = .READY
  stepSize : Q d.stepSize → Q d'.stepSize

variable {Q : F → Prop}

theorem restaged_refl (d : SymbolData F) : Restaged Q d d := ⟨rfl, .inl rfl, id⟩

theorem Restaged.running {d d' : SymbolData F} (h : Restaged Q d d') : d'.running = d.running :=
  congrArg (fun t => t.2.2.2.2.1) h.trade

theorem restaged_trans {d d' d'' : SymbolData F} (h : Restaged Q d d') (h' : Restaged Q d' d'') :
    Restaged Q d d'' where
  trade := h'.trade.trans h.trade
  fsm := by
    rcases h'.fsm with hf | ⟨hr, hf⟩
    · rw [hf]
      exact h.fsm
    · exact .inr ⟨h.running ▸ hr, hf⟩
  stepSize := h'.stepSize ∘ h.stepSize

/-- From `d` the handler restages at most, and shows nothing to the exchange. -/
abbrev Stages {α : Type} (Q : F → Prop) (h : Py F α) (d : SymbolData F) : Prop :=
  h.Keeps (Restaged Q) (fun o => o.act? = none) d

theorem stages_update {u : SymbolData F → SymbolData F} {d : SymbolData F}
    (h : (u d).trade = d.trade) (hf : (u d).fsm = d.fsm) (hz : (u d).stepSize = d.stepSize) :
    Stages Q (update u) d :=
  keeps_update ⟨h, .inl hf, fun hq => by rwa [hz]⟩

variable [Runtime F]

/-- The step sizes of a filter list are in `Q`. -/
def StepSizes (Q : F → Prop) (info : Dict F) : Prop :=
  ∀ filters items f x, info.item "filters" = .ok filters → filters.iter = .ok items → f ∈ items →
    (do (← f.item "stepSize").toFloat : Except Exc F) = .ok x → Q x

theorem stages_onFilter {filter : Json F} (d : SymbolData F)
    (hq : ∀ x, (do (← filter.item "stepSize").toFloat : Except Exc F) = .ok x → Q x) :
    Stages Q (onFilter filter) d := by
  unfold onFilter
  refine keeps_attempt_bind restaged_refl fun type _ => ?_
  split
  · exact keeps_attempt_bind restaged_refl fun x _ => stages_update rfl rfl rfl
  split
  · refine keeps_attempt_bind restaged_refl fun x hx => keeps_update ⟨rfl, .inl rfl, ?_⟩
    exact fun _ => hq x hx
  split
  · refine keeps_attempt_bind restaged_refl fun x _ => ?_
    refine (stages_update rfl rfl rfl).bind restaged_trans fun _ d' _ => ?_
    exact keeps_attempt_bind restaged_refl fun y _ => stages_update rfl rfl rfl
  split
  · exact keeps_attempt_bind restaged_refl fun x _ => stages_update rfl rfl rfl
  · exact keeps_pure restaged_refl _

theorem stages_onExchangeInfo {info : Dict F} (hq : StepSizes Q info) (d : SymbolData F) :
    Stages Q (onExchangeInfo info) d := by
  unfold onExchangeInfo
  refine keeps_attempt_bind restaged_refl fun n _ => ?_
  refine (stages_update rfl rfl rfl).bind restaged_trans fun _ d' _ => ?_
  refine keeps_attempt_bind restaged_refl fun m _ => ?_
  refine (stages_update rfl rfl rfl).bind restaged_trans fun _ d'' _ => ?_
  refine keeps_attempt_bind restaged_refl fun items hi => ?_
  refine keeps_forM restaged_refl restaged_trans items (fun f hf d => stages_onFilter d ?_) d''
  rcases hl : info.item "filters" with x | filters
  · simp [hl] at hi
  · exact fun x hx => hq filters items f x hl (by simpa [hl] using hi) hf hx

theorem stages_stageData (data : Dict F) (d : SymbolData F) : Stages Q (stageData data) d := by
  unfold stageData
  refine keeps_attempt_bind restaged_refl fun bt _ => ?_
  refine (stages_update rfl rfl rfl).bind restaged_trans fun _ d _ => ?_
  refine keeps_attempt_bind restaged_refl fun bp _ => ?_
  refine (stages_update rfl rfl rfl).bind restaged_trans fun _ d _ => ?_
  refine keeps_attempt_bind restaged_refl fun st _ => ?_
  refine (stages_update rfl rfl rfl).bind restaged_trans fun _ d _ => ?_
  refine keeps_attempt_bind restaged_refl fun sp _ => ?_
  refine (stages_update rfl rfl rfl).bind restaged_trans fun _ d _ => ?_
  exact keeps_attempt_bind restaged_refl fun q _ => stages_update rfl rfl rfl

theorem stages_markReady {d : SymbolData F} (h : d.running = false) : Stages Q markReady d := by
  by_cases hs : d.fsm = .STOP
  · have e : markReady.run d = .done () (d.setState .READY) [] := by
      simp [markReady, run_bind, fsmRun, hs]
    exact ⟨by rw [e]; exact ⟨rfl, .inl (by simp [hs]), id⟩, by simp [e]⟩
  · have e : markReady.run d =
        .done () ((d.setState .READY).banner "data" "ready" "Данные для торгов готовы") [] := by
      simp [markReady, run_bind, fsmRun, fsmReady, hs]
    exact ⟨by rw [e]; exact ⟨rfl, .inr ⟨h, by simp [hs]⟩, id⟩, by simp [e]⟩

theorem stages_onTradeData (data : Dict F) (d : SymbolData F) : Stages Q (onTradeData data) d := by
  unfold onTradeData
  have stop : ∀ d : SymbolData F, Stages Q (do
      sendTradeState
      return tradeDataReply (data.set "e" (.str "tradeData")) (← self)) d := fun d =>
    ⟨restaged_refl d, by simp [run_bind]⟩
  refine Keeps.bind restaged_trans (keeps_tryExcept restaged_trans ?_ fun _ _ =>
    keeps_pure restaged_refl _) fun reply d' _ => ?_
  · refine keeps_attempt_bind restaged_refl fun a _ => ?_
    split
    · refine (stages_stageData _ d).bind restaged_trans fun _ d' _ => ?_
      refine keeps_self_bind ?_
      split
      · next h => exact (stages_markReady h).bind restaged_trans fun _ d'' _ => stop d''
      · exact (stages_update rfl rfl rfl).bind restaged_trans fun _ d'' _ => stop d''
    · exact stop d
  · exact keeps_call restaged_refl rfl

/-! ### Running the state -/

theorem run_fsmRun (d : SymbolData F) :
    fsmRun.run d = match d.fsm with
      | .START => .raised .keyError d []
      | .READY => fsmReady.run d
      | .WAIT_PRICE => fsmWaitPrice.run d
      | .IN_PRICE => fsmInPrice.run d
      | .WAIT_ORDER_CMPL => fsmWaitOrderCompl.run d
      | .WAIT_ORDER_FILL => fsmWaitOrderFill.run d
      | .WAIT_ORDER_DEL => fsmWaitOrderDel.run d
      | .RESUME => fsmResume.run d
      | .STOP => .done () d [] := by
  simp only [fsmRun, run_bind, run_self, Outcome.after_nil]
  cases d.fsm <;> rfl

/-! ### Prices and reports -/

@[simps! -fullyApplied step orders waitOrderFill fsm waitPrice running changeMode counter symbol
  price stepSize]
def SymbolData.priced (x : F) (d : SymbolData F) : SymbolData F :=
  { d with price := x :: d.price.dropLast }

theorem run_onPrice_ok {d : SymbolData F} {price : Json F} {x : F} (h : d.price ≠ [])
    (hx : price.toFloat = .ok x) :
    (onPrice price).run d =
      if d.waitPrice then fsmRun.run (d.priced x) else .done () (d.priced x) [] := by
  cases hw : d.waitPrice <;> simp [onPrice, run_bind, h, hx, hw, SymbolData.priced]

/-- A price that is not a number has already taken the oldest one off. -/
theorem run_onPrice_error {d : SymbolData F} {price : Json F} {x : Exc} (h : d.price ≠ [])
    (hx : price.toFloat = .error x) :
    (onPrice price).run d = .raised x { d with price := d.price.dropLast } [] := by
  simp [onPrice, run_bind, h, hx]

theorem run_onPrice_nil {d : SymbolData F} (price : Json F) (h : d.price = []) :
    (onPrice price).run d = .raised .indexError d [] := by
  simp [onPrice, run_bind, h]

@[simps! -fullyApplied step orders waitOrderFill fsm waitPrice running changeMode counter symbol
  price stepSize]
def SymbolData.reported (r : Dict F) (d : SymbolData F) : SymbolData F :=
  { d with report := some r }

theorem run_onOrderReport (r : Dict F) (d : SymbolData F) :
    (onOrderReport r).run d =
      if d.fsm = .RESUME then .done () (d.reported r) [] else fsmRun.run (d.reported r) := by
  by_cases h : d.fsm = .RESUME <;> simp [onOrderReport, run_bind, h, SymbolData.reported]

/-- The handler of the state reads the report, except in `FSM_ST_RESUME`. -/
theorem run_report {r : Dict F} {d : SymbolData F} {st : FsmState} : d.fsm = st →
    (onOrderReport r).run d = match st with
      | .START => .raised .keyError (d.reported r) []
      | .READY => fsmReady.run (d.reported r)
      | .WAIT_PRICE => fsmWaitPrice.run (d.reported r)
      | .IN_PRICE => fsmInPrice.run (d.reported r)
      | .WAIT_ORDER_CMPL => fsmWaitOrderCompl.run (d.reported r)
      | .WAIT_ORDER_FILL => fsmWaitOrderFill.run (d.reported r)
      | .WAIT_ORDER_DEL => fsmWaitOrderDel.run (d.reported r)
      | .RESUME => .done () (d.reported r) []
      | .STOP => .done () (d.reported r) [] := by
  rintro rfl
  rw [run_onOrderReport]
  by_cases hs : d.fsm = .RESUME
  · rw [if_pos hs, hs]
  · rw [if_neg hs, run_fsmRun, SymbolData.reported_fsm]
    cases hd : d.fsm <;> first | rfl | exact absurd hd hs

/-! ### Commands and the timeout -/

/-- The symbol with its side and data taken over and its trade begun. -/
@[simps! -fullyApplied step orders waitOrderFill fsm waitPrice running changeMode counter symbol
  price stepSize]
def SymbolData.started (side : Json F) (d : SymbolData F) : SymbolData F :=
  ({ d.loadTradeData side with running := true, waitPrice := true }.banner "script" "start"
    ("Торги запущены. Ожидание триггера " ++ d.symbol ++ "-" ++ Runtime.str side)).setState
      .WAIT_PRICE

theorem returns_beginTrade (side : Json F) (d : SymbolData F) :
    (beginTrade side).Returns Call.act? d () (d.started side) [] := ⟨_, rfl, rfl⟩

omit [Runtime F] in
theorem returns_refuseStop (d : SymbolData F) :
    refuseStop.Returns Call.act? d () (d.banner "script" "stop" "Торги не запущены.") [] :=
  ⟨_, rfl, rfl⟩

/-- The symbol while its order is being deleted. -/
@[simps! -fullyApplied step orders waitOrderFill fsm waitPrice running changeMode counter symbol
  price stepSize]
def SymbolData.cancelling (d : SymbolData F) : SymbolData F :=
  (d.setState .WAIT_ORDER_DEL).banner "order" "wait"
    ("Ожидание удаления ордера " ++ d.currentOrder.newClientOrderId)

omit [Runtime F] in
theorem run_deleteWaitOrder {d : SymbolData F} {i : Fin 2} (h : d.waitOrderFill = some i) :
    deleteWaitOrder.run d = .done () d.cancelling [.deleteOrder (d.orders i)] := by
  simp [deleteWaitOrder, run_bind, h, SymbolData.cancelling, SymbolData.currentOrder]

omit [Runtime F] in
@[simp] theorem waitOrderAct_loadTradeData (side : Json F) (d : SymbolData F) :
    (d.loadTradeData side).waitOrderAct = d.waitOrderAct := by
  simp only [SymbolData.waitOrderAct, SymbolData.waitOrderId, SymbolData.loadTradeData]

/-- The symbol while its order is deleted to make room for new data. -/
@[simps! -fullyApplied step orders waitOrderFill fsm waitPrice running changeMode counter symbol
  price stepSize]
def SymbolData.changing (side : Json F) (d : SymbolData F) : SymbolData F :=
  { d.loadTradeData side with changeMode := true }.cancelling

theorem returns_changeTrade_delete {d : SymbolData F} {side : Json F} {i : Fin 2}
    (h : d.waitOrderFill = some i) (ha : d.waitOrderAct = true) :
    (changeTrade side).Returns Call.act? d () (d.changing side)
      [.delete (d.orders i).newClientOrderId] := by
  simp [Returns, changeTrade, run_bind, ha, run_deleteWaitOrder (i := i), h, List.filterMap_cons,
    SymbolData.changing]

theorem returns_changeTrade_load {d : SymbolData F} {side : Json F}
    (ha : d.waitOrderAct = false) :
    (changeTrade side).Returns Call.act? d ()
      ((d.loadTradeData side).banner "script" "start"
        ("Торги " ++ d.symbol ++ " запущены c новыми данными")) [] := by
  simp [Returns, changeTrade, run_bind, ha]

theorem returns_stopTrade_delete {d : SymbolData F} {i : Fin 2} (h : d.waitOrderFill = some i)
    (ha : d.waitOrderAct = true) :
    stopTrade.Returns Call.act? d () d.cancelling [.delete (d.orders i).newClientOrderId] := by
  simp [Returns, stopTrade, run_bind, ha, run_deleteWaitOrder h, List.filterMap_cons]

theorem returns_stopTrade_rest {d : SymbolData F} (ha : d.waitOrderAct = false)
    (hs : d.fsm ≠ .STOP) :
    stopTrade.Returns Call.act? d () (d.setState .RESUME).resumed [.disarm] := by
  simp [Returns, stopTrade, run_bind, run_fsmRun, ha, hs, List.filterMap_cons]

/-- What a command does, by its name and by whether the trade runs. -/
theorem run_onTradeRun {d : SymbolData F} {data : Dict F} {a side : Json F}
    (ha : data.lookup "a" = some a) (hp : data.lookup "p" = some side) :
    (onTradeRun data).run d =
      if d.running = false then
        if a.isStr "start" then (beginTrade side >>= fun _ => fsmRun).run d else refuseStop.run d
      else if a.isStr "start" then (changeTrade side).run d else stopTrade.run d := by
  cases hr : d.running <;> cases hg : a.isStr "start" <;>
    simp [onTradeRun, run_bind, Dict.item, ha, hp, hr, hg]

theorem run_onTradeRun_keyError {d : SymbolData F} {data : Dict F}
    (h : data.lookup "a" = none ∨ data.lookup "p" = none) :
    (onTradeRun data).run d = .raised .keyError d [] := by
  rcases ha : data.lookup "a" with _ | a
  · simp [onTradeRun, run_bind, Dict.item, ha]
  · have hp : data.lookup "p" = none := by simpa [ha] using h
    simp [onTradeRun, run_bind, Dict.item, ha, hp]

/-- The symbol after the confirmation timer ran out. -/
@[simps! -fullyApplied step orders waitOrderFill fsm waitPrice running changeMode counter symbol
  price stepSize]
def SymbolData.expired (d : SymbolData F) : SymbolData F :=
  (({ d with waitOrderFill := none }.banner "order" "error"
    "Нет подтвердениея ордера от Binance").setState .RESUME).resumed

theorem returns_onOrderCompleteTimeout {d : SymbolData F} (hs : d.fsm ≠ .STOP) :
    onOrderCompleteTimeout.Returns Call.act? d () d.expired [.disarm] := by
  simp [Returns, onOrderCompleteTimeout, run_bind, run_fsmRun, hs, List.filterMap_cons,
    SymbolData.expired]

end BotTrader.Strategy
