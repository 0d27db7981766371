import BotTrader.Control.Machine
import BotTrader.Strategy.Events

/-! What each FSM handler does, as one equation or one specification for each
way through it. Of the calls only those are kept that the exchange and the
confirmation timer see. -/

namespace BotTrader.Strategy

open Automata Handler Python Control

variable {F : Type}

def Side.index : Side → Fin 2
  | .BUY => 0
  | .SELL => 1

theorem index_inj {side side' : Side} : side.index = side'.index ↔ side = side' := by
  cases side <;> cases side' <;> decide

/-- What the exchange and the confirmation timer see of a call. -/
def Call.act? : Call F → Option (Act F)
  | .execOrder o => some (.issue ⟨o.newClientOrderId, o.side.index, o.price⟩)
  | .deleteOrder o => some (.delete o.newClientOrderId)
  | .startTimer _ _ => some .arm
  | .stopTimer _ => some .disarm
  | .sendToWeb _ | .toJournal _ _ | .toAlertChannel _ => none

@[simp] theorem act?_execOrder (o : Order F) :
    (Call.execOrder o).act? = some (.issue ⟨o.newClientOrderId, o.side.index, o.price⟩) := rfl

@[simp] theorem act?_deleteOrder (o : Order F) :
    (Call.deleteOrder o).act? = some (.delete o.newClientOrderId) := rfl

@[simp] theorem act?_startTimer (name : String) (n : ℕ) :
    (Call.startTimer name n : Call F).act? = some .arm := rfl

@[simp] theorem act?_stopTimer (name : String) :
    (Call.stopTimer name : Call F).act? = some .disarm := rfl

@[simp] theorem act?_sendToWeb (j : Json F) : (Call.sendToWeb j).act? = none := rfl

@[simp] theorem act?_toJournal (symbol msg : String) :
    (Call.toJournal symbol msg : Call F).act? = none := rfl

@[simp] theorem act?_toAlertChannel (msg : String) :
    (Call.toAlertChannel msg : Call F).act? = none := rfl

/-! ### Reports -/

/-- The text that a report has under a key. -/
def textAt (r : Dict F) (key : String) : Option String :=
  match r.lookup key with
  | some (.str s) => some s
  | _ => none

theorem isStr_eq_true {j : Json F} {s : String} : j.isStr s = true ↔ j = .str s := by
  cases j <;> simp [Json.isStr]

theorem textAt_eq_some {r : Dict F} {key s : String} :
    textAt r key = some s ↔ r.item key = .ok (.str s) := by
  unfold textAt Dict.item
  cases r.lookup key with
  | none => simp
  | some j => cases j <;> simp

theorem item_eq_keyError {r : Dict F} {key : String} {x : Exc} (h : r.item key = .error x) :
    x = .keyError := by
  unfold Dict.item at h
  split at h
  · cases h
  · cases h; rfl

theorem confirms_eq_true {r : Dict F} {id status : String} :
    confirms r id status = .ok true ↔ textAt r "c" = some id ∧ textAt r "X" = some status := by
  simp only [textAt_eq_some]
  unfold confirms
  rcases hc : r.item "c" with x | c
  · simp
  · rcases hx : r.item "X" with x | j <;>
      by_cases he : c.isStr id <;> simp_all [isStr_eq_true]

theorem confirms_error {r : Dict F} {id status : String} {x : Exc}
    (h : confirms r id status = .error x) : x = .keyError := by
  unfold confirms at h
  rcases hc : r.item "c" with y | c
  · simp only [hc, except_error_bind, Except.error.injEq] at h
    exact h ▸ item_eq_keyError hc
  · rcases hx : r.item "X" with y | j <;> by_cases he : c.isStr id <;> simp_all
    exact item_eq_keyError hx

@[simp] theorem run_lastReport {d : SymbolData F} {r : Dict F} (h : d.report = some r) :
    lastReport.run d = .done r d [] := by
  simp [lastReport, run_bind, h]

/-! ### Small handlers -/

@[simp] theorem run_sendTradeState (d : SymbolData F) :
    sendTradeState.run d = .done () d [.sendToWeb d.tradeState.toJson] := rfl

@[simp] theorem run_journal (msg : String) (d : SymbolData F) :
    (journal msg).run d = .done () d [.toJournal d.symbol msg] := rfl

@[simp] theorem run_stopComplTimer (d : SymbolData F) :
    stopComplTimer.run d = .done () d [.stopTimer d.complTimer] := rfl

@[simp] theorem run_forgetOrder (d : SymbolData F) :
    forgetOrder.run d = .done () { d with waitOrderFill := none } [] := rfl

/-- The symbol after `fsm_resume`. -/
@[simps! -fullyApplied step orders waitOrderFill fsm waitPrice running changeMode counter symbol
  price stepSize]
def SymbolData.resumed (d : SymbolData F) : SymbolData F :=
  { d with waitPrice := false, step := 0, running := false }.banner "script" "stop"
    ("Торги " ++ d.symbol ++ " остановлены")

@[simp] theorem run_fsmResume (d : SymbolData F) :
    fsmResume.run d = .done () d.resumed
      [.stopTimer d.complTimer, .sendToWeb d.resumed.tradeState.toJson,
        .toAlertChannel ("Торги " ++ d.symbol ++ " остановлены"),
        .toJournal d.symbol ("Торги " ++ d.symbol ++ " остановлены")] := rfl

/-! ### Confirmation and deletion -/

/-- The symbol after its order was confirmed. -/
@[simps! -fullyApplied step orders waitOrderFill fsm waitPrice running changeMode counter symbol
  price stepSize]
def SymbolData.confirmed (d : SymbolData F) : SymbolData F :=
  ({ d with report := some emptyReport }.banner "order" "wait"
    "Ордер подтвержден Binance, ожидание выполнения").setState .WAIT_ORDER_FILL

theorem returns_fsmWaitOrderCompl {d : SymbolData F} {r : Dict F} (h : d.report = some r)
    (hc : textAt r "c" = some d.currentOrder.newClientOrderId) (hx : textAt r "X" = some "NEW") :
    fsmWaitOrderCompl.Returns Call.act? d () d.confirmed [.disarm] := by
  have hr := confirms_eq_true.2 ⟨hc, hx⟩
  simp [Returns, fsmWaitOrderCompl, run_tryExcept, run_bind, h, hr, resetOrderReport,
    SymbolData.confirmed]

theorem returns_fsmWaitOrderCompl_of_ne {d : SymbolData F} {r : Dict F} (h : d.report = some r)
    (hr : ¬(textAt r "c" = some d.currentOrder.newClientOrderId ∧ textAt r "X" = some "NEW")) :
    fsmWaitOrderCompl.Returns Call.act? d () d [] := by
  rw [← confirms_eq_true] at hr
  rcases e : confirms r d.currentOrder.newClientOrderId "NEW" with x | b
  · have hx := confirms_error e
    subst hx
    simp [Returns, fsmWaitOrderCompl, run_tryExcept, run_bind, h, e]
  · have hb : b = false := by simpa [e] using hr
    subst hb
    simp [Returns, fsmWaitOrderCompl, run_tryExcept, run_bind, h, e]

/-- The symbol after the end of its order was reported. -/
@[simps! -fullyApplied step orders waitOrderFill fsm waitPrice running changeMode counter symbol
  price stepSize]
def SymbolData.canceled (d : SymbolData F) : SymbolData F :=
  { d with waitOrderFill := none }.banner "order" "stop" ("Ордер " ++ d.waitOrderId ++ " отменен")

/-- The symbol goes on waiting for a price, with the data it was changed to. -/
@[simps! -fullyApplied step orders waitOrderFill fsm waitPrice running changeMode counter symbol
  price stepSize]
def SymbolData.changed (d : SymbolData F) : SymbolData F :=
  { ({ d.canceled with waitPrice := true }.setState .WAIT_PRICE) with changeMode := false }

theorem returns_fsmWaitOrderDel_change {d : SymbolData F} {r : Dict F} (h : d.report = some r)
    (hx : textAt r "X" = some "CANCELED") (hm : d.changeMode = true) :
    fsmWaitOrderDel.Returns Call.act? d () d.changed [.disarm] := by
  have hx' := textAt_eq_some.1 hx
  simp [Returns, fsmWaitOrderDel, run_bind, h, hx', isStr_eq_true, SymbolData.changed,
    SymbolData.canceled, hm]

theorem returns_fsmWaitOrderDel_stop {d : SymbolData F} {r : Dict F} (h : d.report = some r)
    (hx : textAt r "X" = some "CANCELED") (hm : d.changeMode = false) :
    fsmWaitOrderDel.Returns Call.act? d () (d.canceled.setState .RESUME).resumed
      [.disarm, .disarm] := by
  have hx' := textAt_eq_some.1 hx
  simp [Returns, fsmWaitOrderDel, run_bind, h, hx', isStr_eq_true, SymbolData.canceled, hm,
    List.filterMap_cons]

theorem fsmWaitOrderDel_of_ne {d : SymbolData F} {r : Dict F} (h : d.report = some r)
    (hx : textAt r "X" ≠ some "CANCELED") :
    fsmWaitOrderDel.Returns Call.act? d () d [] ∨ fsmWaitOrderDel.Raises Call.act? d d [] := by
  rcases e : r.item "X" with x | j
  · right
    simp [Raises, fsmWaitOrderDel, run_bind, h, e]
  · left
    have hj : j.isStr "CANCELED" = false := by
      rw [ne_eq, textAt_eq_some, e] at hx
      rw [← Bool.not_eq_true, isStr_eq_true]
      rintro rfl
      exact hx rfl
    simp [Returns, fsmWaitOrderDel, run_bind, h, e, hj]

section Arithmetic

variable [Runtime F]

/-! ### Placing an order -/

/-- The trigger of the current step lies between the two newest prices. -/
def SymbolData.fires (d : SymbolData F) : Bool :=
  match d.isTriggerInPrice (d.trigger d.step) with
  | .ok b => b
  | .error _ => false

theorem SymbolData.fires_eq_true_iff {d : SymbolData F} :
    d.fires = true ↔ d.isTriggerInPrice (d.trigger d.step) = .ok true := by
  unfold fires
  split
  · next e => simp [e]
  · next e => simp [e]

/-- The symbol after it placed the order of its step. -/
@[simps! -fullyApplied step orders waitOrderFill fsm waitPrice running changeMode counter symbol
  price stepSize]
def SymbolData.placed (d : SymbolData F) : SymbolData F :=
  let d := d.banner "trigger" "ready"
    ("Сработал триггер " ++ d.symbol ++ "-" ++ Runtime.str (.num (d.trigger d.step)))
  let d := d.setOrder d.step
    { d.currentOrder with newClientOrderId := orderId d.symbol d.step d.counter }
  { d with waitOrderFill := some d.step }.setState .WAIT_ORDER_CMPL

/-- What the exchange sees of the order of the current step. -/
def SymbolData.ticket (d : SymbolData F) : Ticket F :=
  ⟨orderId d.symbol d.step d.counter, d.currentOrder.side.index, d.currentOrder.price⟩

theorem returns_fsmInPrice (d : SymbolData F) :
    fsmInPrice.Returns Call.act? d () d.placed [.issue d.ticket, .arm] := by
  refine ⟨_, rfl, ?_⟩
  simp [List.filterMap_cons, SymbolData.ticket, SymbolData.currentOrder]

/-- The symbol when its trigger has fired, before the order. -/
@[simps! -fullyApplied step orders waitOrderFill fsm waitPrice running changeMode counter symbol
  price stepSize]
def SymbolData.triggered (d : SymbolData F) : SymbolData F :=
  { d with waitPrice := false }.setState .IN_PRICE

/-- Only the id of the order is new. -/
theorem orders_placed (d : SymbolData F) (i : Fin 2) : d.placed.orders i =
    { d.orders i with
      newClientOrderId := if i = d.step then orderId d.symbol d.step d.counter
        else (d.orders i).newClientOrderId } := by
  by_cases h : i = d.step
  · subst h
    simp [SymbolData.currentOrder]
  · simp [h]

theorem newClientOrderId_placed (d : SymbolData F) (i : Fin 2) :
    (d.placed.orders i).newClientOrderId =
      if i = d.step then orderId d.symbol d.step d.counter else (d.orders i).newClientOrderId := by
  rw [orders_placed]

theorem price_placed (d : SymbolData F) (i : Fin 2) :
    (d.placed.orders i).price = (d.orders i).price := by
  rw [orders_placed]

theorem side_placed (d : SymbolData F) (i : Fin 2) :
    (d.placed.orders i).side = (d.orders i).side := by
  rw [orders_placed]

theorem returns_fsmWaitPrice {d : SymbolData F} (h : d.fires = true) :
    fsmWaitPrice.Returns Call.act? d () d.triggered.placed [.issue d.ticket, .arm] := by
  have e := SymbolData.fires_eq_true_iff.mp h
  obtain ⟨calls, hr, hc⟩ := returns_fsmInPrice d.triggered
  have hr' : fsmWaitPrice.run d = .done () d.triggered.placed calls := by
    simp only [fsmWaitPrice, run_bind, run_self, e, run_attempt_ok, run_update, if_true,
      SymbolData.triggered] at hr ⊢
    simp [hr]
  exact ⟨calls, hr', hc⟩

theorem returns_fsmWaitPrice_false {d : SymbolData F}
    (h : d.isTriggerInPrice (d.trigger d.step) = .ok false) :
    fsmWaitPrice.Returns Call.act? d () d [] := by
  simp [Returns, fsmWaitPrice, run_bind, h]

theorem raises_fsmWaitPrice {d : SymbolData F} {x : Exc}
    (h : d.isTriggerInPrice (d.trigger d.step) = .error x) :
    fsmWaitPrice.Raises Call.act? d d [] := by
  simp [Raises, fsmWaitPrice, run_bind, h]

theorem fsmWaitPrice_of_not_fires {d : SymbolData F} (h : d.fires = false) :
    fsmWaitPrice.Returns Call.act? d () d [] ∨ fsmWaitPrice.Raises Call.act? d d [] := by
  unfold SymbolData.fires at h
  split at h
  · next b e =>
    subst h
    exact .inl (returns_fsmWaitPrice_false e)
  · next x e => exact .inr (raises_fsmWaitPrice e)

/-! ### Fills and their commission -/

/-- The symbol after a fill, before the commission. -/
@[simps! -fullyApplied step orders waitOrderFill fsm waitPrice running changeMode counter symbol
  price stepSize]
def SymbolData.filled (d : SymbolData F) : SymbolData F :=
  { d with
    waitOrderFill := none
    tradeState := { d.tradeState with a := "ready", m := "Ордер выполнен Binance" } }.nextStep

/-- The quantity that a fill report takes off, if any. -/
def commission (r : Dict F) : Except Exc (Option F) := do
  let asset ← r.item "N"
  let n ← r.item "n"
  if asset.isStr "USDT" then
    return some (← divide (← n.toFloat) (← (← r.item "p").toFloat))
  else if asset.isStr "BNB" then
    return none
  else
    return some (← n.toFloat)

/-- Both orders get the quantity `q`. -/
@[simps -fullyApplied] def SymbolData.charged (q : F) (d : SymbolData F) : SymbolData F :=
  { d with orders := fun i => { d.orders i with quantity := q } }

/-- Both orders after a commission was taken off. -/
def SymbolData.settle (r : Dict F) (d : SymbolData F) : Except Exc (SymbolData F) := do
  match ← commission r with
  | none => return d
  | some cmsn =>
    return d.charged (← SymbolData.roundAtStep (Runtime.sub (d.orders d.step).quantity cmsn) d.stepSize)

/-- The commission of a fill report can be read and taken off. -/
def settles (r : Dict F) (stepSize : F) : Bool :=
  match commission r with
  | .ok none => true
  | .ok (some _) => (fractionLength (Runtime.fixed stepSize)).isOk
  | .error _ => false

/-- `'%f'` prints the number with a fraction, so it is finite. -/
def Printable (x : F) : Prop := (fractionLength (Runtime.fixed x)).isOk = true

/-- What a fill report must name for its commission to be taken off. -/
theorem settles_iff {r : Dict F} {stepSize : F} : settles r stepSize = true ↔
    ∃ asset n, r.item "N" = .ok asset ∧ r.item "n" = .ok n ∧
      (asset.isStr "BNB" = true ∨ Printable stepSize ∧ ∃ x, n.toFloat = .ok x ∧
        (asset.isStr "USDT" = true →
          ∃ p y, r.item "p" = .ok p ∧ p.toFloat = .ok y ∧ Runtime.isZero y = false)) := by
  unfold settles commission
  rcases r.item "N" with x | asset
  · simp
  rcases r.item "n" with x | n
  · simp
  by_cases hu : asset.isStr "USDT" = true
  · obtain rfl := isStr_eq_true.1 hu
    rcases hn : n.toFloat with x | n'
    · simp [Json.isStr, hn]
    rcases hp : r.item "p" with x | p
    · simp [Json.isStr, hn]
    rcases hq : p.toFloat with x | p'
    · simp [Json.isStr, hn, hq]
    cases hz : Runtime.isZero p' <;> simp [Json.isStr, hn, hq, divide, hz, Printable]
  · by_cases hb : asset.isStr "BNB" = true
    · simp [hu, hb]
    · rcases hn : n.toFloat with x | n' <;> simp [hu, hb, hn, Printable]

/-- Two symbols that differ in the quantities of their orders only. -/
def Requoted (d d' : SymbolData F) : Prop :=
  ∃ q : Fin 2 → F, d' = { d with orders := fun i => { d.orders i with quantity := q i } }

omit [Runtime F] in
theorem requoted_stepSize {d d' : SymbolData F} (h : Requoted d d') :
    d'.stepSize = d.stepSize := by
  obtain ⟨q, rfl⟩ := h
  rfl

theorem settle_of_settles {d : SymbolData F} {r : Dict F} (h : settles r d.stepSize = true) :
    ∃ d', d.settle r = .ok d' ∧ Requoted d d' := by
  unfold settles at h
  unfold SymbolData.settle
  split at h
  case h_1 hc => exact ⟨d, by simp [hc], fun i => (d.orders i).quantity, rfl⟩
  case h_2 cmsn hc =>
    rcases hl : fractionLength (Runtime.fixed d.stepSize) with x | n
    · simp [hl, Except.isOk, Except.toBool] at h
    · exact ⟨_, by simp [hc, SymbolData.roundAtStep, hl]; rfl, _, rfl⟩
  case h_3 => cases h

theorem settle_of_not_settles {d : SymbolData F} {r : Dict F}
    (h : settles r d.stepSize = false) : ∃ x, d.settle r = .error x := by
  unfold settles at h
  unfold SymbolData.settle
  split at h
  case h_1 => cases h
  case h_2 cmsn hc =>
    rcases hl : fractionLength (Runtime.fixed d.stepSize) with x | n
    · exact ⟨x, by simp [hc, SymbolData.roundAtStep, hl]⟩
    · simp [hl, Except.isOk, Except.toBool] at h
  case h_3 x hc => exact ⟨x, by simp [hc]⟩

omit [Runtime F] in
theorem requoted_setQuantity (d : SymbolData F) (i : Fin 2) (q : F) :
    Requoted d (d.setQuantity i q) := by
  refine ⟨fun j => if j = i then q else (d.orders j).quantity, ?_⟩
  simp only [SymbolData.setQuantity, SymbolData.setOrder]
  congr 1
  funext j
  by_cases h : j = i
  · subst h
    simp
  · simp [h]

omit [Runtime F] in
theorem setQuantity_setQuantity (d : SymbolData F) (q : F) :
    SymbolData.setQuantity 1 q (SymbolData.setQuantity 0 q d) = d.charged q := by
  simp only [SymbolData.setQuantity, SymbolData.setOrder, SymbolData.charged]
  congr 1
  exact funext (Fin.forall_fin_two.2 ⟨by simp, by simp⟩)

theorem takeCommission_ok {d : SymbolData F} {cmsn q : F} (msg : String)
    (h : SymbolData.roundAtStep (Runtime.sub (d.orders d.step).quantity cmsn) d.stepSize = .ok q) :
    (takeCommission cmsn msg).Returns Call.act? d () (d.charged q) [] := by
  rw [← setQuantity_setQuantity]
  simp [Returns, takeCommission, run_bind, SymbolData.setQuantity, sendOrdersChange, h]

theorem takeCommission_error {d : SymbolData F} {cmsn : F} (msg : String) {x : Exc}
    (h : SymbolData.roundAtStep (Runtime.sub (d.orders d.step).quantity cmsn) d.stepSize
      = .error x) :
    (takeCommission cmsn msg).Raises Call.act? d
      (d.setQuantity 0 (Runtime.sub (d.orders d.step).quantity cmsn)) [] := by
  simp [Raises, takeCommission, run_bind, SymbolData.setQuantity, h]

theorem run_payCommission (r : Dict F) (d : SymbolData F) :
    ∃ msg, (payCommission r).run d = match commission r with
      | .error x => .raised x d []
      | .ok none => .done () d []
      | .ok (some cmsn) => (takeCommission cmsn msg).run d := by
  unfold payCommission commission
  rcases hN : r.item "N" with x | asset
  · exact ⟨"", by simp [run_bind]⟩
  rcases hn : r.item "n" with x | n
  · exact ⟨"", by simp [run_bind]⟩
  by_cases hu : asset.isStr "USDT" = true
  · refine ⟨"Комиссия в USDT, количество в ордере уменьшено", ?_⟩
    rcases hf : n.toFloat with x | n'
    · simp [run_bind, hu, hf]
    rcases hp : r.item "p" with x | p
    · simp [run_bind, hu, hf]
    rcases hq : p.toFloat with x | p'
    · simp [run_bind, hu, hf, hq]
    rcases hd : divide n' p' with x | cmsn <;> simp [run_bind, hu, hf, hq, hd]
  · refine ⟨"Комиссия в " ++ Runtime.str asset ++ ", количество в ордере уменьшено", ?_⟩
    by_cases hb : asset.isStr "BNB" = true
    · simp [run_bind, hu, hb]
    · rcases hf : n.toFloat with x | n' <;> simp [run_bind, hu, hb, hf]

omit [Runtime F] in
theorem setQuantity_self (d : SymbolData F) (i : Fin 2) :
    d.setQuantity i (d.orders i).quantity = d := by
  simp [SymbolData.setQuantity, SymbolData.setOrder]

theorem returns_payCommission {d d' : SymbolData F} {r : Dict F} (h : d.settle r = .ok d') :
    (payCommission r).Returns Call.act? d () d' [] := by
  obtain ⟨msg, hm⟩ := run_payCommission r d
  unfold SymbolData.settle at h
  rcases hc : commission r with x | _ | cmsn
  · simp [hc] at h
  · simp only [hc, except_ok_bind, except_pure, Except.ok.injEq] at h hm
    subst h
    exact ⟨[], hm, rfl⟩
  · simp only [hc, except_ok_bind, except_pure] at h hm
    rcases hq : SymbolData.roundAtStep (Runtime.sub (d.orders d.step).quantity cmsn) d.stepSize
      with x | q
    · simp [hq] at h
    · simp only [hq, except_ok_bind, Except.ok.injEq] at h
      subst h
      obtain ⟨calls, hr, ha⟩ := takeCommission_ok msg hq
      exact ⟨calls, hm.trans hr, ha⟩

/-- A commission that cannot be read leaves at most the first quantity changed. -/
theorem raises_payCommission {d : SymbolData F} {r : Dict F} {x : Exc}
    (h : d.settle r = .error x) :
    ∃ q, (payCommission r).Raises Call.act? d (d.setQuantity 0 q) [] := by
  obtain ⟨msg, hm⟩ := run_payCommission r d
  unfold SymbolData.settle at h
  rcases hc : commission r with y | _ | cmsn
  · simp only [hc] at hm
    exact ⟨(d.orders 0).quantity, y, [], by rw [hm, setQuantity_self], rfl⟩
  · simp [hc] at h
  · simp only [hc, except_ok_bind, except_pure] at h hm
    rcases hq : SymbolData.roundAtStep (Runtime.sub (d.orders d.step).quantity cmsn) d.stepSize
      with y | q
    · obtain ⟨z, calls, hr, ha⟩ := takeCommission_error msg hq
      exact ⟨_, z, calls, hm.trans hr, ha⟩
    · simp [hq] at h

/-- The symbol waits for the trigger of its next side. -/
@[simps! -fullyApplied step orders waitOrderFill fsm waitPrice running changeMode counter symbol
  price stepSize]
def SymbolData.reopened (d : SymbolData F) : SymbolData F :=
  { d with waitPrice := true }.setState .WAIT_PRICE

theorem returns_fsmWaitOrderFill {d d' : SymbolData F} {r : Dict F} (h : d.report = some r)
    (hc : textAt r "c" = some d.currentOrder.newClientOrderId)
    (hx : textAt r "X" = some "FILLED") (hs : d.filled.settle r = .ok d') :
    fsmWaitOrderFill.Returns Call.act? d () d'.reopened [.disarm] := by
  have hr := confirms_eq_true.2 ⟨hc, hx⟩
  obtain ⟨calls, hp, ha⟩ := returns_payCommission hs
  simp only [SymbolData.filled, h] at hp
  simp [Returns, fsmWaitOrderFill, run_bind, h, hr, hp, SymbolData.reopened, List.filterMap_cons,
    ha]

theorem raises_fsmWaitOrderFill {d : SymbolData F} {r : Dict F} {x : Exc}
    (h : d.report = some r) (hc : textAt r "c" = some d.currentOrder.newClientOrderId)
    (hx : textAt r "X" = some "FILLED") (hs : d.filled.settle r = .error x) :
    ∃ q, fsmWaitOrderFill.Raises Call.act? d (d.filled.setQuantity 0 q) [.disarm] := by
  have hr := confirms_eq_true.2 ⟨hc, hx⟩
  obtain ⟨q, y, calls, hp, ha⟩ := raises_payCommission hs
  refine ⟨q, ?_⟩
  simp only [SymbolData.filled, h] at hp
  simp [Raises, fsmWaitOrderFill, run_bind, h, hr, hp, SymbolData.filled, List.filterMap_cons, ha]

theorem fsmWaitOrderFill_of_ne {d : SymbolData F} {r : Dict F} (h : d.report = some r)
    (hr : ¬(textAt r "c" = some d.currentOrder.newClientOrderId ∧
      textAt r "X" = some "FILLED")) :
    fsmWaitOrderFill.Returns Call.act? d () d [] ∨ fsmWaitOrderFill.Raises Call.act? d d [] := by
  rw [← confirms_eq_true] at hr
  rcases e : confirms r d.currentOrder.newClientOrderId "FILLED" with x | b
  · right
    simp [Raises, fsmWaitOrderFill, run_bind, h, e]
  · left
    have hb : b = false := by simpa [e] using hr
    subst hb
    simp [Returns, fsmWaitOrderFill, run_bind, h, e]

end Arithmetic

end BotTrader.Strategy
