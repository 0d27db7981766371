import BotTrader.Strategy.EventSpecs

/-! The script follows the abstract symbol. `Models` says which values of the
script's flags stand for which phase; every event keeps it, whether its handler
returns or raises, so the flags of a reachable symbol are consistent. -/

namespace BotTrader.Control

open Automata Handler Python Strategy

variable {F : Type}

/-! ### Reading a symbol as an abstract one -/

/-- The flags that a phase has in the script. -/
def Shows (d : SymbolData F) : Phase → Prop
  | .idle => (d.fsm = .START ∨ d.fsm = .READY ∨ d.fsm = .RESUME) ∧ d.running = false ∧
      d.waitPrice = false ∧ d.waitOrderFill = none ∧ d.step = 0
  | .waiting => d.fsm = .WAIT_PRICE ∧ d.running = true ∧ d.waitPrice = true ∧
      d.waitOrderFill = none
  | .confirming => d.fsm = .WAIT_ORDER_CMPL ∧ d.running = true ∧ d.waitPrice = false ∧
      d.waitOrderFill = some d.step
  | .filling => d.fsm = .WAIT_ORDER_FILL ∧ d.running = true ∧ d.waitPrice = false ∧
      d.waitOrderFill = some d.step
  | .halfFilled => d.fsm = .WAIT_ORDER_FILL ∧ d.running = true ∧ d.waitPrice = false ∧
      d.waitOrderFill = none
  | .deleting i => d.fsm = .WAIT_ORDER_DEL ∧ d.running = true ∧ d.waitPrice = false ∧
      d.waitOrderFill = some i

structure Models (symbol : String) (d : SymbolData F) (c : State F) : Prop where
  shows : Shows d c.phase
  named : ∀ i, d.waitOrderFill = some i → (d.orders i).newClientOrderId ≠ ""
  step : c.step = d.step
  counter : c.counter = d.counter
  changeMode : c.changeMode = d.changeMode
  ids : c.ids = fun i => (d.orders i).newClientOrderId
  prices : c.prices = fun i => (d.orders i).price
  sides : ∀ i, (d.orders i).side.index = i
  symbol : d.symbol = symbol

variable [Runtime F]

/-- What an event means to a symbol. -/
def input (d : SymbolData F) : Event F → Input F
  | .exchangeInfo _ | .tradeData _ => .silent
  | .tradeRun data => match data.lookup "a", data.lookup "p" with
    | some a, some side =>
      if a.isStr "start" then
        .start (d.loadTradeData side).step d.tempPrice (d.loadTradeData side).fires
      else .stop
    | _, _ => .silent
  | .price price => match d.price, price.toFloat with
    | _ :: _, .ok x => .tick (d.priced x).fires
    | _, _ => .silent
  | .orderReport r => .report (textAt r "c") (textAt r "X") d.fires (settles r d.stepSize)
  | .orderCompleteTimeout => .timeout

theorem orderId_ne_empty (symbol : String) (step : Fin 2) (n : ℕ) : orderId symbol step n ≠ "" := by
  intro h
  have hl := congrArg String.length h
  unfold orderId at hl
  split at hl <;> simp [String.length_append] at hl

/-! ### Updates of the script and of the abstract symbol -/

section Updates

variable {symbol : String} {d d' : SymbolData F} {c : State F}

omit [Runtime F] in
theorem Models.fsm_ne_stop (h : Models symbol d c) : d.fsm ≠ .STOP := by
  intro hs
  have := h.shows
  unfold Shows at this
  split at this <;> simp [hs] at this

omit [Runtime F] in
theorem models_reported (h : Models symbol d c) (r : Dict F) : Models symbol (d.reported r) c :=
  ⟨h.shows, h.named, h.step, h.counter, h.changeMode, h.ids, h.prices, h.sides, h.symbol⟩

omit [Runtime F] in
theorem models_prices (h : Models symbol d c) (price : List F) :
    Models symbol { d with price := price } c :=
  ⟨h.shows, h.named, h.step, h.counter, h.changeMode, h.ids, h.prices, h.sides, h.symbol⟩

omit [Runtime F] in
theorem models_banner (h : Models symbol d c) (x a m : String) :
    Models symbol (d.banner x a m) c :=
  ⟨h.shows, h.named, h.step, h.counter, h.changeMode, h.ids, h.prices, h.sides, h.symbol⟩

omit [Runtime F] in
theorem models_requoted (h : Models symbol d c) (hq : Requoted d d') : Models symbol d' c := by
  obtain ⟨q, rfl⟩ := hq
  exact ⟨h.shows, h.named, h.step, h.counter, h.changeMode, h.ids, h.prices, h.sides, h.symbol⟩

omit [Runtime F] in
theorem models_restaged {Q : F → Prop} (h : Models symbol d c) (hd : Restaged Q d d') :
    Models symbol d' c := by
  obtain ⟨ht, hf, -⟩ := hd
  simp only [SymbolData.trade, Prod.mk.injEq] at ht
  obtain ⟨h1, h2, h3, h4, h5, h6, h7, h8, -⟩ := ht
  refine ⟨?_, ?_, ?_, ?_, ?_, ?_, ?_, ?_, ?_⟩
  · have hs := h.shows
    unfold Shows at hs ⊢
    rcases hf with hf | ⟨hr, hf⟩
    · simpa only [h1, h3, h4, h5, hf] using hs
    · split at hs
      case h_1 => simp_all
      all_goals simp [hr] at hs
  · simpa only [h2, h3] using h.named
  · rw [h1, h.step]
  · rw [h7, h.counter]
  · rw [h6, h.changeMode]
  · rw [h2, h.ids]
  · rw [h2, h.prices]
  · rw [h2]
    exact h.sides
  · rw [h8, h.symbol]

omit [Runtime F] in
/-- A symbol at rest, however it came there. -/
theorem models_rest (h : Models symbol d c) (hf : d'.fsm = .RESUME) (hr : d'.running = false)
    (hp : d'.waitPrice = false) (ho : d'.waitOrderFill = none) (hs : d'.step = 0)
    (hn : d'.counter = d.counter) (hm : d'.changeMode = d.changeMode) (hd : d'.orders = d.orders)
    (hy : d'.symbol = d.symbol) : Models symbol d' c.rest where
  shows := ⟨.inr (.inr hf), hr, hp, ho, hs⟩
  named := by simp [ho]
  step := hs.symm
  counter := by rw [hn, ← h.counter]; rfl
  changeMode := by rw [hm, ← h.changeMode]; rfl
  ids := by rw [hd, ← h.ids]; rfl
  prices := by rw [hd, ← h.prices]; rfl
  sides := by rw [hd]; exact h.sides
  symbol := by rw [hy, h.symbol]

theorem models_placed (h : Models symbol d c) (hw : c.phase = .waiting) :
    Models symbol d.triggered.placed (c.place (orderId symbol)) := by
  obtain ⟨hf, hr, -, -⟩ : d.fsm = .WAIT_PRICE ∧ d.running = true ∧ d.waitPrice = true ∧
      d.waitOrderFill = none := by simpa [Shows, hw] using h.shows
  exact {
    shows := by simp [State.place, Shows, hf, hr]
    named := by simp [orderId_ne_empty]
    step := by simp [State.place, h.step]
    counter := by simp [State.place, h.counter]
    changeMode := by simp [State.place, h.changeMode]
    ids := by
      funext i
      rw [newClientOrderId_placed]
      simp [State.place, h.ids, Function.update_apply, h.step, h.counter, h.symbol]
    prices := by
      funext i
      rw [price_placed]
      simp [State.place, h.prices]
    sides := fun i => by
      rw [side_placed]
      exact h.sides i
    symbol := by simp [h.symbol] }

omit [Runtime F] in
theorem models_ticket (h : Models symbol d c) : d.ticket = c.ticket (orderId symbol) := by
  simp [SymbolData.ticket, State.ticket, SymbolData.currentOrder, h.step, h.counter, h.symbol,
    h.prices, h.sides]

theorem models_started (h : Models symbol d c) (hi : c.phase = .idle) (side : Json F) :
    Models symbol (d.started side) (c.load (d.loadTradeData side).step d.tempPrice).wait := by
  have ho : d.waitOrderFill = none := by
    have hs := h.shows
    simp only [Shows, hi] at hs
    exact hs.2.2.2.1
  exact {
    shows := by simp [State.wait, Shows, h.fsm_ne_stop, ho]
    named := by simp [ho]
    step := by simp [State.wait, State.load]
    counter := by simp [State.wait, State.load, h.counter]
    changeMode := by simp [State.wait, State.load, h.changeMode]
    ids := by simp [State.wait, State.load, h.ids]
    prices := by simp [State.wait, State.load]
    sides := by simpa using h.sides
    symbol := by simp [h.symbol] }

omit [Runtime F] in
theorem models_loaded (h : Models symbol d c) (hw : c.phase = .waiting ∨ c.phase = .halfFilled)
    (side : Json F) :
    Models symbol (d.loadTradeData side) (c.load (d.loadTradeData side).step d.tempPrice) where
  shows := by
    have hs := h.shows
    rcases hw with hw | hw <;> simpa [State.load, Shows, hw] using hs
  named := by simpa using h.named
  step := rfl
  counter := h.counter
  changeMode := h.changeMode
  ids := by simp [State.load, h.ids]
  prices := by simp [State.load]
  sides := by simpa using h.sides
  symbol := h.symbol

omit [Runtime F] in
theorem models_cancelling (h : Models symbol d c) {i : Fin 2} (hr : d.running = true)
    (hp : d.waitPrice = false) (ho : d.waitOrderFill = some i) :
    Models symbol d.cancelling (c.cancel i) where
  shows := by simp [State.cancel, Shows, h.fsm_ne_stop, hr, hp, ho]
  named := by simpa using h.named
  step := h.step
  counter := h.counter
  changeMode := h.changeMode
  ids := h.ids
  prices := h.prices
  sides := h.sides
  symbol := h.symbol

omit [Runtime F] in
theorem models_changing (h : Models symbol d c) {i : Fin 2} (hr : d.running = true)
    (hp : d.waitPrice = false) (ho : d.waitOrderFill = some i) (side : Json F) :
    Models symbol (d.changing side)
      ({ c.load (d.loadTradeData side).step d.tempPrice with changeMode := true }.cancel i) where
  shows := by simp [State.cancel, Shows, h.fsm_ne_stop, hr, hp, ho]
  named := by simpa using h.named
  step := by simp [State.cancel, State.load]
  counter := by simp [State.cancel, State.load, h.counter]
  changeMode := by simp [State.cancel]
  ids := by simp [State.cancel, State.load, h.ids]
  prices := by simp [State.cancel, State.load]
  sides := by simpa using h.sides
  symbol := by simp [h.symbol]

omit [Runtime F] in
theorem models_confirmed (h : Models symbol d c) (hc : c.phase = .confirming) :
    Models symbol d.confirmed { c with phase := .filling } where
  shows := by
    have hs := h.shows
    simp only [Shows, hc] at hs ⊢
    simp [hs]
  named := by simpa using h.named
  step := h.step
  counter := h.counter
  changeMode := h.changeMode
  ids := h.ids
  prices := h.prices
  sides := h.sides
  symbol := h.symbol

omit [Runtime F] in
theorem models_filled (h : Models symbol d c)
    (hc : c.phase = .filling ∨ c.phase = .halfFilled) :
    Models symbol d.filled (c.fill false) where
  shows := by
    have hs := h.shows
    rcases hc with hc | hc <;>
    · simp only [Shows, hc] at hs
      simp [State.fill, Shows, hs]
  named := by simp
  step := by simp [State.fill, State.turn, h.step]
  counter := by simp [State.fill, State.turn, h.step, h.counter]
  changeMode := h.changeMode
  ids := h.ids
  prices := h.prices
  sides := h.sides
  symbol := h.symbol

omit [Runtime F] in
theorem models_reopened (h : Models symbol d (c.fill false)) :
    Models symbol d.reopened (c.fill true) where
  shows := by
    have hs := h.shows
    simp only [Shows, State.fill] at hs
    simp_all [Shows, State.fill]
  named := by simpa using h.named
  step := h.step
  counter := h.counter
  changeMode := h.changeMode
  ids := h.ids
  prices := h.prices
  sides := h.sides
  symbol := h.symbol

omit [Runtime F] in
theorem models_changed (h : Models symbol d c) {i : Fin 2} (hc : c.phase = .deleting i) :
    Models symbol d.changed { c.wait with changeMode := false } where
  shows := by
    have hs := h.shows
    simp only [Shows, hc] at hs
    simp [State.wait, Shows, hs]
  named := by simp
  step := h.step
  counter := h.counter
  changeMode := by simp
  ids := h.ids
  prices := h.prices
  sides := h.sides
  symbol := h.symbol

end Updates

/-! ### Events -/

section Follows

variable {symbol : String} {d d' : SymbolData F} {c c' : State F} {i : Input F}
  {acts : List (Act F)} {Q : F → Prop}

/-- The handler takes `d` where the abstract symbol goes from `c` on `i`, and
keeps the step size in `Q`. -/
structure Follows (Q : F → Prop) (symbol : String) (h : Py F Unit) (d : SymbolData F)
    (c : State F) (i : Input F) : Prop where
  next : Models symbol (h.run d).state ((machine (orderId symbol)).next c i)
  emit : (h.run d).calls.filterMap Call.act? = (machine (orderId symbol)).emit c i
  stepSize : Q d.stepSize → Q (h.run d).state.stepSize

omit [Runtime F] in
theorem follows_of_leaves {h : Py F Unit} (hl : h.Leaves Call.act? d d' acts)
    (hi : Control.step (orderId symbol) c i = (c', acts)) (hm : Models symbol d' c')
    (hz : d'.stepSize = d.stepSize) : Follows Q symbol h d c i := by
  obtain ⟨rfl, rfl⟩ := hl
  exact ⟨by simpa only [machine, hi] using hm, by simp only [machine, hi], fun hq => by rwa [hz]⟩

omit [Runtime F] in
/-- A handler that goes on as another one in another state. -/
theorem follows_of_run {h g : Py F Unit} (hr : h.run d = g.run d')
    (hg : Follows Q symbol g d' c i) (hz : d'.stepSize = d.stepSize) :
    Follows Q symbol h d c i :=
  ⟨hr ▸ hg.next, hr ▸ hg.emit, fun hq => hr ▸ hg.stepSize (hz ▸ hq)⟩

theorem follows_fsmWaitPrice (h : Models symbol d c) (hw : c.phase = .waiting)
    (hi : Control.step (orderId symbol) c i =
      if d.fires then (c.place (orderId symbol), [.issue (c.ticket (orderId symbol)), .arm])
      else (c, [])) : Follows Q symbol fsmWaitPrice d c i := by
  cases hf : d.fires with
  | true =>
    rw [hf, if_pos rfl, ← models_ticket h] at hi
    exact follows_of_leaves (returns_fsmWaitPrice hf).leaves hi (models_placed h hw) rfl
  | false =>
    rw [hf] at hi
    exact follows_of_leaves ((fsmWaitPrice_of_not_fires hf).elim (·.leaves) (·.leaves)) hi h rfl

omit [Runtime F] in
theorem follows_fsmWaitOrderCompl {r : Dict F} {fires readable : Bool} (h : Models symbol d c)
    (hr : d.report = some r) (hc : c.phase = .confirming) :
    Follows Q symbol fsmWaitOrderCompl d c
      (.report (textAt r "c") (textAt r "X") fires readable) := by
  have hid : c.ids c.step = d.currentOrder.newClientOrderId := by
    simp [h.ids, h.step, SymbolData.currentOrder]
  by_cases hn : textAt r "c" = some d.currentOrder.newClientOrderId ∧ textAt r "X" = some "NEW"
  · exact follows_of_leaves (returns_fsmWaitOrderCompl hr hn.1 hn.2).leaves
      (by simp [Control.step, hc, hid, hn]) (models_confirmed h hc) rfl
  · exact follows_of_leaves (returns_fsmWaitOrderCompl_of_ne hr hn).leaves
      (by simp [Control.step, hc, hid, hn]) h rfl

omit [Runtime F] in
theorem follows_fsmWaitOrderDel {r : Dict F} {fires readable : Bool} {j : Fin 2}
    (h : Models symbol d c) (hr : d.report = some r) (hc : c.phase = .deleting j) :
    Follows Q symbol fsmWaitOrderDel d c (.report (textAt r "c") (textAt r "X") fires readable) := by
  by_cases hx : textAt r "X" = some "CANCELED"
  · cases hm : d.changeMode with
    | true =>
      exact follows_of_leaves (returns_fsmWaitOrderDel_change hr hx hm).leaves
        (by simp [Control.step, hc, hx, h.changeMode, hm]) (models_changed h hc) rfl
    | false =>
      exact follows_of_leaves (returns_fsmWaitOrderDel_stop hr hx hm).leaves
        (by simp [Control.step, hc, hx, h.changeMode, hm])
        (models_rest h (by simp [h.fsm_ne_stop]) rfl rfl rfl rfl rfl rfl rfl rfl) rfl
  · exact follows_of_leaves ((fsmWaitOrderDel_of_ne hr hx).elim (·.leaves) (·.leaves))
      (by simp [Control.step, hc, hx]) h rfl

theorem follows_fsmWaitOrderFill {r : Dict F} {fires : Bool} (h : Models symbol d c)
    (hr : d.report = some r) (hc : c.phase = .filling ∨ c.phase = .halfFilled) :
    Follows Q symbol fsmWaitOrderFill d c
      (.report (textAt r "c") (textAt r "X") fires (settles r d.stepSize)) := by
  have hid : c.ids c.step = d.currentOrder.newClientOrderId := by
    simp [h.ids, h.step, SymbolData.currentOrder]
  by_cases hn : textAt r "c" = some d.currentOrder.newClientOrderId ∧
      textAt r "X" = some "FILLED"
  · have hi : Control.step (orderId symbol) c
        (.report (textAt r "c") (textAt r "X") fires (settles r d.stepSize)) =
        (c.fill (settles r d.stepSize), [.disarm]) := by
      rcases hc with hc | hc <;> simp [Control.step, hc, hid, hn]
    cases hs : settles r d.stepSize with
    | true =>
      obtain ⟨d', hd, hq⟩ := settle_of_settles (d := d.filled) hs
      rw [hs] at hi
      exact follows_of_leaves (returns_fsmWaitOrderFill hr hn.1 hn.2 hd).leaves hi
        (models_reopened (models_requoted (models_filled h hc) hq))
        (by simp [requoted_stepSize hq])
    | false =>
      obtain ⟨x, hd⟩ := settle_of_not_settles (d := d.filled) hs
      obtain ⟨q, hq⟩ := raises_fsmWaitOrderFill hr hn.1 hn.2 hd
      rw [hs] at hi
      exact follows_of_leaves hq.leaves hi
        (models_requoted (models_filled h hc) (requoted_setQuantity _ _ _)) rfl
  · refine follows_of_leaves ((fsmWaitOrderFill_of_ne hr hn).elim (·.leaves) (·.leaves)) ?_ h rfl
    rcases hc with hc | hc <;> simp [Control.step, hc, hid, hn]

theorem follows_onOrderReport (h : Models symbol d c) (r : Dict F) :
    Follows Q symbol (onOrderReport r) d c (input d (.orderReport r)) := by
  have hm := models_reported h r
  have hs := h.shows
  cases hp : c.phase with
  | idle =>
    simp only [Shows, hp] at hs
    have hl : (onOrderReport r).Leaves Call.act? d (d.reported r) [] ∨
        (onOrderReport r).Leaves Call.act? d
          ((d.reported r).banner "data" "ready" "Данные для торгов готовы") [] := by
      rcases hs.1 with hf | hf | hf
      · left
        rw [Leaves, run_report hf]
        exact ⟨rfl, rfl⟩
      · right
        rw [Leaves, run_report hf]
        exact ⟨rfl, rfl⟩
      · left
        rw [Leaves, run_report hf]
        exact ⟨rfl, rfl⟩
    rcases hl with hl | hl
    · exact follows_of_leaves hl (by simp [input, Control.step, hp]) hm rfl
    · exact follows_of_leaves hl (by simp [input, Control.step, hp]) (models_banner hm _ _ _) rfl
  | waiting =>
    simp only [Shows, hp] at hs
    refine follows_of_run (run_report hs.1) (follows_fsmWaitPrice hm hp ?_) rfl
    simp only [input, Control.step, hp]
    rfl
  | confirming =>
    simp only [Shows, hp] at hs
    exact follows_of_run (run_report hs.1) (follows_fsmWaitOrderCompl hm rfl hp) rfl
  | filling =>
    simp only [Shows, hp] at hs
    exact follows_of_run (run_report hs.1) (follows_fsmWaitOrderFill hm rfl (.inl hp)) rfl
  | halfFilled =>
    simp only [Shows, hp] at hs
    exact follows_of_run (run_report hs.1) (follows_fsmWaitOrderFill hm rfl (.inr hp)) rfl
  | deleting j =>
    simp only [Shows, hp] at hs
    exact follows_of_run (run_report hs.1) (follows_fsmWaitOrderDel hm rfl hp) rfl

omit [Runtime F] in
theorem waitPrice_iff (h : Models symbol d c) : d.waitPrice = true ↔ c.phase = .waiting := by
  have hs := h.shows
  unfold Shows at hs
  split at hs <;> simp_all

theorem follows_onPrice (h : Models symbol d c) (price : Json F) :
    Follows Q symbol (onPrice price) d c (input d (.price price)) := by
  rcases hp : d.price with _ | ⟨p, ps⟩
  · have hl : (onPrice price).Leaves Call.act? d d [] := by
      rw [Leaves, run_onPrice_nil _ hp]
      exact ⟨rfl, rfl⟩
    exact follows_of_leaves hl (by simp [input, hp, Control.step]) h rfl
  have hne : d.price ≠ [] := by simp [hp]
  rcases hx : price.toFloat with y | x
  · have hl : (onPrice price).Leaves Call.act? d { d with price := d.price.dropLast } [] := by
      rw [Leaves, run_onPrice_error hne hx]
      exact ⟨rfl, rfl⟩
    exact follows_of_leaves hl (by simp [input, hp, hx, Control.step]) (models_prices h _) rfl
  have hm : Models symbol (d.priced x) c := models_prices h _
  by_cases hw : c.phase = .waiting
  · have he : (onPrice price).run d = fsmWaitPrice.run (d.priced x) := by
      have hs := h.shows
      simp only [Shows, hw] at hs
      rw [run_onPrice_ok hne hx, (waitPrice_iff h).2 hw, if_pos rfl, run_fsmRun,
        SymbolData.priced_fsm, hs.1]
    refine follows_of_run he (follows_fsmWaitPrice hm hw ?_) rfl
    simp [input, hp, hx, Control.step, hw]
  · have hl : (onPrice price).Leaves Call.act? d (d.priced x) [] := by
      have hp' : d.waitPrice = false := by rwa [← Bool.not_eq_true, waitPrice_iff h]
      rw [Leaves, run_onPrice_ok hne hx, hp']
      exact ⟨rfl, rfl⟩
    exact follows_of_leaves hl (by simp [input, hp, hx, Control.step, hw]) hm rfl

theorem follows_onOrderCompleteTimeout (h : Models symbol d c) :
    Follows Q symbol onOrderCompleteTimeout d c .timeout :=
  follows_of_leaves (returns_onOrderCompleteTimeout h.fsm_ne_stop).leaves rfl
    (models_rest h (by simp [h.fsm_ne_stop]) rfl rfl rfl rfl rfl rfl rfl rfl) rfl

omit [Runtime F] in
theorem waitOrderFill_eq (h : Models symbol d c) : d.waitOrderFill = c.tracked := by
  have hs := h.shows
  cases hp : c.phase <;> simp_all [Shows, State.tracked, h.step]

omit [Runtime F] in
theorem running_iff (h : Models symbol d c) : d.running = true ↔ c.phase ≠ .idle := by
  have hs := h.shows
  unfold Shows at hs
  split at hs <;> simp_all

omit [Runtime F] in
/-- The tracked order of a phase that tracks one. -/
theorem tracked (h : Models symbol d c) (ht : c.phase.Tracking) :
    ∃ i, ((c.phase = .confirming ∨ c.phase = .filling) ∧ i = c.step ∨ c.phase = .deleting i) ∧
      d.waitOrderFill = some i ∧ d.waitOrderAct = true ∧ d.running = true ∧
      d.waitPrice = false := by
  have act {i : Fin 2} (ho : d.waitOrderFill = some i) : d.waitOrderAct = true := by
    simpa [SymbolData.waitOrderAct, SymbolData.waitOrderId, ho] using h.named i ho
  have hs := h.shows
  cases hp : c.phase with
  | idle | waiting | halfFilled => simp [Phase.Tracking, hp] at ht
  | confirming | filling =>
    simp only [Shows, hp, ← h.step] at hs
    exact ⟨c.step, by simp, hs.2.2.2, act hs.2.2.2, hs.2.1, hs.2.2.1⟩
  | deleting i =>
    simp only [Shows, hp] at hs
    exact ⟨i, by simp, hs.2.2.2, act hs.2.2.2, hs.2.1, hs.2.2.1⟩

omit [Runtime F] in
theorem waitOrderAct_iff (h : Models symbol d c) : d.waitOrderAct = true ↔ c.phase.Tracking := by
  constructor
  · intro ha
    have hs := h.shows
    unfold Shows at hs
    split at hs <;> simp_all [Phase.Tracking, SymbolData.waitOrderAct, SymbolData.waitOrderId]
  · intro ht
    obtain ⟨i, -, -, ha, -⟩ := tracked h ht
    exact ha

omit [Runtime F] in
theorem waiting_or_halfFilled (hi : c.phase ≠ .idle) (ht : ¬c.phase.Tracking) :
    c.phase = .waiting ∨ c.phase = .halfFilled := by
  cases hp : c.phase <;> simp_all [Phase.Tracking]

/-- A start from rest waits for its trigger, and may already find it. -/
theorem follows_begin (h : Models symbol d c) (hi : c.phase = .idle) (side : Json F) :
    Follows Q symbol (beginTrade side >>= fun _ => fsmRun) d c
      (.start (d.loadTradeData side).step d.tempPrice (d.loadTradeData side).fires) := by
  have hm := models_started h hi side
  have run : fsmRun.run (d.started side) = fsmWaitPrice.run (d.started side) := by
    rw [run_fsmRun]
    simp [h.fsm_ne_stop]
  have begins {d' : SymbolData F} {acts : List (Act F)}
      (hl : fsmWaitPrice.Leaves Call.act? (d.started side) d' acts) :
      (beginTrade side >>= fun _ => fsmRun).Leaves Call.act? d d' acts :=
    (returns_beginTrade side d).bind_leaves (by simpa only [Leaves, run] using hl)
  have hfires : (d.started side).fires = (d.loadTradeData side).fires := rfl
  cases hf : (d.loadTradeData side).fires with
  | true =>
    refine follows_of_leaves (begins (returns_fsmWaitPrice (hfires.trans hf)).leaves) ?_
      (models_placed hm rfl) rfl
    rw [models_ticket hm]
    simp only [Control.step, hi]
    rfl
  | false =>
    exact follows_of_leaves (begins ((fsmWaitPrice_of_not_fires (hfires.trans hf)).elim
      (·.leaves) (·.leaves))) (by simp [Control.step, hi]) hm rfl

theorem follows_start (h : Models symbol d c) {data : Dict F} {a side : Json F}
    (ha : data.lookup "a" = some a) (hp : data.lookup "p" = some side)
    (hg : a.isStr "start" = true) :
    Follows Q symbol (onTradeRun data) d c
      (.start (d.loadTradeData side).step d.tempPrice (d.loadTradeData side).fires) := by
  have hr := run_onTradeRun (d := d) ha hp
  by_cases hi : c.phase = .idle
  · have hrun : d.running = false := by rw [← Bool.not_eq_true, running_iff h]; simp [hi]
    rw [if_pos hrun, if_pos hg] at hr
    exact follows_of_run hr (follows_begin h hi side) rfl
  have hrun : d.running = true := (running_iff h).2 hi
  rw [hrun, if_neg (by simp), if_pos hg] at hr
  refine follows_of_run hr ?_ rfl
  by_cases ht : c.phase.Tracking
  · obtain ⟨i, hc, ho, hw, -, hp⟩ := tracked h ht
    refine follows_of_leaves (returns_changeTrade_delete ho hw).leaves ?_
      (models_changing h hrun hp ho side) rfl
    have hid : (d.orders i).newClientOrderId = c.ids i := by simp [h.ids]
    rcases hc with ⟨hc | hc, rfl⟩ | hc <;> simp [Control.step, hc, hid]
  · have hw : d.waitOrderAct = false := by rwa [← Bool.not_eq_true, waitOrderAct_iff h]
    have hc := waiting_or_halfFilled hi ht
    refine follows_of_leaves (returns_changeTrade_load hw).leaves ?_
      (models_banner (models_loaded h hc side) _ _ _) rfl
    rcases hc with hc | hc <;> simp [Control.step, hc]

theorem follows_stop (h : Models symbol d c) {data : Dict F} {a side : Json F}
    (ha : data.lookup "a" = some a) (hp : data.lookup "p" = some side)
    (hg : a.isStr "start" = false) : Follows Q symbol (onTradeRun data) d c .stop := by
  have hr := run_onTradeRun (d := d) ha hp
  rw [hg] at hr
  by_cases hi : c.phase = .idle
  · have hrun : d.running = false := by rw [← Bool.not_eq_true, running_iff h]; simp [hi]
    rw [if_pos hrun, if_neg (by simp)] at hr
    exact follows_of_run hr (follows_of_leaves (returns_refuseStop d).leaves
      (by simp [Control.step, hi]) (models_banner h _ _ _) rfl) rfl
  have hrun : d.running = true := (running_iff h).2 hi
  rw [hrun, if_neg (by simp), if_neg (by simp)] at hr
  refine follows_of_run hr ?_ rfl
  by_cases ht : c.phase.Tracking
  · obtain ⟨i, hc, ho, hw, -, hp⟩ := tracked h ht
    refine follows_of_leaves (returns_stopTrade_delete ho hw).leaves ?_
      (models_cancelling h hrun hp ho) rfl
    have hid : (d.orders i).newClientOrderId = c.ids i := by simp [h.ids]
    rcases hc with ⟨hc | hc, rfl⟩ | hc <;> simp [Control.step, hc, hid]
  · have hw : d.waitOrderAct = false := by rwa [← Bool.not_eq_true, waitOrderAct_iff h]
    have hc := waiting_or_halfFilled hi ht
    have ho : d.waitOrderFill = none := by
      have hs := h.shows
      rcases hc with hc | hc <;> simp only [Shows, hc] at hs <;> exact hs.2.2.2
    refine follows_of_leaves (returns_stopTrade_rest hw h.fsm_ne_stop).leaves ?_
      (models_rest h (by simp [h.fsm_ne_stop]) rfl rfl ho rfl rfl rfl rfl rfl) rfl
    rcases hc with hc | hc <;> simp [Control.step, hc]

theorem follows_onTradeRun (h : Models symbol d c) (data : Dict F) :
    Follows Q symbol (onTradeRun data) d c (input d (.tradeRun data)) := by
  have keyError (hk : data.lookup "a" = none ∨ data.lookup "p" = none)
      (hi : input d (.tradeRun data) = .silent) :
      Follows Q symbol (onTradeRun data) d c (input d (.tradeRun data)) := by
    have hl : (onTradeRun data).Leaves Call.act? d d [] := by
      rw [Leaves, run_onTradeRun_keyError hk]
      exact ⟨rfl, rfl⟩
    exact follows_of_leaves hl (by rw [hi]; rfl) h rfl
  rcases ha : data.lookup "a" with _ | a
  · exact keyError (.inl ha) (by simp [input, ha])
  rcases hp : data.lookup "p" with _ | side
  · exact keyError (.inr hp) (by simp [input, ha, hp])
  cases hg : a.isStr "start" with
  | true => simpa only [input, ha, hp, hg, if_true] using follows_start h ha hp hg
  | false => simpa [input, ha, hp, hg] using follows_stop h ha hp hg

omit [Runtime F] in
theorem follows_of_stages {g : Py F Unit} (h : Models symbol d c) (hg : Stages Q g d) :
    Follows Q symbol g d c .silent :=
  ⟨models_restaged h hg.1, List.filterMap_eq_nil_iff.mpr hg.2, hg.1.stepSize⟩

/-- Every event is followed. -/
theorem follows_event (h : Models symbol d c) {e : Event F}
    (hq : ∀ info, e = .exchangeInfo info → StepSizes Q info) :
    Follows Q symbol e.handler d c (input d e) := by
  cases e with
  | exchangeInfo info => exact follows_of_stages h (stages_onExchangeInfo (hq info rfl) d)
  | tradeData data => exact follows_of_stages h (stages_onTradeData data d)
  | tradeRun data => exact follows_onTradeRun h data
  | price price => exact follows_onPrice h price
  | orderReport r => exact follows_onOrderReport h r
  | orderCompleteTimeout => exact follows_onOrderCompleteTimeout h

end Follows

/-- The script behaves as the abstract symbol. -/
theorem bot_simulates (symbol : String) :
    (bot (F := F)).Simulates (machine (orderId symbol)) (Models symbol) input Call.act? := by
  have follows {d : SymbolData F} {c : State F} (h : Models symbol d c) (e : Event F) :
      Follows (fun _ => True) symbol e.handler d c (input d e) :=
    follows_event h fun _ _ _ _ _ _ _ _ _ _ => trivial
  exact ⟨fun h e => (follows h e).next, fun h e => (follows h e).emit⟩

/-- The step size of a symbol stays in `Q` with those that the exchange names. -/
theorem stepSize_next {Q : F → Prop} {symbol : String} {d : SymbolData F} {c : State F}
    (h : Models symbol d c) {e : Event F} (hq : ∀ info, e = .exchangeInfo info → StepSizes Q info)
    (hd : Q d.stepSize) : Q (bot.next d e).stepSize :=
  (follows_event h hq).stepSize hd

/-- The abstract symbol that a script starts as. -/
def init : State F where
  phase := .idle
  step := 0
  counter := 0
  changeMode := false
  ids _ := ""
  prices _ := Runtime.literal 0 0

theorem models_init (symbol : String) : Models symbol (SymbolData.init symbol) (init (F := F)) where
  shows := ⟨.inl rfl, rfl, rfl, rfl, rfl⟩
  named := by simp [SymbolData.init]
  step := rfl
  counter := rfl
  changeMode := rfl
  ids := rfl
  prices := rfl
  sides := Fin.forall_fin_two.2 ⟨rfl, rfl⟩
  symbol := rfl

/-- Every reachable symbol models some abstract one. -/
theorem reachable_models (symbol : String) (es : List (Event F)) :
    ∃ c, Models symbol (bot.run (SymbolData.init symbol) es) c :=
  ⟨_, (bot_simulates symbol).run (models_init symbol) es⟩

/-- The same with an invariant of the abstract symbol. -/
theorem reachable_models_with {symbol : String} {J : State F → Prop} (h : J init)
    (hstep : ∀ c i, J c → J ((machine (orderId symbol)).next c i)) (es : List (Event F)) :
    ∃ c, Models symbol (bot.run (SymbolData.init symbol) es) c ∧ J c := by
  refine ⟨_, (bot_simulates symbol).run (models_init symbol) es, ?_⟩
  exact Machine.run_invariant J (fun c i hc _ => hstep c i hc) h
    (Machine.along_of_forall _ (P := fun _ _ => True) (fun _ _ => trivial) _ _)

/-! ### Issued orders -/

/-- What the exchange sees of an order. -/
def ticketOf (o : Order F) : Ticket F := ⟨o.newClientOrderId, o.side.index, o.price⟩

omit [Runtime F] in
theorem tickets_of_calls (calls : List (Call F)) :
    (issued calls).map ticketOf = (calls.filterMap Call.act?).filterMap Act.ticket? := by
  induction calls with
  | nil => rfl
  | cons o calls ih =>
    unfold issued at ih ⊢
    cases o <;> simp [List.filterMap_cons, Call.order?, ticketOf, ih]

/-- The orders of an event are the tickets of the abstract step. -/
theorem tickets_of_event {symbol : String} {d : SymbolData F} {c : State F}
    (h : Models symbol d c) (e : Event F) :
    (issued (bot.emit d e)).map ticketOf =
      ((machine (orderId symbol)).emit c (input d e)).filterMap Act.ticket? := by
  rw [tickets_of_calls, (bot_simulates symbol).emit h]

/-- The orders of a run are the tickets of the abstract run. -/
theorem tickets_of_run {symbol : String} {d : SymbolData F} {c : State F}
    (h : Models symbol d c) (es : List (Event F)) :
    (ordersOf d es).map ticketOf =
      ((machine (orderId symbol)).emitted c (bot.labels input d es)).filterMap Act.ticket? := by
  rw [ordersOf, tickets_of_calls, (bot_simulates symbol).emitted h]

/-! ### Flags -/

/-- The four flags of a symbol and its FSM state tell the same story. -/
structure FlagsConsistent (d : SymbolData F) : Prop where
  running : d.running = true ↔ d.fsm = .WAIT_PRICE ∨ d.fsm = .WAIT_ORDER_CMPL ∨
    d.fsm = .WAIT_ORDER_FILL ∨ d.fsm = .WAIT_ORDER_DEL
  waitPrice : d.waitPrice = true ↔ d.fsm = .WAIT_PRICE
  tracked : d.waitOrderAct = true →
    d.fsm = .WAIT_ORDER_CMPL ∨ d.fsm = .WAIT_ORDER_FILL ∨ d.fsm = .WAIT_ORDER_DEL
  waiting : d.fsm = .WAIT_ORDER_CMPL ∨ d.fsm = .WAIT_ORDER_DEL → d.waitOrderAct = true
  inPrice : d.fsm ≠ .IN_PRICE

omit [Runtime F] in
theorem flagsConsistent_of_models {symbol : String} {d : SymbolData F} {c : State F}
    (h : Models symbol d c) : FlagsConsistent d := by
  have ha := waitOrderAct_iff h
  have hs := h.shows
  cases hp : c.phase with
  | idle =>
    simp only [Shows, hp] at hs
    simp only [hp, Phase.Tracking, iff_false] at ha
    rcases hs.1 with hf | hf | hf <;> constructor <;> simp [hf, hs, ha]
  | waiting | halfFilled | confirming | filling | deleting =>
    simp only [Shows, hp] at hs
    simp only [hp, Phase.Tracking, iff_true, iff_false] at ha
    constructor <;> simp [hs, ha]

/-- The flags of every reachable symbol are consistent, whatever messages it got. -/
theorem reachable_flagsConsistent (symbol : String) (es : List (Event F)) :
    FlagsConsistent (bot.run (SymbolData.init symbol) es) := by
  obtain ⟨c, hc⟩ := reachable_models symbol es
  exact flagsConsistent_of_models hc

end BotTrader.Control
