import BotTrader.Control.Stop

/-! What one report or price does to a reachable symbol: whether a handler that
fails leaves the symbol as it was, and whether the report of an ended order
frees the symbol of it. -/

namespace BotTrader.Control

open Automata Handler Python Strategy

variable {F : Type} [Runtime F] {symbol : String} {d : SymbolData F} {c : State F}

/-! ### Handlers that fail -/

/-- The part of a symbol that a failed handler should leave alone. -/
def watched (d : SymbolData F) :=
  (d.fsm, d.step, d.counter, d.waitOrderFill, d.changeMode, d.waitPrice, d.running,
    (d.orders 0).quantity, (d.orders 1).quantity, d.price)

/-- If the handler of the event raises, the symbol is as it was. -/
def Atomic (d : SymbolData F) (e : Event F) : Prop :=
  (d.react e).error ≠ none → watched (bot.next d e) = watched d

/-- The report fills the order of a symbol that waits for it. -/
def Fills (d : SymbolData F) (r : Dict F) : Prop :=
  d.fsm = .WAIT_ORDER_FILL ∧ textAt r "c" = some d.currentOrder.newClientOrderId ∧
    textAt r "X" = some "FILLED"

section Atomic

variable {e : Event F} {h : Py F Unit} {d' d'' : SymbolData F} {acts : List (Act F)}

theorem atomic_of_returns (hr : e.handler.run d = h.run d')
    (hh : h.Returns Call.act? d' () d'' acts) : Atomic d e := fun he => by
  rw [SymbolData.react, hr, hh.error_eq] at he
  exact absurd rfl he

theorem atomic_of_raises (hr : e.handler.run d = h.run d')
    (hh : h.Raises Call.act? d' d'' acts) : Atomic d e ↔ watched d'' = watched d := by
  have hl := hh.leaves.1
  have he := hh.error_ne
  simp only [Atomic, bot, SymbolData.react, hr, hl]
  exact ⟨fun ha => ha he, fun hw _ => hw⟩

theorem atomic_of_unchanged (hr : e.handler.run d = h.run d') (hw : watched d' = watched d)
    (hh : h.Returns Call.act? d' () d' acts ∨ h.Raises Call.act? d' d' acts) : Atomic d e :=
  hh.elim (atomic_of_returns hr) fun hh => (atomic_of_raises hr hh).2 hw

end Atomic

omit [Runtime F] in
/-- A fill whose commission cannot be read has already moved the symbol to its other side. -/
theorem watched_half_filled (d : SymbolData F) (q : F) :
    watched (d.filled.setQuantity 0 q) ≠ watched d := by
  intro hw
  have hs : d.filled.step = d.step := congrArg (fun w => w.2.1) hw
  simp only [SymbolData.filled_step] at hs
  split at hs <;> omega

/-- Outside `FSM_ST_WAIT_ORDER_FILL` no handler of a report fails half-way. -/
theorem atomic_orderReport_of_ne {r : Dict F} (hf : d.fsm ≠ .WAIT_ORDER_FILL) :
    Atomic d (.orderReport r) := by
  have hrep : (d.reported r).report = some r := rfl
  cases hst : d.fsm with
  | START =>
    exact atomic_of_unchanged (h := raise .keyError) (run_report hst) rfl (.inr ⟨.keyError, [], rfl, rfl⟩)
  | READY => exact atomic_of_returns (run_report hst) ⟨[], rfl, rfl⟩
  | WAIT_PRICE =>
    cases hx : (d.reported r).fires with
    | true => exact atomic_of_returns (run_report hst) (returns_fsmWaitPrice hx)
    | false => exact atomic_of_unchanged (run_report hst) rfl (fsmWaitPrice_of_not_fires hx)
  | IN_PRICE => exact atomic_of_returns (run_report hst) (returns_fsmInPrice _)
  | WAIT_ORDER_CMPL =>
    by_cases hn : textAt r "c" = some d.currentOrder.newClientOrderId ∧ textAt r "X" = some "NEW"
    · exact atomic_of_returns (run_report hst) (returns_fsmWaitOrderCompl hrep hn.1 hn.2)
    · exact atomic_of_returns (run_report hst) (returns_fsmWaitOrderCompl_of_ne hrep hn)
  | WAIT_ORDER_FILL => exact absurd hst hf
  | WAIT_ORDER_DEL =>
    by_cases hx : textAt r "X" = some "CANCELED"
    · cases hm : (d.reported r).changeMode with
      | true => exact atomic_of_returns (run_report hst) (returns_fsmWaitOrderDel_change hrep hx hm)
      | false => exact atomic_of_returns (run_report hst) (returns_fsmWaitOrderDel_stop hrep hx hm)
    · exact atomic_of_unchanged (run_report hst) rfl (fsmWaitOrderDel_of_ne hrep hx)
  | RESUME | STOP => exact atomic_of_returns (h := pure ()) (run_report hst) ⟨[], rfl, rfl⟩

theorem atomic_orderReport (d : SymbolData F) (r : Dict F) :
    Atomic d (.orderReport r) ↔ ¬(Fills d r ∧ settles r d.stepSize = false) := by
  by_cases hf : d.fsm = .WAIT_ORDER_FILL
  swap
  · exact iff_of_true (atomic_orderReport_of_ne hf) fun hc => hf hc.1.1
  have hr : (Event.orderReport r).handler.run d = fsmWaitOrderFill.run (d.reported r) :=
    run_report hf
  have hrep : (d.reported r).report = some r := rfl
  by_cases hn : textAt r "c" = some d.currentOrder.newClientOrderId ∧ textAt r "X" = some "FILLED"
  swap
  · exact iff_of_true (atomic_of_unchanged hr rfl (fsmWaitOrderFill_of_ne hrep hn))
      fun hc => hn hc.1.2
  cases hz : settles r d.stepSize with
  | true =>
    obtain ⟨d', hd, -⟩ := settle_of_settles (d := (d.reported r).filled) hz
    exact iff_of_true (atomic_of_returns hr (returns_fsmWaitOrderFill hrep hn.1 hn.2 hd)) (by simp)
  | false =>
    obtain ⟨x, hd⟩ := settle_of_not_settles (d := (d.reported r).filled) hz
    obtain ⟨q, hq⟩ := raises_fsmWaitOrderFill hrep hn.1 hn.2 hd
    rw [atomic_of_raises hr hq]
    exact iff_of_false (watched_half_filled (d.reported r) q) (by simp [Fills, hf, hn])

/-- The price is no number, or it is the only one of a symbol that compares it. -/
def Cuts (d : SymbolData F) (price : Json F) : Prop :=
  d.price ≠ [] ∧ (∃ x, price.toFloat = .error x) ∨
    d.waitPrice = true ∧ ∃ x y, price.toFloat = .ok x ∧ d.price = [y] ∧ x ≠ y ∧
      Runtime.isZero x = false

/-- Two prices can always be compared with a trigger. -/
theorem returns_fsmWaitPrice_of_two {x y : F} {ps : List F} (h : d.price = x :: y :: ps) :
    ∃ d' acts, fsmWaitPrice.Returns Call.act? d () d' acts := by
  cases hf : d.fires with
  | true => exact ⟨_, _, returns_fsmWaitPrice hf⟩
  | false =>
    refine ⟨d, [], returns_fsmWaitPrice_false ?_⟩
    unfold SymbolData.fires at hf
    split at hf
    · next e => rw [e, hf]
    · next e =>
      simp only [SymbolData.isTriggerInPrice, h] at e
      split at e <;> cases e

theorem atomic_price (h : Models symbol d c) (price : Json F) :
    Atomic d (.price price) ↔ ¬Cuts d price := by
  rcases hp : d.price with _ | ⟨y, ys⟩
  · have hr : (Event.price price).handler.run d = (raise .indexError : Py F Unit).run d :=
      run_onPrice_nil _ hp
    exact iff_of_true (atomic_of_unchanged hr rfl (.inr ⟨_, [], rfl, rfl⟩)) (by simp [Cuts, hp])
  have hne : d.price ≠ [] := by simp [hp]
  rcases hx : price.toFloat with z | x
  · have hr : (Event.price price).handler.run d =
        (raise z : Py F Unit).run { d with price := d.price.dropLast } := run_onPrice_error hne hx
    have hz : (raise z : Py F Unit).Raises Call.act? { d with price := d.price.dropLast }
        { d with price := d.price.dropLast } [] := ⟨z, [], rfl, rfl⟩
    rw [atomic_of_raises hr hz]
    refine iff_of_false (fun hw => ?_) (by simp [Cuts, hne, hx])
    have hl : d.price.dropLast = d.price := congrArg (fun w => w.2.2.2.2.2.2.2.2.2) hw
    have := congrArg List.length hl
    simp [hp] at this
  have hr : (Event.price price).handler.run d = _ := run_onPrice_ok hne hx
  cases hw : d.waitPrice with
  | false =>
    rw [hw, if_neg (by simp)] at hr
    exact iff_of_true (atomic_of_returns (h := pure ()) hr ⟨[], rfl, rfl⟩)
      (by simp [Cuts, hx, hw])
  | true =>
    have hf : d.fsm = .WAIT_PRICE := (flagsConsistent_of_models h).waitPrice.1 hw
    rw [hw, if_pos rfl, run_fsmRun, SymbolData.priced_fsm, hf] at hr
    rcases ys with _ | ⟨z, zs⟩
    · cases hz : Runtime.isZero x with
      | true =>
        refine iff_of_true (atomic_of_returns hr (returns_fsmWaitPrice_false ?_))
          (by simp [Cuts, hx, hz])
        simp [SymbolData.isTriggerInPrice, hp, hz]
      | false =>
        have he : (d.priced x).isTriggerInPrice ((d.priced x).trigger (d.priced x).step) =
            .error .indexError := by simp [SymbolData.isTriggerInPrice, hp, hz]
        rw [atomic_of_raises hr (raises_fsmWaitPrice he)]
        simp [Cuts, watched, hp, hx, hz, hw]
    · have hp' : (d.priced x).price = x :: y :: (z :: zs).dropLast := by simp [hp]
      obtain ⟨d', acts, hd⟩ := returns_fsmWaitPrice_of_two hp'
      exact iff_of_true (atomic_of_returns hr hd) (by simp [Cuts, hx, hp])

/-- The reports and prices whose handler fails half-way in a reachable symbol:
the fill whose commission cannot be read, and the price that is no number or has
nothing to be compared with. -/
theorem reports_atomic_iff (symbol : String) (es : List (Event F)) :
    (∀ r : Dict F, Atomic (bot.run (SymbolData.init symbol) es) (.orderReport r) ↔
      ¬(Fills (bot.run (SymbolData.init symbol) es) r ∧
        settles r (bot.run (SymbolData.init symbol) es).stepSize = false)) ∧
    ∀ price : Json F, Atomic (bot.run (SymbolData.init symbol) es) (.price price) ↔
      ¬Cuts (bot.run (SymbolData.init symbol) es) price := by
  obtain ⟨c, hc⟩ := reachable_models symbol es
  exact ⟨atomic_orderReport _, atomic_price hc⟩

/-- The fill that the answer to the order request reports is half applied. -/
theorem reports_not_atomic : ¬∀ (symbol : String) (es : List (Event ℚ)),
    (∀ r : Dict ℚ, Atomic (bot.run (SymbolData.init symbol) es) (.orderReport r)) ∧
    ∀ price : Json ℚ, Atomic (bot.run (SymbolData.init symbol) es) (.price price) := by
  intro h
  have ha := (h "BTC" confirmedOrder).1 filledAnswer
  rw [atomic_orderReport] at ha
  refine ha ⟨?_, rfl⟩
  simp only [Fills, filledAnswer, textAt_httpReport_c, textAt_httpReport_X]
  decide +kernel

/-! ### Orders that have ended -/

/-- The symbol lets go of its order `i` on the report, and leaves its state. -/
def LetsGo (d : SymbolData F) (i : Fin 2) (r : Dict F) : Prop :=
  (bot.next d (.orderReport r)).waitOrderFill ≠ some i ∧
    (bot.next d (.orderReport r)).fsm ≠ d.fsm

/-- A report about the order `id` with one of the statuses that end an order. -/
structure EndReport (id : String) (r : Dict F) : Prop where
  id : textAt r "c" = some id
  status : textAt r "X" = some "FILLED" ∨ textAt r "X" = some "CANCELED" ∨
    textAt r "X" = some "REJECTED" ∨ textAt r "X" = some "EXPIRED"
  fields : ∀ key ∈ ["N", "n", "p"], ∃ j, r.item key = .ok j

theorem letsGo_iff (h : Models symbol d c) {i : Fin 2} (ho : d.waitOrderFill = some i) {r : Dict F}
    (hr : textAt r "c" = some (d.orders i).newClientOrderId) :
    LetsGo d i r ↔
      d.fsm = .WAIT_ORDER_FILL ∧ textAt r "X" = some "FILLED" ∧ settles r d.stepSize = true ∨
        d.fsm = .WAIT_ORDER_DEL ∧ textAt r "X" = some "CANCELED" := by
  have hn := (bot_simulates symbol).next h (.orderReport r)
  have hs := h.shows
  have ht := waitOrderFill_eq h
  simp only [LetsGo, waitOrderFill_eq hn]
  replace hn := hn.shows
  simp only [machine, input] at hn ⊢
  cases hp : c.phase with
  | idle | waiting | halfFilled => simp [State.tracked, hp, ho] at ht
  | confirming =>
    obtain rfl : i = c.step := by simpa [State.tracked, hp, ho] using ht
    simp only [Shows, hp] at hs
    refine iff_of_false (fun hl => hl.1 ?_) (by simp [hs.1])
    simp only [Control.step, hp]
    split <;> simp [State.tracked, hp]
  | filling =>
    obtain rfl : i = c.step := by simpa [State.tracked, hp, ho] using ht
    have hid : textAt r "c" = some (c.ids c.step) := by rw [hr, h.ids]
    simp only [Shows, hp] at hs
    by_cases hx : textAt r "X" = some "FILLED"
    · cases hz : settles r d.stepSize <;>
        simp_all [Control.step, State.fill, State.tracked, Shows]
    · refine iff_of_false (fun hl => hl.1 ?_) (by simp [hs.1, hx])
      simp [Control.step, hp, hx, State.tracked]
  | deleting j =>
    obtain rfl : i = j := by simpa [State.tracked, hp, ho] using ht
    simp only [Shows, hp] at hs
    by_cases hx : textAt r "X" = some "CANCELED"
    · refine iff_of_true ?_ (.inr ⟨hs.1, hx⟩)
      cases hm : c.changeMode with
      | true =>
        simp only [Control.step, hp, hx, hm, if_true, Shows, State.wait] at hn ⊢
        simp [State.tracked, hs.1, hn.1]
      | false =>
        simp only [Control.step, hp, hx, hm, if_true, Bool.false_eq_true, if_false, Shows,
          State.rest] at hn ⊢
        rcases hn.1 with hf | hf | hf <;> simp [State.tracked, hs.1, hf]
    · refine iff_of_false (fun hl => hl.1 ?_) (by simp [hs.1, hx])
      simp [Control.step, hp, hx, State.tracked]

/-- The ends of a tracked order that free a reachable symbol of it: a fill that can
be settled, once the order was confirmed, and a cancellation that was asked for. -/
theorem letsGo_endReport_iff (symbol : String) (es : List (Event F)) (i : Fin 2) (r : Dict F)
    (ho : (bot.run (SymbolData.init symbol) es).waitOrderFill = some i)
    (hr : EndReport ((bot.run (SymbolData.init symbol) es).orders i).newClientOrderId r) :
    LetsGo (bot.run (SymbolData.init symbol) es) i r ↔
      (bot.run (SymbolData.init symbol) es).fsm = .WAIT_ORDER_FILL ∧
        textAt r "X" = some "FILLED" ∧
          settles r (bot.run (SymbolData.init symbol) es).stepSize = true ∨
      (bot.run (SymbolData.init symbol) es).fsm = .WAIT_ORDER_DEL ∧
        textAt r "X" = some "CANCELED" := by
  obtain ⟨c, hc⟩ := reachable_models symbol es
  exact letsGo_iff hc ho hr.id

omit [Runtime F] in
theorem endReport_streamReport {symbol status id asset n p : String}
    (h : status = "FILLED" ∨ status = "CANCELED" ∨ status = "REJECTED" ∨ status = "EXPIRED") :
    EndReport id (streamReport (F := F) symbol status id asset n p) where
  id := rfl
  status := by simpa using h
  fields key hk := by
    obtain rfl | rfl | rfl : key = "N" ∨ key = "n" ∨ key = "p" := by simpa using hk
    all_goals exact ⟨_, rfl⟩

/-- A confirmed order that is filled is let go. -/
theorem letsGo_endReport_filled : LetsGo (bot.run (SymbolData.init "BTC") confirmedOrder) 0
    filledReport := by
  have hid : ((bot.run (SymbolData.init "BTC") confirmedOrder).orders 0).newClientOrderId =
      "order_USDT_to_BTC_0" := by decide +kernel
  refine (letsGo_endReport_iff "BTC" confirmedOrder 0 _ (by decide +kernel) ?_).2
    (.inl ⟨by decide +kernel, rfl, by decide +kernel⟩)
  rw [hid]
  exact endReport_streamReport (.inl rfl)

/-- An order that is filled before its deletion stays tracked. -/
theorem filled_not_letsGo : ¬∀ (symbol : String) (es : List (Event ℚ)) (i : Fin 2) (r : Dict ℚ),
    (bot.run (SymbolData.init symbol) es).waitOrderFill = some i →
    EndReport ((bot.run (SymbolData.init symbol) es).orders i).newClientOrderId r →
    LetsGo (bot.run (SymbolData.init symbol) es) i r := by
  intro h
  have hid : ((bot.run (SymbolData.init "BTC")
      (confirmedOrder ++ [.tradeRun (command "stop" "BUY")])).orders 0).newClientOrderId =
      "order_USDT_to_BTC_0" := by decide +kernel
  have hl := h "BTC" (confirmedOrder ++ [.tradeRun (command "stop" "BUY")]) 0
    filledReport (by decide +kernel) (by rw [hid]; exact endReport_streamReport (.inl rfl))
  exact hl.2 (by decide +kernel)

end BotTrader.Control
