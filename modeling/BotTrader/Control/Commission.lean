import BotTrader.Control.Cycle
import BotTrader.Control.Trigger
import BotTrader.Strategy.Steady
import BotTrader.Strategy.Messages

/-! What a symbol sells after a buy. The fill report of the buy turns the symbol to its sell
side, and the commission comes off the quantity of both orders. The reduced quantity is rounded
to the nearest decimal with six digits, which may lie above what is left and need not be a
multiple of the step size; a commission in BNB is never taken off. -/

namespace BotTrader.Control

open Automata Handler Python Rational Strategy

/-! ### The order that follows

Until a command comes, the first order that a waiting symbol places is the one it has now. -/

/-- What a symbol sends out when it places its order. -/
def nextOrder (d : SymbolData ℚ) : Order ℚ :=
  { d.currentOrder with newClientOrderId := orderId d.symbol d.step d.counter }

variable {d : SymbolData ℚ}

theorem issued_fsmWaitPrice (h : d.fires = true) :
    issued (fsmWaitPrice.run d).calls = [nextOrder d] := by
  have e := SymbolData.fires_eq_true_iff.mp h
  have hp : issued (fsmInPrice.run d.triggered).calls = [nextOrder d] := by
    refine (show issued (fsmInPrice.run d.triggered).calls = [_] from rfl).trans ?_
    simp [nextOrder, SymbolData.currentOrder]
  have hr : fsmWaitPrice.run d = fsmInPrice.run d.triggered := by
    simp [fsmWaitPrice, run_bind, e, SymbolData.triggered]
  rw [hr, hp]

/-- A method that comes to `fsm_wait_price` places the order, or shows nothing. -/
theorem places_or_waits {g : Py ℚ Unit} {d₁ : SymbolData ℚ} (hr : g.run d = fsmWaitPrice.run d₁) :
    issued (g.run d).calls = [nextOrder d₁] ∨
      issued (g.run d).calls = [] ∧ (g.run d).state = d₁ := by
  rw [hr]
  cases hf : d₁.fires with
  | true => exact .inl (issued_fsmWaitPrice hf)
  | false =>
    have hl : fsmWaitPrice.Leaves Call.act? d₁ d₁ [] :=
      (fsmWaitPrice_of_not_fires hf).elim (·.leaves) (·.leaves)
    have ht := tickets_of_calls (fsmWaitPrice.run d₁).calls
    rw [hl.2] at ht
    exact .inr ⟨by simpa using ht, hl.1⟩

theorem not_isStart_of_noCommand {e : Event ℚ} (h : NoCommand e) : ¬IsStart e := by
  cases e with
  | tradeRun data => exact h.elim
  | _ => exact id

variable {symbol : String} {c : State ℚ} {e : Event ℚ}

/-- Without a command a waiting symbol places its order, or waits on with the same one, or
comes to rest. -/
theorem waiting_next (h : Models symbol d c) (hw : c.phase = .waiting) (hn : NoCommand e) :
    issued (bot.emit d e) = [nextOrder d] ∨
      issued (bot.emit d e) = [] ∧ ∃ c', Models symbol (bot.next d e) c' ∧
        (c'.phase = .idle ∨ c'.phase = .waiting ∧
          nextOrder (bot.next d e) = nextOrder d) := by
  obtain ⟨hf, -, hp, -⟩ : d.fsm = .WAIT_PRICE ∧ d.running = true ∧ d.waitPrice = true ∧
      d.waitOrderFill = none := by simpa [Shows, hw] using h.shows
  show issued (e.handler.run d).calls = _ ∨ issued (e.handler.run d).calls = [] ∧
    ∃ c', Models symbol (e.handler.run d).state c' ∧ (c'.phase = .idle ∨ c'.phase = .waiting ∧
      nextOrder (e.handler.run d).state = nextOrder d)
  have stays {d₁ : SymbolData ℚ} (hm : Models symbol d₁ c)
      (hd : nextOrder d₁ = nextOrder d) (hr : (e.handler.run d).state = d₁) :
      ∃ c', Models symbol (e.handler.run d).state c' ∧ (c'.phase = .idle ∨ c'.phase = .waiting ∧
        nextOrder (e.handler.run d).state = nextOrder d) := by
    rw [hr]
    exact ⟨c, hm, .inr ⟨hw, hd⟩⟩
  have staged {Q : ℚ → Prop} (hst : Stages Q e.handler d) :
      issued (e.handler.run d).calls = [] ∧ nextOrder (e.handler.run d).state =
        nextOrder d := by
    have ht := tickets_of_calls (e.handler.run d).calls
    rw [List.filterMap_eq_nil_iff.mpr hst.2] at ht
    have hd := hst.1.trade
    simp only [SymbolData.trade, Prod.mk.injEq] at hd
    obtain ⟨h1, h2, -, -, -, -, h7, h8, -⟩ := hd
    exact ⟨by simpa using ht, by
      simp only [nextOrder, SymbolData.currentOrder, h1, h2, h7, h8]⟩
  cases e with
  | exchangeInfo info =>
    have hst : Stages (fun _ => True) (onExchangeInfo info) d :=
      stages_onExchangeInfo (fun _ _ _ _ _ _ _ _ => trivial) d
    exact .inr ⟨(staged hst).1, stays (models_restaged h hst.1) (staged hst).2 rfl⟩
  | tradeData data =>
    have hst := stages_onTradeData (Q := fun _ => True) data d
    exact .inr ⟨(staged hst).1, stays (models_restaged h hst.1) (staged hst).2 rfl⟩
  | tradeRun data => exact hn.elim
  | price price =>
    by_cases hne : d.price = []
    · have hr := congrArg Outcome.state (run_onPrice_nil price hne)
      have hc := congrArg Outcome.calls (run_onPrice_nil price hne)
      exact .inr ⟨congrArg issued hc, stays h rfl hr⟩
    rcases hx : price.toFloat with y | x
    · have hr := congrArg Outcome.state (run_onPrice_error hne hx)
      have hc := congrArg Outcome.calls (run_onPrice_error hne hx)
      exact .inr ⟨congrArg issued hc, stays (models_prices h d.price.dropLast) rfl hr⟩
    · rcases places_or_waits (run_tick hf hp hne hx) with hi | ⟨hi, hd⟩
      · exact .inl hi
      · exact .inr ⟨hi, stays (models_prices h (x :: d.price.dropLast)) rfl hd⟩
  | orderReport r =>
    rcases places_or_waits (run_report hf) with hi | ⟨hi, hd⟩
    · exact .inl hi
    · exact .inr ⟨hi, stays (models_reported h r) rfl hd⟩
  | orderCompleteTimeout =>
    have ht := tickets_of_event h .orderCompleteTimeout
    have hi : issued (bot.emit d .orderCompleteTimeout) = [] := List.map_eq_nil_iff.mp ht
    exact .inr ⟨hi, _, (bot_simulates symbol).next h .orderCompleteTimeout, .inl rfl⟩

/-- Until a command comes, the first order of a waiting symbol is the one that it has. -/
theorem head_ordersOf (h : Models symbol d c) (hw : c.phase = .waiting) {es : List (Event ℚ)}
    (hn : ∀ e ∈ es, NoCommand e) :
    (ordersOf d es).head? = none ∨ (ordersOf d es).head? = some (nextOrder d) := by
  induction es generalizing d c with
  | nil => exact .inl rfl
  | cons e es ih =>
    rw [List.forall_mem_cons] at hn
    rw [ordersOf_cons]
    rcases waiting_next h hw hn.1 with hi | ⟨hi, c', hm, hp | ⟨hp, hd⟩⟩
    · exact .inr (by rw [hi]; rfl)
    · have hoff : (ordersOf (bot.next d e) es).map ticketOf = [] := by
        rw [tickets_of_run hm]
        exact off_run (.inl hp) (isStart_labels fun e' he' => not_isStart_of_noCommand (hn.2 e' he'))
      exact .inl (by rw [hi, List.map_eq_nil_iff.mp hoff]; rfl)
    · rw [hi, List.nil_append, ← hd]
      exact ih hm hp hn.2

/-! ### The commission of a buy -/

/-- A report that the order `id` was filled, at the price `p`, for a commission of `n` in the
asset `s`. -/
structure FillReport (r : Dict ℚ) (id s : String) (n p : ℚ) : Prop where
  id : textAt r "c" = some id
  filled : textAt r "X" = some "FILLED"
  asset : textAt r "N" = some s
  commission : ∃ j, r.item "n" = .ok j ∧ j.toFloat = .ok n
  price : s = "USDT" → ∃ j, r.item "p" = .ok j ∧ j.toFloat = .ok p ∧ p ≠ 0

/-- What a commission of `n` in the asset `s` costs of the quantity. -/
def charge (s : String) (n p : ℚ) : ℚ := if s = "USDT" then n / p else n

variable {r : Dict ℚ} {id s : String} {n p q : ℚ}

theorem commission_of_fillReport (h : FillReport r id s n p) :
    commission r = .ok (if s = "BNB" then none else some (charge s n p)) := by
  have hN := textAt_eq_some.mp h.asset
  obtain ⟨j, hn, hj⟩ := h.commission
  unfold commission charge
  by_cases hu : s = "USDT"
  · obtain ⟨jp, hp, hjp, hne⟩ := h.price hu
    subst hu
    simp [hN, hn, hj, hp, hjp, Json.isStr, divide, Runtime.isZero, hne, Runtime.div]
  · by_cases hb : s = "BNB"
    · simp [hN, hn, Json.isStr, hb]
    · simp [hN, hn, hj, Json.isStr, hu, hb]

/-- The next order of the symbol is a sale of at most `q - n`, in whole steps. -/
structure SellsAtMost (q n : ℚ) (d : SymbolData ℚ) : Prop where
  side : (nextOrder d).side = .SELL
  le : (nextOrder d).quantity ≤ q - n
  nonneg : 0 ≤ (nextOrder d).quantity
  steps : ∃ k : ℤ, (nextOrder d).quantity = k * d.stepSize

/-- A commission of `n` in the asset `s` leaves a quantity that rounds to whole steps, and not
above what was bought less the commission. -/
def RoundsBelow (s : String) (q n p stepSize : ℚ) : Prop :=
  if s = "BNB" then n = 0
  else ∃ k : ℤ, 0 ≤ k * stepSize ∧ k * stepSize ≤ q - n ∧
    IsNearest 6 (q - charge s n p) (k * stepSize)

/-- The symbol after the fill of its buy. -/
theorem sale_of_fill (hf : d.fsm = .WAIT_ORDER_FILL) (hs : d.step = 0) (he : d.Even)
    (hr : FillReport r (d.orders 0).newClientOrderId s n p) :
    (nextOrder (bot.next d (.orderReport r))).side = (d.orders 1).side ∧
      (nextOrder (bot.next d (.orderReport r))).quantity =
        (if s = "BNB" then (d.orders 0).quantity
          else roundTo ((d.orders 0).quantity - charge s n p) 6) ∧
      (bot.next d (.orderReport r)).stepSize = d.stepSize ∧
      (bot.next d (.orderReport r)).waitPrice = true := by
  have hc : textAt r "c" = some (d.reported r).currentOrder.newClientOrderId := by
    simpa [SymbolData.currentOrder, hs] using hr.id
  have hsettle : (d.reported r).filled.settle r = .ok (if s = "BNB" then (d.reported r).filled
      else (d.reported r).filled.charged (roundTo ((d.orders 0).quantity - charge s n p) 6)) := by
    rw [SymbolData.settle, commission_of_fillReport hr]
    by_cases hb : s = "BNB"
    · simp [hb]
    · simp [hb, hs, Runtime.sub, he.symm]
  obtain ⟨calls, hrun, -⟩ := returns_fsmWaitOrderFill (d := d.reported r) rfl hc hr.filled hsettle
  have hnext : bot.next d (.orderReport r) = (if s = "BNB" then (d.reported r).filled
      else (d.reported r).filled.charged
        (roundTo ((d.orders 0).quantity - charge s n p) 6)).reopened := by
    show ((onOrderReport r).run d).state = _
    rw [run_report hf]
    exact congrArg Outcome.state hrun
  rw [hnext]
  by_cases hb : s = "BNB"
  · simp [hb, nextOrder, SymbolData.currentOrder, hs, he.symm]
  · simp [hb, nextOrder, SymbolData.currentOrder, hs]

/-- A tracked buy is the order of the first side, and both sides have its quantity. -/
theorem tracked_buy {i : Fin 2} (h : Models symbol d c)
    (hf : d.fsm = .WAIT_ORDER_FILL) (hi : d.waitOrderFill = some i)
    (hb : (d.orders i).side = .BUY) : i = 0 ∧ d.step = 0 ∧ (d.orders 1).side = .SELL := by
  have hside (j : Fin 2) : (d.orders j).side.index = j := h.sides j
  have h0 : i = 0 := by rw [← hside i, hb]; rfl
  have hs := h.shows
  have hstep : d.step = i := by
    cases hp : c.phase <;> simp_all [Shows]
  refine ⟨h0, hstep.trans h0, index_inj.mp ?_⟩
  exact hside 1

/-- After the fill of a buy the next order without a command is the one that the symbol has
then. It sells no more than was got, in whole steps, if and only if what the commission leaves
rounds down to whole steps. -/
theorem sells_iff {es : List (Event ℚ)} {i : Fin 2}
    (hf : (bot.run (SymbolData.init symbol) es).fsm = .WAIT_ORDER_FILL)
    (hi : (bot.run (SymbolData.init symbol) es).waitOrderFill = some i)
    (hb : ((bot.run (SymbolData.init symbol) es).orders i).side = .BUY)
    (hq : ((bot.run (SymbolData.init symbol) es).orders i).quantity = q) (hpos : 0 < q)
    (hsteps : ∃ k : ℤ, q = k * (bot.run (SymbolData.init symbol) es).stepSize)
    (hr : FillReport r ((bot.run (SymbolData.init symbol) es).orders i).newClientOrderId symbol n p)
    (hn : 0 ≤ n) (hnq : n ≤ q) :
    (∀ es', (∀ e ∈ es', NoCommand e) → ∀ o ∈
      (ordersOf (bot.next (bot.run (SymbolData.init symbol) es) (.orderReport r)) es').head?,
        o = nextOrder (bot.next (bot.run (SymbolData.init symbol) es) (.orderReport r))) ∧
      (SellsAtMost q n (bot.next (bot.run (SymbolData.init symbol) es) (.orderReport r)) ↔
        RoundsBelow symbol q n p (bot.run (SymbolData.init symbol) es).stepSize) := by
  obtain ⟨c, hm⟩ := reachable_models symbol es
  obtain ⟨c', hm'⟩ := reachable_models symbol (es ++ [.orderReport r])
  rw [Machine.run_append, Machine.run_cons, Machine.run_nil] at hm'
  have he := reachable_even symbol es
  generalize bot.run (SymbolData.init symbol) es = d at *
  obtain ⟨rfl, hstep, hsell⟩ := tracked_buy hm hf hi hb
  obtain ⟨hside, hquantity, hsize, hwait⟩ := sale_of_fill hf hstep he hr
  rw [hq] at hquantity
  rw [hsell] at hside
  refine ⟨fun es' hn' o ho => ?_, ?_⟩
  · rcases head_ordersOf hm' ((waitPrice_iff hm').mp hwait) hn' with h | h
    · simp [h] at ho
    · simpa [h] using ho.symm
  by_cases hs : symbol = "BNB"
  · rw [RoundsBelow, if_pos hs]
    rw [if_pos hs] at hquantity
    constructor
    · intro h
      have := h.le
      rw [hquantity] at this
      linarith
    · rintro rfl
      exact ⟨hside, by rw [hquantity]; linarith, by rw [hquantity]; linarith,
        by rwa [hquantity, hsize]⟩
  · rw [RoundsBelow, if_neg hs]
    rw [if_neg hs] at hquantity
    constructor
    · intro h
      obtain ⟨k, hk⟩ := h.steps
      rw [hsize] at hk
      refine ⟨k, hk ▸ h.nonneg, hk ▸ h.le, ?_⟩
      rw [← roundTo_eq_iff, ← hquantity, hk]
    · rintro ⟨k, h0, hle, hk⟩
      rw [← roundTo_eq_iff, ← hquantity] at hk
      exact ⟨hside, by rwa [hk], by rwa [hk], k, by rw [hk, hsize]⟩

/-! ### One bitcoin -/

/-- The buy of one bitcoin was filled for a commission of `n`. -/
def boughtOne (n : String) : Dict ℚ :=
  streamReport "BTCUSDT" "FILLED" "order_USDT_to_BTC_0" "BTC" n "10"

theorem fillReport_boughtOne {n : String} {x : ℚ} (h : Runtime.floatOfStr n = some x) :
    FillReport (boughtOne n) "order_USDT_to_BTC_0" "BTC" x 10 where
  id := rfl
  filled := rfl
  asset := rfl
  commission := ⟨.str n, rfl, by simp [Json.toFloat, h]⟩
  price := by simp

/-- The buy of one bitcoin waits for its fill; the step size is a millionth. -/
theorem confirmedOrder_buys :
    (bot.run (SymbolData.init (F := ℚ) "BTC") confirmedOrder).fsm = .WAIT_ORDER_FILL ∧
      (bot.run (SymbolData.init (F := ℚ) "BTC") confirmedOrder).waitOrderFill = some 0 ∧
      ((bot.run (SymbolData.init (F := ℚ) "BTC") confirmedOrder).orders 0).side = .BUY ∧
      ((bot.run (SymbolData.init (F := ℚ) "BTC") confirmedOrder).orders 0).quantity = 1 ∧
      ((bot.run (SymbolData.init (F := ℚ) "BTC") confirmedOrder).orders 0).newClientOrderId =
        "order_USDT_to_BTC_0" ∧
      (bot.run (SymbolData.init (F := ℚ) "BTC") confirmedOrder).stepSize = 1 / 1000000 := by
  decide +kernel

theorem sells_boughtOne : SellsAtMost 1 (1 / 1000)
    (bot.next (bot.run (SymbolData.init "BTC") confirmedOrder)
      (.orderReport (boughtOne "0.001"))) := by
  obtain ⟨hf, hi, hb, hq, hid, hz⟩ := confirmedOrder_buys
  refine (sells_iff (p := 10) hf hi hb hq (by decide) ⟨1000000, by rw [hz]; norm_num⟩
    (hid ▸ fillReport_boughtOne (by decide +kernel)) (by norm_num) (by norm_num)).2.mpr ?_
  rw [RoundsBelow, if_neg (by decide), hz]
  have hcharge : charge "BTC" (1 / 1000) 10 = 1 / 1000 := if_neg (by decide)
  refine ⟨999000, by norm_num, by norm_num, 999000, by norm_num, .inl ?_⟩
  rw [hcharge]
  norm_num

/-- What is left of one bitcoin is rounded up to one bitcoin. -/
theorem sells_more_than_bought :
    (bot.run (SymbolData.init (F := ℚ) "BTC") confirmedOrder).fsm = .WAIT_ORDER_FILL ∧
      (bot.run (SymbolData.init (F := ℚ) "BTC") confirmedOrder).waitOrderFill = some 0 ∧
      ((bot.run (SymbolData.init (F := ℚ) "BTC") confirmedOrder).orders 0).side = .BUY ∧
      ((bot.run (SymbolData.init (F := ℚ) "BTC") confirmedOrder).orders 0).quantity = 1 ∧
      (bot.run (SymbolData.init (F := ℚ) "BTC") confirmedOrder).stepSize = 1 / 1000000 ∧
      FillReport (boughtOne "0.0000004") "order_USDT_to_BTC_0" "BTC" (4 / 10000000) 10 ∧
      ¬SellsAtMost 1 (4 / 10000000)
        (bot.next (bot.run (SymbolData.init "BTC") confirmedOrder)
          (.orderReport (boughtOne "0.0000004"))) := by
  obtain ⟨hf, hi, hb, hq, -, hz⟩ := confirmedOrder_buys
  refine ⟨hf, hi, hb, hq, hz, fillReport_boughtOne (by decide +kernel), fun h => ?_⟩
  have hone : (nextOrder (bot.next (bot.run (SymbolData.init "BTC") confirmedOrder)
      (.orderReport (boughtOne "0.0000004")))).quantity = 1 := by decide +kernel
  have hle := h.le
  rw [hone] at hle
  norm_num at hle

end BotTrader.Control
