import BotTrader.Python.Rounding
import BotTrader.Strategy.EventSpecs

/-! What the methods of a symbol leave alone. Only `on_price` touches the price history, the
banner stays one, and the two orders have the same quantity as long as quantities can be
rounded, which exact numbers always can. -/

namespace BotTrader.Strategy

open Automata Handler Python Rational

section Frames

variable {F : Type} [Runtime F]

/-- Every quantity can be rounded. -/
def Rounds (F : Type) [Runtime F] : Prop :=
  ∀ val step : F, ∃ q, SymbolData.roundAtStep val step = .ok q

/-- Both orders have one quantity. -/
def SymbolData.Even (d : SymbolData F) : Prop := (d.orders 0).quantity = (d.orders 1).quantity

/-- What all methods but `on_price` keep. -/
structure Steady (d d' : SymbolData F) : Prop where
  price : d'.price = d.price
  banner : d'.tradeState.e = d.tradeState.e
  even : Rounds F → d.Even → d'.Even

theorem steady_refl (d : SymbolData F) : Steady d d := ⟨rfl, rfl, fun _ => id⟩

theorem steady_trans {d d' d'' : SymbolData F} (h : Steady d d') (h' : Steady d' d'') :
    Steady d d'' :=
  ⟨h'.price.trans h.price, h'.banner.trans h.banner, fun hr => h'.even hr ∘ h.even hr⟩

/-- From `d` the handler is steady. -/
abbrev StaysSteady {α : Type} (h : Py F α) (d : SymbolData F) : Prop :=
  h.Keeps Steady (fun _ => True) d

variable {α : Type} {h : Py F α} {d : SymbolData F}

theorem steady_of_run (hr : Steady d (h.run d).state) : StaysSteady h d := ⟨hr, fun _ _ => trivial⟩

theorem steady_lastReport (d : SymbolData F) : StaysSteady lastReport d := by
  refine steady_of_run ?_
  rcases hr : d.report with _ | r <;> simp [lastReport, run_bind, hr, steady_refl]

theorem steady_fsmResume (d : SymbolData F) : StaysSteady fsmResume d :=
  steady_of_run ⟨rfl, rfl, fun _ => id⟩

theorem steady_fsmWaitOrderCompl (d : SymbolData F) : StaysSteady fsmWaitOrderCompl d := by
  refine keeps_tryExcept steady_trans ?_ fun d _ => keeps_pure steady_refl _
  refine (steady_lastReport d).bind steady_trans fun r d _ => ?_
  refine keeps_self_bind (keeps_attempt_bind steady_refl fun b _ => ?_)
  cases b <;> exact steady_of_run ⟨rfl, rfl, fun _ => id⟩

theorem steady_fsmWaitOrderDel (d : SymbolData F) : StaysSteady fsmWaitOrderDel d := by
  refine (steady_lastReport d).bind steady_trans fun r d _ => ?_
  refine keeps_attempt_bind steady_refl fun x _ => keeps_ite (fun _ => ?_) fun _ =>
    keeps_pure steady_refl _
  refine steady_of_run ?_
  cases hm : d.changeMode <;> simp [run_bind, hm] <;> exact ⟨rfl, rfl, fun _ => id⟩

theorem steady_fsmInPrice (d : SymbolData F) : StaysSteady fsmInPrice d := by
  have hq (i : Fin 2) : (d.placed.orders i).quantity = (d.orders i).quantity := by
    rw [orders_placed]
  have hs : Steady d d.placed := ⟨by simp, rfl, fun _ he => by simpa only [SymbolData.Even, hq] using he⟩
  obtain ⟨calls, hr, -⟩ := returns_fsmInPrice d
  exact steady_of_run (by rwa [hr])

theorem steady_fsmWaitPrice (d : SymbolData F) : StaysSteady fsmWaitPrice d := by
  refine keeps_self_bind (keeps_attempt_bind steady_refl fun b _ => keeps_ite (fun _ => ?_)
    fun _ => keeps_pure steady_refl _)
  refine (keeps_update ⟨rfl, rfl, fun _ => id⟩).bind steady_trans fun _ d _ => ?_
  exact (keeps_update ⟨rfl, rfl, fun _ => id⟩).bind steady_trans fun _ d _ => steady_fsmInPrice d

/-- A commission that is taken off leaves both orders with the same quantity. -/
theorem steady_payCommission (r : Dict F) (d : SymbolData F) : StaysSteady (payCommission r) d := by
  obtain ⟨msg, hr⟩ := run_payCommission r d
  refine steady_of_run ?_
  rw [hr]
  rcases commission r with x | _ | cmsn
  · exact steady_refl d
  · exact steady_refl d
  show Steady d ((takeCommission cmsn msg).run d).state
  rcases hq : SymbolData.roundAtStep (Runtime.sub (d.orders d.step).quantity cmsn) d.stepSize
    with x | q
  · obtain ⟨y, calls, hc, -⟩ := takeCommission_error msg hq
    rw [hc]
    exact ⟨rfl, rfl, fun hround => by obtain ⟨q, hq'⟩ := hround _ _; cases hq.symm.trans hq'⟩
  · obtain ⟨calls, hc, -⟩ := takeCommission_ok msg hq
    rw [hc]
    exact ⟨rfl, rfl, fun _ _ => rfl⟩

theorem steady_fsmWaitOrderFill (d : SymbolData F) : StaysSteady fsmWaitOrderFill d := by
  refine (steady_lastReport d).bind steady_trans fun r d _ => ?_
  refine keeps_self_bind (keeps_attempt_bind steady_refl fun b _ => keeps_ite (fun _ => ?_)
    fun _ => keeps_pure steady_refl _)
  iterate 6 refine (steady_of_run ⟨rfl, rfl, fun _ => id⟩).bind steady_trans fun _ d _ => ?_
  refine (steady_payCommission r d).bind steady_trans fun _ d _ => ?_
  exact steady_of_run ⟨rfl, rfl, fun _ => id⟩

theorem steady_fsmRun (d : SymbolData F) : StaysSteady fsmRun d := by
  rw [StaysSteady, Keeps, run_fsmRun]
  cases d.fsm with
  | WAIT_PRICE => exact steady_fsmWaitPrice d
  | IN_PRICE => exact steady_fsmInPrice d
  | WAIT_ORDER_CMPL => exact steady_fsmWaitOrderCompl d
  | WAIT_ORDER_FILL => exact steady_fsmWaitOrderFill d
  | WAIT_ORDER_DEL => exact steady_fsmWaitOrderDel d
  | RESUME => exact steady_fsmResume d
  | START | READY | STOP => exact ⟨⟨rfl, rfl, fun _ => id⟩, fun _ _ => trivial⟩

/-! ### Events -/

theorem steady_deleteWaitOrder (d : SymbolData F) : StaysSteady deleteWaitOrder d := by
  refine keeps_self_bind ?_
  cases d.waitOrderFill <;> exact steady_of_run ⟨rfl, rfl, fun _ => id⟩

theorem steady_changeTrade (side : Json F) (d : SymbolData F) : StaysSteady (changeTrade side) d := by
  refine keeps_self_bind ?_
  -- Both orders take over the staged quantity.
  refine (keeps_update ⟨rfl, rfl, fun _ _ => rfl⟩).bind steady_trans fun _ d _ => ?_
  refine (keeps_call steady_refl trivial).bind steady_trans fun _ d _ => ?_
  refine keeps_self_bind ((steady_of_run ⟨rfl, rfl, fun _ => id⟩).bind steady_trans fun _ d _ => ?_)
  refine keeps_self_bind (keeps_ite (fun _ => ?_) fun _ => steady_of_run ⟨rfl, rfl, fun _ => id⟩)
  refine (keeps_update ⟨rfl, rfl, fun _ => id⟩).bind steady_trans fun _ d _ => ?_
  exact (steady_deleteWaitOrder d).bind steady_trans fun _ d _ => steady_of_run ⟨rfl, rfl, fun _ => id⟩

theorem steady_stopTrade (d : SymbolData F) : StaysSteady stopTrade d := by
  refine keeps_self_bind ((keeps_call steady_refl trivial).bind steady_trans fun _ d _ => ?_)
  refine keeps_self_bind (keeps_ite (fun _ => ?_) fun _ => ?_)
  · exact (steady_deleteWaitOrder d).bind steady_trans fun _ d _ => steady_of_run ⟨rfl, rfl, fun _ => id⟩
  · exact (keeps_update ⟨rfl, rfl, fun _ => id⟩).bind steady_trans fun _ d _ => steady_fsmRun d

theorem steady_onTradeRun (data : Dict F) (d : SymbolData F) : StaysSteady (onTradeRun data) d := by
  refine keeps_attempt_bind steady_refl fun a _ => keeps_attempt_bind steady_refl fun side _ => ?_
  refine keeps_self_bind ?_
  split
  · split
    · refine Keeps.bind steady_trans (steady_of_run ?_) fun _ d _ => steady_fsmRun d
      obtain ⟨calls, hr, -⟩ := returns_beginTrade side d
      rw [hr]
      exact ⟨rfl, rfl, fun _ _ => rfl⟩
    · exact steady_of_run ⟨rfl, rfl, fun _ => id⟩
  · split
    · exact steady_changeTrade side d
    · exact steady_stopTrade d

theorem steady_onFilter (filter : Json F) (d : SymbolData F) : StaysSteady (onFilter filter) d := by
  refine keeps_attempt_bind steady_refl fun type _ => ?_
  split
  · exact keeps_attempt_bind steady_refl fun x _ => steady_of_run ⟨rfl, rfl, fun _ => id⟩
  split
  · exact keeps_attempt_bind steady_refl fun x _ => steady_of_run ⟨rfl, rfl, fun _ => id⟩
  split
  · refine keeps_attempt_bind steady_refl fun x _ => ?_
    refine (keeps_update ⟨rfl, rfl, fun _ => id⟩).bind steady_trans fun _ d _ => ?_
    exact keeps_attempt_bind steady_refl fun x _ => steady_of_run ⟨rfl, rfl, fun _ => id⟩
  split
  · exact keeps_attempt_bind steady_refl fun x _ => steady_of_run ⟨rfl, rfl, fun _ => id⟩
  · exact keeps_pure steady_refl _

theorem steady_onExchangeInfo (info : Dict F) (d : SymbolData F) :
    StaysSteady (onExchangeInfo info) d := by
  refine keeps_attempt_bind steady_refl fun n _ => ?_
  refine (keeps_update ⟨rfl, rfl, fun _ => id⟩).bind steady_trans fun _ d _ => ?_
  refine keeps_attempt_bind steady_refl fun m _ => ?_
  refine (keeps_update ⟨rfl, rfl, fun _ => id⟩).bind steady_trans fun _ d _ => ?_
  refine keeps_attempt_bind steady_refl fun items _ => ?_
  exact keeps_forM steady_refl steady_trans items (fun f _ d => steady_onFilter f d) d

theorem steady_stageData (data : Dict F) (d : SymbolData F) : StaysSteady (stageData data) d := by
  iterate 4
    refine keeps_attempt_bind steady_refl fun x _ => ?_
    refine (keeps_update ⟨rfl, rfl, fun _ => id⟩).bind steady_trans fun _ d _ => ?_
  exact keeps_attempt_bind steady_refl fun x _ => steady_of_run ⟨rfl, rfl, fun _ => id⟩

theorem steady_onTradeData (data : Dict F) (d : SymbolData F) :
    StaysSteady (onTradeData data) d := by
  refine Keeps.bind steady_trans (keeps_tryExcept steady_trans ?_ fun d _ =>
    keeps_pure steady_refl _) fun reply d _ => steady_of_run ⟨rfl, rfl, fun _ => id⟩
  refine keeps_attempt_bind steady_refl fun a _ => keeps_ite (fun _ => ?_) fun _ =>
    steady_of_run ⟨rfl, rfl, fun _ => id⟩
  refine (steady_stageData _ d).bind steady_trans fun _ d _ => ?_
  refine keeps_self_bind (keeps_ite (fun _ => ?_) fun _ => steady_of_run ⟨rfl, rfl, fun _ => id⟩)
  refine Keeps.bind steady_trans ?_ fun _ d _ => steady_of_run ⟨rfl, rfl, fun _ => id⟩
  exact (keeps_update ⟨rfl, rfl, fun _ => id⟩).bind steady_trans fun _ d _ => steady_fsmRun d

/-- Every event but a price is steady. -/
theorem steady_event {e : Event F} (he : ∀ price, e ≠ .price price) (d : SymbolData F) :
    Steady d (bot.next d e) := by
  suffices StaysSteady e.handler d from this.1
  cases e with
  | exchangeInfo info => exact steady_onExchangeInfo info d
  | tradeData data => exact steady_onTradeData data d
  | tradeRun data => exact steady_onTradeRun data d
  | price price => exact absurd rfl (he price)
  | orderReport r =>
    refine (keeps_update ⟨rfl, rfl, fun _ => id⟩).bind steady_trans fun _ d _ => ?_
    exact keeps_self_bind (keeps_ite (fun _ => steady_fsmRun d) fun _ => keeps_pure steady_refl _)
  | orderCompleteTimeout =>
    refine keeps_self_bind ?_
    iterate 6 refine (steady_of_run ⟨rfl, rfl, fun _ => id⟩).bind steady_trans fun _ d _ => ?_
    exact steady_fsmRun d

/-- A price is put in front, and the oldest one is taken off, also if the new one is not a
number. The rest is steady. -/
theorem next_price (d : SymbolData F) (price : Json F) :
    Steady { d with price := match d.price, price.toFloat with
      | [], _ => []
      | p :: ps, .ok x => x :: (p :: ps).dropLast
      | p :: ps, .error _ => (p :: ps).dropLast } (bot.next d (.price price)) := by
  show Steady _ ((onPrice price).run d).state
  rcases hp : d.price with _ | ⟨p, ps⟩
  · rw [run_onPrice_nil _ hp]
    exact ⟨hp, rfl, fun _ => id⟩
  have hne : d.price ≠ [] := by simp [hp]
  rcases hx : price.toFloat with y | x
  · rw [run_onPrice_error hne hx]
    exact ⟨by simp [hp], rfl, fun _ => id⟩
  · have hd : Steady { d with price := x :: (p :: ps).dropLast } (d.priced x) :=
      ⟨by simp [hp], rfl, fun _ => id⟩
    rw [run_onPrice_ok hne hx]
    by_cases hw : d.waitPrice = true
    · rw [if_pos hw]
      exact steady_trans hd (steady_fsmRun (d.priced x)).1
    · rw [if_neg hw]
      exact hd

theorem banner_next (d : SymbolData F) (e : Event F) :
    (bot.next d e).tradeState.e = d.tradeState.e := by
  by_cases hp : ∃ price, e = .price price
  · obtain ⟨price, rfl⟩ := hp
    exact (next_price d price).banner
  · exact (steady_event (fun price h => hp ⟨price, h⟩) d).banner

theorem even_next (hr : Rounds F) (he : d.Even) (e : Event F) : (bot.next d e).Even := by
  by_cases hp : ∃ price, e = .price price
  · obtain ⟨price, rfl⟩ := hp
    exact (next_price d price).even hr he
  · exact (steady_event (fun price h => hp ⟨price, h⟩) d).even hr he

/-- The banner of a reachable symbol is one. -/
theorem reachable_banner (symbol : String) (es : List (Event F)) :
    (bot.run (SymbolData.init symbol) es).tradeState.e = "tradeState" :=
  Machine.run_invariant (fun d : SymbolData F => d.tradeState.e = "tradeState")
    (P := fun _ _ => True) (fun d e hd _ => (banner_next d e).trans hd) rfl
    (Machine.along_of_forall _ (fun _ _ => trivial) _ _)

/-- A price that is a number. -/
def Numeric : Event F → Prop
  | .price price => ∃ x, price.toFloat = .ok x
  | _ => True

theorem length_price_of_numeric {e : Event F} (he : Numeric e) (d : SymbolData F) :
    (bot.next d e).price.length = d.price.length := by
  cases e with
  | price price =>
    obtain ⟨x, hx⟩ := he
    rw [(next_price d price).price, hx]
    cases d.price <;> simp
  | _ => rw [(steady_event (by simp) d).price]

theorem length_price_of_not_numeric {e : Event F} (he : ¬Numeric e) (d : SymbolData F) :
    (bot.next d e).price.length = d.price.length - 1 := by
  cases e with
  | price price =>
    rcases hx : price.toFloat with y | x
    · rw [(next_price d price).price, hx]
      cases d.price <;> simp
    · exact absurd ⟨x, hx⟩ he
  | _ => exact absurd trivial he

theorem length_price_run_le (d : SymbolData F) (es : List (Event F)) :
    (bot.run d es).price.length ≤ d.price.length := by
  induction es generalizing d with
  | nil => exact Nat.le_refl _
  | cons e es ih =>
    have hn : (bot.next d e).price.length ≤ d.price.length := by
      by_cases he : Numeric e
      · rw [length_price_of_numeric he]
      · rw [length_price_of_not_numeric he]
        omega
    exact (ih (bot.next d e)).trans hn

/-- The price history keeps its length as long as all prices are numbers. -/
theorem length_price_run_iff (d : SymbolData F) (hd : d.price ≠ []) (es : List (Event F)) :
    (bot.run d es).price.length = d.price.length ↔ ∀ e ∈ es, Numeric e := by
  induction es generalizing d with
  | nil => simp
  | cons e es ih =>
    have hpos := List.length_pos_iff.mpr hd
    rw [Machine.run_cons, List.forall_mem_cons]
    by_cases he : Numeric e
    · have hl := length_price_of_numeric he d
      have hne : (bot.next d e).price ≠ [] := List.length_pos_iff.mp (by omega)
      rw [← hl, ih _ hne]
      exact (and_iff_right he).symm
    · have hl := length_price_of_not_numeric he d
      have hle := length_price_run_le (bot.next d e) es
      refine iff_of_false ?_ fun h => he h.1
      omega

/-- The price history of a reachable symbol has two entries at most, and both of them if and
only if every price so far was a number. -/
theorem reachable_price (symbol : String) (es : List (Event F)) :
    (bot.run (SymbolData.init symbol) es).price.length ≤ 2 ∧
      ((bot.run (SymbolData.init symbol) es).price.length = 2 ↔ ∀ e ∈ es, Numeric e) :=
  ⟨length_price_run_le _ es, length_price_run_iff (SymbolData.init symbol) (by simp [SymbolData.init]) es⟩

end Frames

/-! ### Exact numbers -/

@[simp] theorem run_roundAtStep (val step : ℚ) :
    SymbolData.roundAtStep val step = .ok (roundTo val 6) := by
  simp [SymbolData.roundAtStep, Runtime.fixed, fractionLength_decimal, Runtime.round]

/-- The two orders of a reachable symbol have one quantity. -/
theorem reachable_even (symbol : String) (es : List (Event ℚ)) :
    (bot.run (SymbolData.init symbol) es).Even :=
  Machine.run_invariant SymbolData.Even (P := fun _ _ => True)
    (fun _ e he _ => even_next (fun val step => ⟨_, run_roundAtStep val step⟩) he e) rfl
    (Machine.along_of_forall _ (fun _ _ => trivial) _ _)

end BotTrader.Strategy
