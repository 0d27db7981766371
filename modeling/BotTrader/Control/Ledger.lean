import BotTrader.Control.Commission
import BotTrader.Strategy.Labels

/-! The quantity of a symbol over a whole run. Only a start sets it; after that each fill whose
commission can be read takes this commission off and rounds what is left, and every order goes
out with what the fills before it have left. -/

namespace BotTrader.Control

open Automata Handler Python Rational Strategy

/-- The commission that an event takes off. -/
def booked (d : SymbolData ℚ) : Event ℚ → Option ℚ
  | .orderReport r =>
    if d.fsm = .WAIT_ORDER_FILL ∧ textAt r "c" = some d.currentOrder.newClientOrderId ∧
        textAt r "X" = some "FILLED" then
      match commission r with
      | .ok c => c
      | .error _ => none
    else none
  | _ => none

/-- The symbol, of whose events only the commissions are seen. -/
def books : Machine (SymbolData ℚ) (Event ℚ) ℚ where
  next := bot.next
  emit d e := (booked d e).toList

/-- The commissions that a run takes off, oldest first. -/
def ledger (d : SymbolData ℚ) (es : List (Event ℚ)) : List ℚ := books.emitted d es

/-- What commissions leave of a quantity. -/
def lessCommissions (cs : List ℚ) (q : ℚ) : ℚ := cs.foldl (fun q c => roundTo (q - c) 6) q

theorem lessCommissions_append (cs cs' : List ℚ) (q : ℚ) :
    lessCommissions (cs ++ cs') q = lessCommissions cs' (lessCommissions cs q) := List.foldl_append

/-- The label that is the quantity of an order. -/
abbrev quantityLabel : OrderKind → ℚ → ℚ := fun _ q => q

/-- Both orders of the symbol have the quantity `q`. -/
abbrev Holds (s : String) (q : ℚ) : SymbolData ℚ → Prop := Bears quantityLabel s q

variable {s : String} {q : ℚ} {d : SymbolData ℚ} {e : Event ℚ}

/-- An event takes its commission off, and every order of it has the quantity from before. -/
structure Keeps (s : String) (q : ℚ) (d : SymbolData ℚ) (e : Event ℚ) : Prop where
  holds : Holds s (lessCommissions (booked d e).toList q) (bot.next d e)
  orders : ∀ o ∈ issued (bot.emit d e), o.quantity = q

theorem quantity_of_bears {calls : List (Call ℚ)} (h : ∀ c ∈ calls, c.Bears quantityLabel s q) :
    ∀ o ∈ issued calls, o.quantity = q := by
  intro o ho
  obtain ⟨c, hc, hco⟩ := List.mem_filterMap.mp ho
  cases c with
  | execOrder o' =>
    obtain rfl := Option.some.inj hco
    exact h _ hc
  | _ => cases hco

/-- An event of which the exchange sees no order. -/
theorem keeps_of_bears (hb : booked d e = none)
    (h : Holds s q (e.handler.run d).state ∧
      ∀ c ∈ (e.handler.run d).calls, c.Bears quantityLabel s q) : Keeps s q d e :=
  ⟨by rw [hb]; exact h.1, quantity_of_bears h.2⟩

/-! ### Fills -/

/-- A fill whose commission cannot be read is taken all the same. -/
theorem state_fsmWaitOrderFill_unread {r : Dict ℚ} {x : Exc} (h : d.report = some r)
    (hc : textAt r "c" = some d.currentOrder.newClientOrderId) (hx : textAt r "X" = some "FILLED")
    (hcm : commission r = .error x) : (fsmWaitOrderFill.run d).state = d.filled := by
  have hr := confirms_eq_true.2 ⟨hc, hx⟩
  obtain ⟨msg, hp⟩ := run_payCommission r d.filled
  rw [hcm] at hp
  simp only [SymbolData.filled, h] at hp
  simp [fsmWaitOrderFill, run_bind, h, hr, hp, SymbolData.filled]

/-- A report to a symbol that waits for its fill, by what the handler of this state does. -/
theorem keeps_of_leaves {r : Dict ℚ} {d' : SymbolData ℚ} {acts : List (Act ℚ)}
    (hf : d.fsm = .WAIT_ORDER_FILL) (hl : fsmWaitOrderFill.Leaves Call.act? (d.reported r) d' acts)
    (ha : acts.filterMap Act.ticket? = [])
    (hq : Holds s (lessCommissions (booked d (.orderReport r)).toList q) d') :
    Keeps s q d (.orderReport r) := by
  have hnext : bot.next d (.orderReport r) = d' :=
    (congrArg Outcome.state (run_report hf)).trans hl.1
  have hemit : bot.emit d (.orderReport r) = (fsmWaitOrderFill.run (d.reported r)).calls :=
    congrArg Outcome.calls (run_report hf)
  have ht := tickets_of_calls (bot.emit d (.orderReport r))
  rw [hemit, hl.2, ha] at ht
  refine ⟨hnext ▸ hq, ?_⟩
  rw [hemit, List.map_eq_nil_iff.mp ht]
  simp

/-- A fill that is taken leaves the quantity less the commission, if that can be read. -/
theorem keeps_fill {r : Dict ℚ} (hf : d.fsm = .WAIT_ORDER_FILL) (hd : Holds s q d)
    (hc : textAt r "c" = some d.currentOrder.newClientOrderId)
    (hx : textAt r "X" = some "FILLED") : Keeps s q d (.orderReport r) := by
  have hbook : booked d (.orderReport r) = match commission r with
      | .ok c => c
      | .error _ => none := by
    rw [booked, if_pos ⟨hf, hc, hx⟩]
  rcases hcm : commission r with x | _ | n
  · have hset : (d.reported r).filled.settle r = .error x := by simp [SymbolData.settle, hcm]
    obtain ⟨_, hraise⟩ := raises_fsmWaitOrderFill (d := d.reported r) rfl hc hx hset
    have hstate := state_fsmWaitOrderFill_unread (d := d.reported r) rfl hc hx hcm
    refine keeps_of_leaves hf ⟨hstate, hraise.leaves.2⟩ rfl ?_
    rw [hbook, hcm]
    exact ⟨hd.symbol, hd.orders⟩
  · have hset : (d.reported r).filled.settle r = .ok (d.reported r).filled := by
      simp [SymbolData.settle, hcm]
    have hl := (returns_fsmWaitOrderFill (d := d.reported r) rfl hc hx hset).leaves
    refine keeps_of_leaves hf hl rfl ?_
    rw [hbook, hcm]
    exact ⟨hd.symbol, hd.orders⟩
  · have hquant : ((d.reported r).filled.orders (d.reported r).filled.step).quantity = q :=
      hd.orders _
    have hset : (d.reported r).filled.settle r =
        .ok ((d.reported r).filled.charged (roundTo (q - n) 6)) := by
      simp only [SymbolData.settle, hcm, except_ok_bind, hquant, run_roundAtStep, except_pure]
      rfl
    have hl := (returns_fsmWaitOrderFill (d := d.reported r) rfl hc hx hset).leaves
    refine keeps_of_leaves hf hl rfl ?_
    rw [hbook, hcm]
    exact ⟨hd.symbol, fun _ => rfl⟩

/-! ### Every event but a start -/

theorem keeps_report (r : Dict ℚ) (hd : Holds s q d) : Keeps s q d (.orderReport r) := by
  by_cases hf : d.fsm = .WAIT_ORDER_FILL
  · by_cases hr : textAt r "c" = some d.currentOrder.newClientOrderId ∧ textAt r "X" = some "FILLED"
    · exact keeps_fill hf hd hr.1 hr.2
    · have hbook : booked d (.orderReport r) = none := if_neg fun h => hr h.2
      have hl : fsmWaitOrderFill.Leaves Call.act? (d.reported r) (d.reported r) [] :=
        (fsmWaitOrderFill_of_ne (d := d.reported r) rfl hr).elim (·.leaves) (·.leaves)
      refine keeps_of_leaves hf hl rfl ?_
      rw [hbook]
      exact ⟨hd.symbol, hd.orders⟩
  · refine keeps_of_bears (if_neg fun h => hf h.1) ?_
    have hd' : Holds s q (d.reported r) := ⟨hd.symbol, hd.orders⟩
    have hrun := run_onOrderReport r d
    by_cases hs : d.fsm = .RESUME
    · rw [if_pos hs] at hrun
      exact ⟨by rw [Event.handler, hrun]; exact hd', by rw [Event.handler, hrun]; simp⟩
    · rw [if_neg hs] at hrun
      rw [Event.handler, hrun]
      exact bears_fsmRun hd' hf

theorem keeps_price (price : Json ℚ) (hw : d.waitPrice = true → d.fsm = .WAIT_PRICE)
    (hd : Holds s q d) : Keeps s q d (.price price) := by
  refine keeps_of_bears rfl ?_
  show Holds s q ((onPrice price).run d).state ∧ ∀ c ∈ ((onPrice price).run d).calls, _
  by_cases hp : d.price = []
  · rw [run_onPrice_nil price hp]
    exact ⟨hd, by simp⟩
  rcases hx : price.toFloat with y | x
  · rw [run_onPrice_error hp hx]
    exact ⟨⟨hd.symbol, hd.orders⟩, by simp⟩
  · have hd' : Holds s q (d.priced x) := ⟨hd.symbol, hd.orders⟩
    rw [run_onPrice_ok hp hx]
    split
    · next hwait => exact bears_fsmRun hd' (by simp [hw hwait])
    · exact ⟨hd', by simp⟩

theorem keeps_tradeRun (data : Dict ℚ) (he : ¬IsStart (.tradeRun data : Event ℚ))
    (hd : Holds s q d) : Keeps s q d (.tradeRun data) := by
  refine keeps_of_bears rfl ?_
  show Holds s q ((onTradeRun data).run d).state ∧ ∀ c ∈ ((onTradeRun data).run d).calls, _
  rcases ha : data.lookup "a" with _ | a
  · rw [run_onTradeRun_keyError (.inl ha)]
    exact ⟨hd, by simp⟩
  rcases hp : data.lookup "p" with _ | side
  · rw [run_onTradeRun_keyError (.inr hp)]
    exact ⟨hd, by simp⟩
  have hgo : ¬a.isStr "start" = true := fun h => he ⟨a, ha, h⟩
  rw [run_onTradeRun ha hp, if_neg hgo, if_neg hgo]
  split
  · exact carries_refuseStop d hd
  · exact carries_stopTrade d hd

theorem keeps_next (hw : d.waitPrice = true → d.fsm = .WAIT_PRICE) (he : ¬IsStart e)
    (hd : Holds s q d) : Keeps s q d e := by
  cases e with
  | exchangeInfo info => exact keeps_of_bears rfl (carries_onExchangeInfo info d hd)
  | tradeData data => exact keeps_of_bears rfl (carries_onTradeData data d hd)
  | tradeRun data => exact keeps_tradeRun data he hd
  | price price => exact keeps_price price hw hd
  | orderReport r => exact keeps_report r hd
  | orderCompleteTimeout => exact keeps_of_bears rfl (carries_onOrderCompleteTimeout d hd)

/-! ### Runs without a start -/

/-- After a run the quantity is what all its commissions have left. -/
theorem holds_run {c : State ℚ} {symbol : String} (hm : Models symbol d c) (hd : Holds s q d)
    {es : List (Event ℚ)} (he : ∀ e ∈ es, ¬IsStart e) :
    Holds s (lessCommissions (ledger d es) q) (bot.run d es) := by
  induction es generalizing d c q with
  | nil => exact hd
  | cons e es ih =>
    rw [List.forall_mem_cons] at he
    have hone := keeps_next (fun hw => (flagsConsistent_of_models hm).waitPrice.mp hw) he.1 hd
    have hrest := ih ((bot_simulates symbol).next hm e) hone.holds he.2
    rw [← lessCommissions_append] at hrest
    exact hrest

/-- An order goes out with what the commissions taken before it have left. -/
theorem quantity_ordersAt {c : State ℚ} {symbol : String} (hm : Models symbol d c)
    (hd : Holds s q d) {es : List (Event ℚ)} (he : ∀ e ∈ es, ¬IsStart e) {k : ℕ} {o : Order ℚ}
    (ho : o ∈ ordersAt d es k) : o.quantity = lessCommissions (ledger d (es.take k)) q := by
  rw [ordersAt] at ho
  split at ho
  · next e hk =>
    have hbefore : Holds s (lessCommissions (ledger d (es.take k)) q) (bot.run d (es.take k)) :=
      holds_run hm hd fun e hk => he e (List.mem_of_mem_take hk)
    have hmodels := (bot_simulates symbol).run hm (es.take k)
    have hone := keeps_next (fun hw => (flagsConsistent_of_models hmodels).waitPrice.mp hw)
      (he e (List.mem_of_getElem? hk)) hbefore
    exact hone.orders o ho
  · cases ho

theorem abs_lessCommissions_sub_le (cs : List ℚ) (q : ℚ) :
    |lessCommissions cs q - (q - cs.sum)| ≤ cs.length / 2000000 := by
  have h := abs_foldl_sub_le (f := fun x => roundTo x 6) (fun x => abs_roundTo_sub_le x 6) cs q
  refine h.trans (le_of_eq ?_)
  ring

theorem lessCommissions_le {cs : List ℚ} (hcs : ∀ c ∈ cs, 0 ≤ c) (q : ℚ) :
    lessCommissions cs q ≤ max q (roundTo q 6) := by
  rcases foldl_roundTo_le (n := 6) cs hcs q with h | h
  · exact h.le.trans (le_max_left _ _)
  · exact h.trans (le_max_right _ _)

theorem reachable_holds (symbol : String) (es : List (Event ℚ)) :
    Holds symbol ((bot.run (SymbolData.init symbol) es).orders 0).quantity
      (bot.run (SymbolData.init symbol) es) := by
  obtain ⟨c, hm⟩ := reachable_models symbol es
  exact ⟨hm.symbol, Fin.forall_fin_two.mpr ⟨rfl, (reachable_even symbol es).symm⟩⟩

/-- From any reachable state on, as long as no start comes: the quantity is what it was less all
commissions, up to half a millionth for each; every order has what it was less the commissions
taken before this order, in the same sense; and as long as no commission was negative the order
does not exceed it, rounded. -/
theorem quantities_follow_ledger (symbol : String) (es : List (Event ℚ)) {es' : List (Event ℚ)}
    (he : ∀ e ∈ es', ¬IsStart e) :
    let d := bot.run (SymbolData.init symbol) es
    let q := (d.orders 0).quantity
    |((bot.run d es').orders 0).quantity - (q - (ledger d es').sum)| ≤
        (ledger d es').length / 2000000 ∧
      ∀ k, ∀ o ∈ ordersAt d es' k,
        |o.quantity - (q - (ledger d (es'.take k)).sum)| ≤
            (ledger d (es'.take k)).length / 2000000 ∧
          ((∀ c ∈ ledger d (es'.take k), 0 ≤ c) → o.quantity ≤ max q (roundTo q 6)) := by
  intro d q
  obtain ⟨c, hm⟩ := reachable_models symbol es
  have hd := reachable_holds symbol es
  have hrun := holds_run hm hd he
  have hq : ((bot.run d es').orders 0).quantity = lessCommissions (ledger d es') q := hrun.orders 0
  refine ⟨by rw [hq]; exact abs_lessCommissions_sub_le _ q, fun k o ho => ?_⟩
  rw [quantity_ordersAt hm hd he ho]
  exact ⟨abs_lessCommissions_sub_le _ q, fun hcs => lessCommissions_le hcs q⟩

/-- One bitcoin was bought, less the commission sold, and less both commissions bought again. -/
def boughtAgain : List (Event ℚ) :=
  [.orderReport (boughtOne "0.0010004"), .price (.num 21),
    .orderReport (streamReport "BTCUSDT" "NEW" "order_BTC_to_USDT_0" "BTC" "0" "20"),
    .orderReport (streamReport "BTCUSDT" "FILLED" "order_BTC_to_USDT_0" "BTC" "0.0002" "20"),
    .price (.num 9)]

/-- The second purchase takes two commissions into account, the sale before it one. -/
theorem quantities_follow_ledger_bought :
    let d := bot.run (SymbolData.init "BTC") confirmedOrder
    ledger d (boughtAgain.take 1) = [10004 / 10000000] ∧
      ledger d (boughtAgain.take 4) = [10004 / 10000000, 2 / 10000] ∧
      ∀ k ∈ [1, 4], ∃ o ∈ ordersAt d boughtAgain k,
        |o.quantity - ((d.orders 0).quantity - (ledger d (boughtAgain.take k)).sum)| ≤
          (ledger d (boughtAgain.take k)).length / 2000000 := by
  intro d
  have he : ∀ e ∈ boughtAgain, ¬IsStart e := by simp [boughtAgain, IsStart]
  refine ⟨by decide +kernel, by decide +kernel, fun k hk => ?_⟩
  have hplaced : ∀ k ∈ [1, 4], (ordersAt d boughtAgain k).length ≠ 0 := by decide +kernel
  obtain ⟨o, ho⟩ := List.exists_mem_of_length_pos (Nat.pos_of_ne_zero (hplaced k hk))
  exact ⟨o, ho, ((quantities_follow_ledger "BTC" confirmedOrder he).2 k o ho).1⟩

end BotTrader.Control
