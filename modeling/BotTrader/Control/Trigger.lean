import BotTrader.Automata.Crossing
import BotTrader.Control.Refinement
import BotTrader.Strategy.Steady
import BotTrader.Strategy.Messages

/-! When a waiting symbol places its order. A tick moves the price history by one and runs
the FSM while the symbol waits, so the order goes out with the first price that crosses the
trigger, as long as the history holds two prices. A price that is not a number takes one off
and puts none in; after it no tick can fire. -/

namespace BotTrader.Control

open Automata Handler Python Strategy

section Ticks

variable {F : Type} [Runtime F]

/-- The orders that the event `k` of a run from `d` passes to `h_exec_order`. -/
def ordersAt (d : SymbolData F) (es : List (Event F)) (k : ℕ) : List (Order F) :=
  match es[k]? with
  | some e => issued (bot.emit (bot.run d (es.take k)) e)
  | none => []

variable {d : SymbolData F} {e : Event F} {es : List (Event F)} {price : Json F} {x : F}

@[simp] theorem ordersAt_nil (k : ℕ) : ordersAt d [] k = [] := by simp [ordersAt]

@[simp] theorem ordersAt_zero : ordersAt d (e :: es) 0 = issued (bot.emit d e) := by
  simp [ordersAt]

@[simp] theorem ordersAt_succ (k : ℕ) :
    ordersAt d (e :: es) (k + 1) = ordersAt (bot.next d e) es k := by
  simp [ordersAt]

@[simp] theorem ordersOf_nil : ordersOf d [] = [] := rfl

theorem ordersOf_cons :
    ordersOf d (e :: es) = issued (bot.emit d e) ++ ordersOf (bot.next d e) es := by
  simp [ordersOf, issued]

theorem ordersOf_ne_nil_iff : ordersOf d es ≠ [] ↔ ∃ k, ordersAt d es k ≠ [] := by
  induction es generalizing d with
  | nil => simp
  | cons e es ih =>
    rw [ordersOf_cons, ne_eq, List.append_eq_nil_iff, not_and_or, ← ne_eq, ← ne_eq, ih]
    constructor
    · rintro (h | ⟨k, hk⟩)
      · exact ⟨0, by simpa using h⟩
      · exact ⟨k + 1, by simpa using hk⟩
    · rintro ⟨k, hk⟩
      cases k with
      | zero => exact .inl (by simpa using hk)
      | succ k => exact .inr ⟨k, by simpa using hk⟩

/-- A symbol that does not wait for a price only stores it. -/
theorem tick_of_not_waitPrice (price : Json F) (hw : d.waitPrice = false) :
    issued (bot.emit d (.price price)) = [] ∧ (bot.next d (.price price)).waitPrice = false := by
  show issued ((onPrice price).run d).calls = [] ∧ ((onPrice price).run d).state.waitPrice = false
  by_cases hp : d.price = []
  · rw [run_onPrice_nil _ hp]
    exact ⟨rfl, hw⟩
  rcases hx : price.toFloat with y | x
  · rw [run_onPrice_error hp hx]
    exact ⟨rfl, hw⟩
  · rw [run_onPrice_ok hp hx, hw]
    exact ⟨rfl, hw⟩

theorem run_tick (hf : d.fsm = .WAIT_PRICE) (hw : d.waitPrice = true) (hp : d.price ≠ [])
    (hx : price.toFloat = .ok x) : (onPrice price).run d = fsmWaitPrice.run (d.priced x) := by
  rw [run_onPrice_ok hp hx, hw, if_pos rfl, run_fsmRun, SymbolData.priced_fsm, hf]

/-- The tick that fires places one order, and the symbol stops waiting for prices. -/
theorem tick_of_fires (hf : d.fsm = .WAIT_PRICE) (hw : d.waitPrice = true) (hp : d.price ≠ [])
    (hx : price.toFloat = .ok x) (h : (d.priced x).fires = true) :
    (issued (bot.emit d (.price price))).length = 1 ∧
      (bot.next d (.price price)).waitPrice = false := by
  show (issued ((onPrice price).run d).calls).length = 1 ∧
    ((onPrice price).run d).state.waitPrice = false
  obtain ⟨calls, hr, hc⟩ := returns_fsmWaitPrice h
  have ht := tickets_of_calls calls
  rw [hc] at ht
  rw [run_tick hf hw hp hx, hr]
  refine ⟨?_, by simp⟩
  simpa [List.filterMap_cons] using congrArg List.length ht

/-- A tick that does not fire only moves the price history. -/
theorem tick_of_not_fires (hf : d.fsm = .WAIT_PRICE) (hw : d.waitPrice = true) (hp : d.price ≠ [])
    (hx : price.toFloat = .ok x) (h : (d.priced x).fires = false) :
    issued (bot.emit d (.price price)) = [] ∧ bot.next d (.price price) = d.priced x := by
  have hl : fsmWaitPrice.Leaves Call.act? (d.priced x) (d.priced x) [] :=
    (fsmWaitPrice_of_not_fires h).elim (·.leaves) (·.leaves)
  have ht := tickets_of_calls ((onPrice price).run d).calls
  rw [run_tick hf hw hp hx, hl.2] at ht
  refine ⟨?_, by simpa only [bot, SymbolData.react, Event.handler, run_tick hf hw hp hx] using hl.1⟩
  show issued ((onPrice price).run d).calls = []
  rw [run_tick hf hw hp hx]
  simpa using ht

/-- The ticks after an order place no other one. -/
theorem ticks_of_not_waitPrice (hw : d.waitPrice = false) (ticks : List (Json F)) :
    ordersOf d (ticks.map .price) = [] := by
  induction ticks generalizing d with
  | nil => rfl
  | cons j ticks ih =>
    obtain ⟨hj, hn⟩ := tick_of_not_waitPrice j hw
    rw [List.map_cons, ordersOf_cons, hj, ih hn]
    rfl

end Ticks

/-! ### Exact prices -/

variable {d : SymbolData ℚ} {x₀ y : ℚ} {ps : List ℚ} {ticks : List (Json ℚ)} {xs : List ℚ}

/-- The messages carry the given prices, all positive. -/
def Quotes (ticks : List (Json ℚ)) (xs : List ℚ) : Prop :=
  List.Forall₂ (fun j x => j.toFloat = .ok x ∧ 0 < x) ticks xs

/-- Over ticks with the prices `xs` after `x₀` the order goes out with the first of them that
crosses the trigger, once, and by the end at the latest if the end is on the other side. -/
structure FiresAtFirstCrossing (d : SymbolData ℚ) (x₀ : ℚ) (ticks : List (Json ℚ))
    (xs : List ℚ) : Prop where
  first : ∀ k, ordersAt d (ticks.map .price) k ≠ [] ↔
    CrossesFirstAt (d.trigger d.step) x₀ xs k
  once : (ordersOf d (ticks.map .price)).length ≤ 1
  byEnd : ∀ z, xs.getLast? = some z → d.trigger d.step ∈ Set.uIcc x₀ z →
    ordersOf d (ticks.map .price) ≠ []

theorem fires_priced (hp : d.price = x₀ :: y :: ps) (hx₀ : x₀ ≠ 0) {x : ℚ} (hx : 0 < x) :
    (d.priced x).fires = true ↔ d.trigger d.step ∈ Set.uIcc x₀ x := by
  have hx' : x ≠ 0 := ne_of_gt hx
  have hf : (d.priced x).fires = true ↔ x ≤ d.trigger d.step ∧ d.trigger d.step ≤ x₀ ∨
      d.trigger d.step ≤ x ∧ x₀ ≤ d.trigger d.step := by
    simp [SymbolData.fires, SymbolData.isTriggerInPrice, SymbolData.priced, hp, Runtime.isZero,
      Runtime.le, hx', hx₀]
  rw [hf, Set.mem_uIcc]
  grind

theorem not_fires_priced (hp : d.price = [x₀]) {x : ℚ} (hx : 0 < x) :
    (d.priced x).fires = false := by
  have hx' : x ≠ 0 := ne_of_gt hx
  simp [SymbolData.fires, SymbolData.isTriggerInPrice, SymbolData.priced, hp, Runtime.isZero, hx']

/-- With two prices in the history the trigger fires at its first crossing. -/
theorem fires_of_two (hf : d.fsm = .WAIT_PRICE) (hw : d.waitPrice = true)
    (hp : d.price = x₀ :: y :: ps) (hx₀ : x₀ ≠ 0) (hq : Quotes ticks xs) :
    (∀ k, ordersAt d (ticks.map .price) k ≠ [] ↔ CrossesFirstAt (d.trigger d.step) x₀ xs k) ∧
      (ordersOf d (ticks.map .price)).length ≤ 1 := by
  induction hq generalizing d x₀ y ps with
  | nil => simp
  | @cons j x ticks xs hj hq ih =>
    obtain ⟨hx, hpos⟩ := hj
    have hne : d.price ≠ [] := by simp [hp]
    rw [List.map_cons, ordersOf_cons]
    by_cases hc : d.trigger d.step ∈ Set.uIcc x₀ x
    · obtain ⟨ho, hn⟩ := tick_of_fires hf hw hne hx ((fires_priced hp hx₀ hpos).mpr hc)
      have hrest := ticks_of_not_waitPrice hn ticks
      refine ⟨fun k => ?_, by simp [hrest, ho]⟩
      rw [crossesFirstAt_of_mem hc]
      cases k with
      | zero =>
        have : issued (bot.emit d (.price j)) ≠ [] := List.ne_nil_of_length_pos (by omega)
        simpa using this
      | succ k =>
        have hk : ordersAt (bot.next d (.price j)) (ticks.map .price) k = [] := by
          by_contra hk
          exact ordersOf_ne_nil_iff.mpr ⟨k, hk⟩ hrest
        simp [hk]
    · have hn : (d.priced x).fires = false := by
        rw [← Bool.not_eq_true, fires_priced hp hx₀ hpos]
        exact hc
      obtain ⟨ho, hn⟩ := tick_of_not_fires hf hw hne hx hn
      -- The price that came is now the last one, and it is not zero either.
      have hp' : (d.priced x).price = x :: x₀ :: (y :: ps).dropLast := by
        simp [SymbolData.priced, hp]
      obtain ⟨hfirst, honce⟩ := ih (d := d.priced x) hf hw hp' (ne_of_gt hpos)
      refine ⟨fun k => ?_, by simpa [ho, hn] using honce⟩
      cases k with
      | zero => simpa [ho] using not_crossesFirstAt_zero hc
      | succ k =>
        rw [ordersAt_succ, hn, crossesFirstAt_succ hc]
        exact hfirst k

/-- With one price in the history no tick fires. -/
theorem no_orders_of_one (hf : d.fsm = .WAIT_PRICE) (hw : d.waitPrice = true)
    (hp : d.price = [x₀]) (hq : Quotes ticks xs) : ordersOf d (ticks.map .price) = [] := by
  induction hq generalizing d x₀ with
  | nil => rfl
  | @cons j x ticks xs hj hq ih =>
    obtain ⟨ho, hn⟩ := tick_of_not_fires hf hw (by simp [hp]) hj.1 (not_fires_priced hp hj.2)
    have hp' : (d.priced x).price = [x] := by simp [SymbolData.priced, hp]
    rw [List.map_cons, ordersOf_cons, ho, hn, ih (d := d.priced x) hf hw hp']
    rfl

/-- A waiting symbol fires at the first crossing if and only if every price that it was told
so far was a number, or nothing crosses. -/
theorem fires_iff {symbol : String} {es : List (Event ℚ)}
    (hf : (bot.run (SymbolData.init symbol) es).fsm = .WAIT_PRICE)
    (hp : (bot.run (SymbolData.init symbol) es).price = x₀ :: ps) (hx₀ : x₀ ≠ 0)
    (hq : Quotes ticks xs) :
    FiresAtFirstCrossing (bot.run (SymbolData.init symbol) es) x₀ ticks xs ↔
      (∀ e ∈ es, Numeric e) ∨ ∀ k, ¬CrossesAt ((bot.run (SymbolData.init symbol) es).trigger
        (bot.run (SymbolData.init symbol) es).step) x₀ xs k := by
  have hw := (reachable_flagsConsistent symbol es).waitPrice.mpr hf
  have htwo : (∀ e ∈ es, Numeric e) ↔ ps ≠ [] := by
    obtain ⟨hle, htwo⟩ := reachable_price symbol es
    rw [← htwo, hp]
    rw [hp] at hle
    cases ps <;> simp at hle ⊢
    omega
  rw [htwo]
  clear htwo
  generalize bot.run (SymbolData.init symbol) es = d at *
  cases ps with
  | cons y ps =>
    obtain ⟨hfirst, honce⟩ := fires_of_two hf hw hp hx₀ hq
    refine iff_of_true ⟨hfirst, honce, fun z hz ht => ?_⟩ (.inl (by simp))
    obtain ⟨k, hk⟩ := exists_crossesFirstAt.mpr (crosses_of_mem ht hz)
    exact ordersOf_ne_nil_iff.mpr ⟨k, (hfirst k).mpr hk⟩
  | nil =>
    have hnone := no_orders_of_one hf hw hp hq
    have hat (k : ℕ) : ordersAt d (ticks.map .price) k = [] := by
      by_contra hk
      exact ordersOf_ne_nil_iff.mpr ⟨k, hk⟩ hnone
    have hno : (∀ k, ¬CrossesAt (d.trigger d.step) x₀ xs k) ↔
        ∀ k, ¬CrossesFirstAt (d.trigger d.step) x₀ xs k := by
      rw [← not_exists, ← not_exists, exists_crossesFirstAt]
    simp only [ne_eq, not_true_eq_false, false_or, hno]
    constructor
    · intro h k hk
      exact (h.first k).mpr hk (hat k)
    · intro h
      refine ⟨fun k => by simp [hat, h k], by simp [hnone], fun z hz ht => ?_⟩
      obtain ⟨k, hk⟩ := exists_crossesFirstAt.mpr (crosses_of_mem ht hz)
      exact absurd hk (h k)

/-- A symbol that waits to buy at 10 and was told the price 9. -/
def waitingAtNine : List (Event ℚ) :=
  [.tradeData (setData "10" "10" "20" "20" "1"), .tradeRun (command "start" "BUY"),
    .price (.str "9")]

theorem fires_waitingAtNine :
    FiresAtFirstCrossing (bot.run (SymbolData.init "BTC") waitingAtNine) 9
      [.str "8", .str "11", .str "9"] [8, 11, 9] := by
  have hq : Quotes [.str "8", .str "11", .str "9"] [8, 11, 9] := by
    refine .cons ⟨?_, by decide⟩ (.cons ⟨?_, by decide⟩ (.cons ⟨?_, by decide⟩ .nil)) <;>
      exact congrArg Except.ok (by decide +kernel)
  have hp : (bot.run (SymbolData.init "BTC") waitingAtNine).price = [9, 0] := by decide +kernel
  have hn : ∀ e ∈ waitingAtNine, Numeric e := by
    simp only [waitingAtNine, List.forall_mem_cons, Numeric, true_and]
    exact ⟨⟨9, congrArg Except.ok (by decide +kernel)⟩, by simp⟩
  exact (fires_iff (by decide +kernel) hp (by decide) hq).mpr (.inl hn)

/-- The same symbol after a message whose price is not a number. -/
def blindedAtNine : List (Event ℚ) := waitingAtNine ++ [.price (.str "none")]

/-- The shortened history hides the crossing. -/
theorem not_fires_after_malformed :
    (bot.run (SymbolData.init "BTC") blindedAtNine).fsm = .WAIT_PRICE ∧
      (bot.run (SymbolData.init "BTC") blindedAtNine).price = [9] ∧
      Quotes [.str "11"] [11] ∧
      ¬FiresAtFirstCrossing (bot.run (SymbolData.init "BTC") blindedAtNine) 9 [.str "11"] [11] := by
  have hq : Quotes [.str "11"] [11] :=
    .cons ⟨congrArg Except.ok (by decide +kernel), by decide⟩ .nil
  refine ⟨by decide +kernel, by decide +kernel, hq, fun h => ?_⟩
  have hn : ordersOf (bot.run (SymbolData.init "BTC") blindedAtNine)
      ([.str "11"].map .price) = [] :=
    no_orders_of_one (by decide +kernel) (by decide +kernel)
      (show _ = [(9 : ℚ)] by decide +kernel) hq
  refine h.byEnd 11 rfl ?_ hn
  have ht : (bot.run (SymbolData.init "BTC") blindedAtNine).trigger
      (bot.run (SymbolData.init "BTC") blindedAtNine).step = 10 := by decide +kernel
  rw [ht]
  exact Set.mem_uIcc.mpr (.inl (by decide))

end BotTrader.Control
