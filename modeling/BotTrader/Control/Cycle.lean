import BotTrader.Automata.History
import BotTrader.Control.Stop

/-! The cycle that a start asks for: its side first, then the sides in turn,
each at the price it was started with, and each only after the order before it
was reported filled. -/

namespace BotTrader.Control

open Automata History Python Strategy

/-! ### The abstract symbol -/

section Abstract

variable {π ε : Type} {name : Fin 2 → ℕ → String} {c : State π} {i : Input π}

/-- The orders of a history go in turn from `side`, at `prices`. The events that
report the order `id` filled are given by `fills`. -/
structure InCycle (fills : ε → String → Prop) (side : Fin 2) (prices : Fin 2 → π)
    (h : List (ε ⊕ Ticket π)) : Prop where
  first : First (fun t => t.side = side) h
  turns : Consecutive (fun t es t' => t'.side ≠ t.side ∧ ∃ e ∈ es, fills e t.id) h
  priced : ∀ t, .inr t ∈ h → t.price = prices t.side

/-- Where a symbol stands in the cycle of a history. -/
def Stands (fills : ε → String → Prop) (side : Fin 2) (c : State π) (h : List (ε ⊕ Ticket π)) :
    Prop :=
  c.phase = .idle ∨
  (∃ es : List ε, h = es.map .inl) ∧ c.step = side ∧
    (c.phase = .waiting ∨ (∃ j, c.phase = .deleting j) ∧ c.changeMode = true) ∨
  ∃ t es, Since t es h ∧
    ((c.phase = .confirming ∨ c.phase = .filling) ∧ t.side = c.step ∧ t.id = c.ids c.step ∨
      c.phase = .waiting ∧ c.step ≠ t.side ∧ ∃ e ∈ es, fills e t.id)

variable {fills : ε → String → Prop} {side : Fin 2} {prices : Fin 2 → π}
  {h : List (ε ⊕ Ticket π)} {e : ε}

theorem InCycle.event (hc : InCycle fills side prices h) :
    InCycle fills side prices (h ++ [.inl e]) where
  first := hc.first.event
  turns := hc.turns.event
  priced := by simpa using hc.priced

/-- The order of a waiting symbol continues the cycle. -/
theorem InCycle.place (hc : InCycle fills side prices h) (hp : c.prices = prices)
    (hs : Stands fills side c h) (hw : c.phase = .waiting) :
    InCycle fills side prices (h ++ [.inr (c.ticket name)]) where
  first := hc.first.output fun es he => by
    rcases hs with hi | ⟨-, ht, -⟩ | ⟨t, es', ht, -⟩
    · simp [hw] at hi
    · exact ht
    · exact (ht.not_events he).elim
  turns := hc.turns.output fun t es ht => by
    rcases hs with hi | ⟨⟨es', he⟩, -⟩ | ⟨t', es', ht', hd⟩
    · simp [hw] at hi
    · exact (ht.not_events he).elim
    · obtain ⟨rfl, rfl⟩ := ht.unique ht'
      rcases hd with ⟨hf, -⟩ | ⟨-, hd⟩
      · simp [hw] at hf
      · exact hd
  priced := by
    intro t ht
    rcases List.mem_append.mp ht with ht | ht
    · exact hc.priced t ht
    · obtain rfl := Sum.inr.inj (List.mem_singleton.mp ht)
      rw [← hp]
      rfl

/-- An event that leaves the symbol as it is. -/
theorem Stands.event (hs : Stands fills side c h) : Stands fills side c (h ++ [.inl e]) := by
  rcases hs with hi | ⟨⟨es, rfl⟩, hd⟩ | ⟨t, es, ht, hd⟩
  · exact .inl hi
  · exact .inr (.inl ⟨⟨es ++ [e], by simp⟩, hd⟩)
  · refine .inr (.inr ⟨t, es ++ [e], ht.event, hd.imp id fun ⟨hw, hn, e', he, hf⟩ => ?_⟩)
    exact ⟨hw, hn, e', by simp [he], hf⟩

theorem stands_place (c : State π) :
    Stands fills side (c.place name) (h ++ [.inr (c.ticket name)]) :=
  .inr (.inr ⟨_, [], since_output h _, .inl ⟨.inl rfl, rfl, by simp [State.place, State.ticket]⟩⟩)

/-- An input that is no command, and that settles its order if it is a fill. -/
def Settles (i : Input π) : Prop :=
  i ≠ .stop ∧ ¬i.IsStart ∧
    ∀ id fires readable, i = .report (some id) (some "FILLED") fires readable → readable = true

/-- The state of the symbol and of the history after it, while the cycle lasts. -/
structure Cycling (fills : ε → String → Prop) (side : Fin 2) (prices : Fin 2 → π) (c : State π)
    (h : List (ε ⊕ Ticket π)) : Prop where
  orders : InCycle fills side prices h
  stands : Stands fills side c h
  prices : c.prices = prices

theorem Cycling.event {c' : State π} (hc : Cycling fills side prices c h)
    (hs : Stands fills side c' (h ++ [.inl e])) (hp : c'.prices = c.prices) :
    Cycling fills side prices c' (h ++ [.inl e]) :=
  ⟨hc.orders.event, hs, hp.trans hc.prices⟩

theorem Cycling.place (name : Fin 2 → ℕ → String) (hc : Cycling fills side prices c h)
    (hw : c.phase = .waiting) :
    Cycling fills side prices (c.place name) (h ++ [.inr (c.ticket name)]) :=
  ⟨hc.orders.place hc.prices hc.stands hw, stands_place c, hc.prices⟩

/-- A fill of the order that the symbol waits for. -/
theorem Stands.fill (hs : Stands fills side c h)
    (hf : c.phase = .filling ∨ c.phase = .halfFilled) (he : fills e (c.ids c.step)) :
    Stands fills side (c.fill true) (h ++ [.inl e]) := by
  rcases hs with hi | ⟨-, -, hw | ⟨⟨j, hd⟩, -⟩⟩ | ⟨t, es, ht, ⟨-, hside, hid⟩ | ⟨hw, -⟩⟩
  · simp [hi] at hf
  · simp [hw] at hf
  · simp [hd] at hf
  · refine .inr (.inr ⟨t, es ++ [e], ht.event, .inr ⟨by simp [State.fill], ?_, e, by simp, ?_⟩⟩)
    · simp only [State.fill, State.turn_step, hside]
      split <;> omega
    · rwa [hid]
  · simp [hw] at hf

theorem Stands.confirm (hs : Stands fills side c h) (hp : c.phase = .confirming) :
    Stands fills side { c with phase := .filling } (h ++ [.inl e]) := by
  rcases hs.event (e := e) with hi | ⟨-, -, hw | ⟨⟨j, hd⟩, -⟩⟩ | ⟨t, es, ht, ⟨-, hd⟩ | ⟨hw, -⟩⟩
  · simp [hp] at hi
  · simp [hp] at hw
  · simp [hp] at hd
  · exact .inr (.inr ⟨t, es, ht, .inl ⟨.inr rfl, hd⟩⟩)
  · simp [hp] at hw

theorem Stands.resume {j : Fin 2} (hs : Stands fills side c h) (hp : c.phase = .deleting j) :
    c.changeMode = true ∧
      Stands fills side { c.wait with changeMode := false } (h ++ [.inl e]) := by
  rcases hs.event (e := e) with hi | ⟨he, ht, hw | ⟨-, hm⟩⟩ | ⟨t, es, ht, ⟨hf, -⟩ | ⟨hw, -⟩⟩
  · simp [hp] at hi
  · simp [hp] at hw
  · exact ⟨hm, .inr (.inl ⟨he, ht, .inl rfl⟩)⟩
  · simp [hp] at hf
  · simp [hp] at hw

theorem cycling_step (hc : Cycling fills side prices c h) (hi : Settles i)
    (hf : ∀ id fires readable, i = .report (some id) (some "FILLED") fires readable → fills e id) :
    Cycling fills side prices ((machine name).next c i)
      (h ++ .inl e :: (((machine name).emit c i).filterMap Act.ticket?).map .inr) := by
  have hs := step_cases name c i
  generalize (machine name).next c i = c' at hs ⊢
  generalize (machine name).emit c i = acts at hs ⊢
  cases hs with
  | skip => exact hc.event hc.stands.event rfl
  | begin | beginAndPlace | reload | change => exact absurd trivial hi.2.1
  | halt | rest => exact absurd rfl hi.1
  | place hw =>
    simpa [List.filterMap_cons] using (hc.event hc.stands.event rfl).place name hw
  | confirm hp => exact hc.event (hc.stands.confirm hp) rfl
  | fill hp =>
    obtain rfl := hi.2.2 _ _ _ rfl
    exact hc.event (hc.stands.fill hp (hf _ _ _ rfl)) rfl
  | resume hp => exact hc.event (hc.stands.resume hp).2 rfl
  | canceled hp hm => simp [(hc.stands.resume (e := e) hp).1] at hm
  | timeout => exact hc.event (.inl rfl) rfl

/-- A start begins its cycle, with its order or without. -/
theorem cycling_start (name : Fin 2 → ℕ → String) (hp : c.phase ≠ .halfFilled) (fires : Bool)
    (e : ε) :
    Cycling fills side prices ((machine name).next c (.start side prices fires))
      (.inl e :: (((machine name).emit c (.start side prices fires)).filterMap
        Act.ticket?).map .inr) := by
  have begun {c' : State π} (hs : c'.step = side) (hq : c'.prices = prices)
      (hd : c'.phase = .waiting ∨ (∃ j, c'.phase = .deleting j) ∧ c'.changeMode = true) :
      Cycling fills side prices c' [.inl e] :=
    ⟨⟨first_nil.event, consecutive_nil.event, by simp⟩, .inr (.inl ⟨⟨[e], rfl⟩, hs, hd⟩), hq⟩
  have hs := step_cases name c (.start side prices fires)
  generalize (machine name).next c (.start side prices fires) = c' at hs ⊢
  generalize (machine name).emit c (.start side prices fires) = acts at hs ⊢
  cases hs with
  | skip hi => exact absurd rfl (hi _ _ _)
  | begin => exact begun rfl rfl (.inl rfl)
  | beginAndPlace =>
    have hb : Cycling fills side prices (c.load side prices).wait [.inl e] :=
      begun rfl rfl (.inl rfl)
    exact hb.place name rfl
  | reload hc => exact begun rfl rfl (.inl (hc.resolve_right hp))
  | change => exact begun rfl rfl (.inr ⟨⟨_, rfl⟩, rfl⟩)
  | place _ hi => simp at hi

/-- A symbol whose fills are all settled is never caught half-way. -/
theorem notHalfFilled_step (hp : c.phase ≠ .halfFilled)
    (hf : ∀ id fires readable, i = .report (some id) (some "FILLED") fires readable →
      readable = true) : ((machine name).next c i).phase ≠ .halfFilled := by
  have hs := step_cases name c i
  generalize (machine name).next c i = c' at hs ⊢
  generalize (machine name).emit c i = acts at hs
  cases hs with
  | skip => exact hp
  | reload hc => exact hp
  | fill =>
    obtain rfl := hf _ _ _ rfl
    simp [State.fill]
  | _ => simp [State.place]

end Abstract

/-! ### The script -/

section Script

variable {F : Type} [Runtime F]

/-- The report names its commission: an asset, and numbers for the commission
and the price, which is not zero. -/
structure NamesCommission (r : Dict F) : Prop where
  asset : ∃ j, r.item "N" = .ok j
  commission : ∃ j x, r.item "n" = .ok j ∧ j.toFloat = .ok x
  price : ∃ j x, r.item "p" = .ok j ∧ j.toFloat = .ok x ∧ Runtime.isZero x = false

theorem settles_of_namesCommission {r : Dict F} {x : F} (h : NamesCommission r)
    (hx : Printable x) : settles r x = true := by
  obtain ⟨asset, hN⟩ := h.asset
  obtain ⟨n, n', hn, hn'⟩ := h.commission
  obtain ⟨p, p', hp, hp', hz⟩ := h.price
  exact settles_iff.2 ⟨asset, n, hN, hn, .inr ⟨hx, n', hn', fun _ => ⟨p, p', hp, hp', hz⟩⟩⟩

/-- A fill report names its commission. -/
def WellReported : Event F → Prop
  | .orderReport r => textAt r "X" = some "FILLED" → NamesCommission r
  | _ => True

/-- The exchange names finite step sizes. -/
def FiniteSteps : Event F → Prop
  | .exchangeInfo info => StepSizes Printable info
  | _ => True

/-- The event reports the order `id` filled. -/
def ReportsFilled (e : Event F) (id : String) : Prop :=
  ∃ r, e = .orderReport r ∧ textAt r "X" = some "FILLED" ∧ textAt r "c" = some id

theorem input_filled {d : SymbolData F} {e : Event F} {id : String} {fires readable : Bool}
    (he : WellReported e) (hd : Printable d.stepSize)
    (hi : input d e = .report (some id) (some "FILLED") fires readable) :
    ReportsFilled e id ∧ readable = true := by
  cases e with
  | orderReport r =>
    simp only [input, Input.report.injEq] at hi
    obtain ⟨hc, hx, -, rfl⟩ := hi
    exact ⟨⟨r, rfl, hx, hc⟩, settles_of_namesCommission (he hx) hd⟩
  | tradeRun data =>
    simp only [input] at hi
    split at hi
    · split at hi <;> cases hi
    · cases hi
  | price price =>
    simp only [input] at hi
    split at hi <;> cases hi
  | _ => simp [input] at hi

/-- A message of any kind but a command. -/
def NoCommand : Event F → Prop
  | .tradeRun _ => False
  | _ => True

theorem input_of_noCommand {d : SymbolData F} {e : Event F} (hn : NoCommand e) :
    input d e ≠ .stop ∧ ¬(input d e).IsStart := by
  cases e with
  | tradeRun data => exact hn.elim
  | price price =>
    simp only [input]
    split <;> exact ⟨by simp, id⟩
  | _ => exact ⟨by simp [input], id⟩

theorem settles_input {d : SymbolData F} {e : Event F} (he : WellReported e)
    (hd : Printable d.stepSize) (hn : NoCommand e) : Settles (input d e) := by
  obtain ⟨hstop, hstart⟩ := input_of_noCommand (d := d) hn
  exact ⟨hstop, hstart, fun _ _ _ hi => (input_filled he hd hi).2⟩

theorem printable_next {symbol : String} {d : SymbolData F} {c : State F}
    (h : Models symbol d c) {e : Event F} (he : FiniteSteps e) (hd : Printable d.stepSize) :
    Printable (bot.next d e).stepSize :=
  stepSize_next h (fun _ hi => by rwa [hi] at he) hd

theorem printable_init (symbol : String) :
    Printable (SymbolData.init (F := F) symbol).stepSize := by
  simp only [Printable, SymbolData.init, Runtime.fixed_micro]
  decide

/-- A symbol whose reports are all well formed is never caught half-way. -/
theorem reachable_notHalfFilled (symbol : String) {es : List (Event F)}
    (hw : ∀ e ∈ es, WellReported e ∧ FiniteSteps e) :
    ∃ c, Models symbol (bot.run (SymbolData.init symbol) es) c ∧ c.phase ≠ .halfFilled ∧
      Printable (bot.run (SymbolData.init symbol) es).stepSize := by
  refine Machine.run_invariant
    (fun d => ∃ c, Models symbol d c ∧ c.phase ≠ .halfFilled ∧ Printable d.stepSize)
    ?_ ⟨_, models_init symbol, by simp [init], printable_init symbol⟩
    (Machine.along_of_mem bot _ es hw)
  rintro d e ⟨c, hc, hp, hd⟩ ⟨he, hs⟩
  exact ⟨_, (bot_simulates symbol).next hc e,
    notHalfFilled_step hp fun _ _ _ hi => (input_filled he hd hi).2, printable_next hc hs hd⟩

/-- The orders of a history are the cycle of a start on `side`, at `prices`. -/
structure FollowsCycle (side : Side) (prices : Fin 2 → F) (h : List (Event F ⊕ Order F)) :
    Prop where
  first : First (fun o => o.side = side) h
  turns : Consecutive (fun o es o' => o'.side ≠ o.side ∧
    ∃ e ∈ es, ReportsFilled e o.newClientOrderId) h
  priced : ∀ o, .inr o ∈ h → o.price = prices o.side.index

omit [Runtime F] in
theorem followsCycle_of_inCycle {side : Side} {prices : Fin 2 → F}
    {h : List (Event F ⊕ Order F)}
    (hc : InCycle ReportsFilled side.index prices (h.map (Sum.map id ticketOf))) :
    FollowsCycle side prices h where
  first := hc.first.of_map.imp fun _ ho => index_inj.mp ho
  turns := hc.turns.of_map.imp fun _ _ _ ⟨hs, he⟩ => ⟨fun hs' => hs (index_inj.mpr hs'), he⟩
  priced _ ho := hc.priced _ (List.mem_map_of_mem ho)

/-- What holds along a started segment: the symbol stands in the cycle of its orders. -/
def OnCycle (symbol : String) (side : Fin 2) (prices : Fin 2 → F) (d : SymbolData F)
    (h : List (Event F ⊕ Order F)) : Prop :=
  ∃ c, Models symbol d c ∧ Printable d.stepSize ∧
    Cycling ReportsFilled side prices c (h.map (Sum.map id ticketOf))

theorem map_history {symbol : String} {d : SymbolData F} {c : State F} (h : Models symbol d c)
    (hist : List (Event F ⊕ Order F)) (e : Event F) :
    (hist ++ Sum.inl e :: ((bot.observe Call.order?).emit d e).map Sum.inr).map
        (Sum.map id ticketOf) =
      hist.map (Sum.map id ticketOf) ++ Sum.inl e ::
        (((machine (orderId symbol)).emit c (input d e)).filterMap Act.ticket?).map Sum.inr := by
  have ht := tickets_of_event h e
  simp only [issued] at ht
  rw [← ht]
  simp [Machine.observe, Function.comp_def]

theorem onCycle_start {symbol : String} {d : SymbolData F} {c : State F} (h : Models symbol d c)
    (hc : c.phase ≠ .halfFilled) (hd : Printable d.stepSize) {data : Dict F} {a side : Json F}
    (ha : data.lookup "a" = some a) (hp : data.lookup "p" = some side)
    (hg : a.isStr "start" = true) :
    OnCycle symbol (d.loadTradeData side).step d.tempPrice (bot.next d (.tradeRun data))
      (.inl (.tradeRun data) :: ((bot.observe Call.order?).emit d (.tradeRun data)).map .inr) := by
  refine ⟨_, (bot_simulates symbol).next h _, printable_next h trivial hd, ?_⟩
  have hm := map_history h [] (.tradeRun data)
  have hi : input d (.tradeRun data) =
      .start (d.loadTradeData side).step d.tempPrice (d.loadTradeData side).fires := by
    simp [input, ha, hp, hg]
  simp only [List.nil_append, List.map_nil] at hm
  rw [hm, hi]
  exact cycling_start (orderId symbol) hc _ _

theorem onCycle_next {symbol : String} {side : Fin 2} {prices : Fin 2 → F} {d : SymbolData F}
    {h : List (Event F ⊕ Order F)} (hc : OnCycle symbol side prices d h) {e : Event F}
    (he : WellReported e) (hs : FiniteSteps e) (hn : NoCommand e) :
    OnCycle symbol side prices (bot.next d e)
      (h ++ .inl e :: ((bot.observe Call.order?).emit d e).map .inr) := by
  obtain ⟨c, hm, hd, hc⟩ := hc
  refine ⟨_, (bot_simulates symbol).next hm e, printable_next hm hs hd, ?_⟩
  rw [map_history hm]
  exact cycling_step hc (settles_input he hd hn) fun _ _ _ hi => (input_filled he hd hi).1

/-- The orders of a start go the requested cycle, whatever arrives but a command. -/
theorem orders_follow_cycle (symbol : String) (es₀ es : List (Event F)) (data : Dict F)
    {a side : Json F} (ha : data.lookup "a" = some a) (hp : data.lookup "p" = some side)
    (hg : a.isStr "start" = true) (hw : ∀ e ∈ es₀ ++ es, WellReported e ∧ FiniteSteps e)
    (hn : ∀ e ∈ es, NoCommand e) :
    FollowsCycle (if side.isStr "BUY" then .BUY else .SELL)
      (bot.run (SymbolData.init symbol) es₀).tempPrice
      ((bot.observe Call.order?).trace (bot.run (SymbolData.init symbol) es₀)
        (.tradeRun data :: es)) := by
  obtain ⟨c, hc, hh, hd⟩ :=
    reachable_notHalfFilled symbol fun e he => hw e (List.mem_append_left es he)
  have hstart := onCycle_start hc hh hd ha hp hg
  generalize bot.run (SymbolData.init symbol) es₀ = d at hstart ⊢
  have hrun := Machine.run_trace (M := bot.observe Call.order?)
    (OnCycle symbol (d.loadTradeData side).step d.tempPrice)
    (P := fun _ e => (WellReported e ∧ FiniteSteps e) ∧ NoCommand e)
    (fun d h e hc ⟨⟨he, hs⟩, hn⟩ => onCycle_next hc he hs hn) hstart
    (Machine.along_of_mem _ _ es fun e he => ⟨hw e (List.mem_append_right es₀ he), hn e he⟩)
  obtain ⟨c', -, -, hcyc⟩ := hrun
  refine followsCycle_of_inCycle ?_
  have hside : (d.loadTradeData side).step =
      Side.index (if side.isStr "BUY" then .BUY else .SELL) := by
    simp only [SymbolData.loadTradeData_step]
    split <;> rfl
  rw [← hside]
  exact hcyc.orders

/-! ### One cycle -/

/-- An order is bought and filled, and the next one is placed. -/
def boughtThenSold : List (Event ℚ) :=
  [.price (.str "9"), .price (.str "11"),
    .orderReport (streamReport "BTCUSDT" "NEW" "order_USDT_to_BTC_0" "BNB" "0" "10"),
    .orderReport (streamReport "BTCUSDT" "FILLED" "order_USDT_to_BTC_0" "BTC" "0.001" "10"),
    .price (.str "19"), .price (.str "21")]

theorem orders_follow_cycle_bought : FollowsCycle .BUY
    (bot.run (SymbolData.init (F := ℚ) "BTC")
      [.tradeData (setData "10" "10" "20" "20" "1")]).tempPrice
    ((bot.observe Call.order?).trace (bot.run (SymbolData.init "BTC")
      [.tradeData (setData "10" "10" "20" "20" "1")])
      (.tradeRun (command "start" "BUY") :: boughtThenSold)) := by
  have hf : NamesCommission (streamReport (F := ℚ) "BTCUSDT" "FILLED" "order_USDT_to_BTC_0" "BTC"
      "0.001" "10") :=
    ⟨⟨_, rfl⟩, ⟨_, _, rfl, rfl⟩, ⟨_, _, rfl, rfl, by decide +kernel⟩⟩
  refine orders_follow_cycle "BTC" [.tradeData (setData "10" "10" "20" "20" "1")] boughtThenSold
    (command "start" "BUY") rfl rfl rfl ?_ ?_
  · simp [boughtThenSold, WellReported, FiniteSteps, hf]
  · simp [boughtThenSold, NoCommand]

end Script

end BotTrader.Control
