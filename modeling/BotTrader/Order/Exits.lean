import BotTrader.Order.Sound
import BotTrader.Order.Verdict

/-! Which dialogues can be left. A stop-loss-limit order is asked for its stop price and then
for its price, and nothing follows; every other state leads to the end by some texts. -/

namespace BotTrader.Order

open Automata Handler

variable {F : Type} [LexicalCast F] {d d' : TOrder F} {data : String} {text? : Option String}
  {calls : List (Call F)} {field : F → BncOrder F → BncOrder F} {name : String}

/-- A dialogue from its beginning, without undefined behaviour on the way. -/
inductive Reached : TOrder F → Prop
  | opened {e : Event} {st : State} {d d' : TOrder F} {calls : List (Call F)}
      (he : e.opens = some st) (h : e.handler.run d = .done () d' calls) : Reached d'
  | reply {data : String} {d d' : TOrder F} {calls : List (Call F)} (hd : Reached d)
      (h : (engine data).run d = .done () d' calls) : Reached d'

/-- Some texts lead back to the commands. -/
def Exits (d : TOrder F) : Prop :=
  ∃ texts : List String, (dialogue.run d (texts.map .setData)).inputMode = .command

/-- On the way to a price that nothing follows. -/
def Stuck (d : TOrder F) : Prop :=
  d.order.type = .STOP_LOSS_LIMIT ∧
    (d.state = .side ∨ d.state = .quantity ∨ d.state = .stopPrice ∨ d.state = .price)

/-! ### The trap -/

theorem Pass.stuck (h : Pass data d text? d' calls) (hs : Stuck d) :
    text? = none ∧ Stuck d' ∧ d'.inputMode = d.inputMode := by
  obtain ⟨ht, hs⟩ := hs
  cases h with
  | side =>
    exact ⟨rfl, ⟨(d.sided_type _).trans ht, .inr (.inl rfl)⟩, d.sided_inputMode _⟩
  | quantityError | stopPriceError | priceError => exact ⟨rfl, ⟨ht, hs⟩, rfl⟩
  | quantityStop => exact ⟨rfl, ⟨ht, .inr (.inr (.inl rfl))⟩, rfl⟩
  | stopPriceLimit hst hi _ =>
    exact ⟨rfl, ⟨(hi.type fun _ _ => rfl).trans ht, .inr (.inr (.inr rfl))⟩, hi.frame.2.2⟩
  | priceOther hst hi _ =>
    exact ⟨rfl, ⟨(hi.type fun _ _ => rfl).trans ht, .inr (.inr (.inr (hi.frame.1.trans hst)))⟩,
      hi.frame.2.2⟩
  | stopPrice hst hi hn => exact absurd (.inl ((hi.type fun _ _ => rfl).trans ht)) hn
  | priceLimit _ hi hl =>
    rw [hi.type fun _ _ => rfl, ht] at hl
    exact absurd hl (by decide)
  | idle hi => rcases hi with hi | hi <;> simp [hi] at hs
  | _ => simp_all

theorem Passes.stuck (h : Passes data d d' calls) (hs : Stuck d) :
    Stuck d' ∧ d'.inputMode = d.inputMode := by
  cases h with
  | last h => exact (h.stuck hs).2
  | again h _ => exact absurd (h.stuck hs).1 (by simp)

/-- No text leads out of it. -/
theorem stuck_run (hs : Stuck d) (hd : d.Defined) (texts : List String) :
    (dialogue.run d (texts.map .setData)).inputMode = d.inputMode := by
  induction texts generalizing d with
  | nil => rfl
  | cons text texts ih =>
    obtain ⟨d', calls, hp, hd'⟩ := hd.passes text
    obtain ⟨hs', hm⟩ := hp.stuck hs
    rw [List.map_cons, Machine.run_cons, hp.next, ih hs' hd', hm]

/-! ### What is reached -/

/-- With no symbol a list is undefined from its beginning. -/
theorem raises_list (hs : d.state = .list) (hl : d.symbolsList = []) :
    (engine data).run d = .raised .emptyFront d [] := by
  have hv : (visit data).run d = .raised .emptyFront d [] := by
    rw [run_visit hs]
    simp [visitIn, run_bind, hl, frontSymbol]
  exact run_bind_raised hv

theorem Reached.spec (h : Reached d) : d.Defined ∧ Sound d := by
  induction h with
  | @opened e st d d' calls he hr =>
    rw [run_opens he] at hr
    have hst : st = .start ∨ st = .delete ∨ st = .list := by
      cases e <;> simp_all [Event.opens]
    have hd : (d.opened st).Defined := by
      rcases hst with rfl | rfl | rfl
      · exact .inr (.inl rfl)
      · exact .inr (.inr rfl)
      · refine .inl fun hl => ?_
        rw [raises_list rfl hl] at hr
        cases hr
    obtain ⟨d₁, calls₁, hp, hd₁⟩ := hd.passes ""
    rw [hp.run] at hr
    cases hr
    exact ⟨hd₁, hp.sound (sound_opened he d)⟩
  | @reply data d d' calls hd hr ih =>
    obtain ⟨d₁, calls₁, hp, hd₁⟩ := ih.1.passes data
    rw [hp.run] at hr
    cases hr
    exact ⟨hd₁, hp.sound ih.2⟩

theorem reached_start (d : TOrder F) : Reached (dialogue.next d .start) := by
  have hd : (d.opened .start).Defined := .inr (.inl rfl)
  obtain ⟨d', calls, hp, -⟩ := hd.passes ""
  have hr : Event.start.handler.run d = .done () d' calls := (run_opens rfl d).trans hp.run
  exact hp.next_opens (e := .start) rfl ▸ .opened (e := .start) rfl hr

theorem reached_run (h : Reached d) (texts : List String) :
    Reached (dialogue.run d (texts.map .setData)) := by
  induction texts generalizing d with
  | nil => exact h
  | cons text texts ih =>
    obtain ⟨d', calls, hp, -⟩ := h.spec.1.passes text
    rw [List.map_cons, Machine.run_cons, hp.next]
    exact ih (.reply h hp.run)

/-! ### The ways out -/

theorem exits_of_passes (data : String) (h : Passes data d d' calls) (hd : Exits d') : Exits d := by
  obtain ⟨texts, hm⟩ := hd
  refine ⟨data :: texts, ?_⟩
  rwa [List.map_cons, Machine.run_cons, h.next]

theorem exits_of_pass (data : String) (h : Pass data d none d' calls) (hd : Exits d') : Exits d :=
  exits_of_passes data (.last h) hd

omit [LexicalCast F] in
theorem exits_of_command [LexicalCast F] (hm : d.inputMode = .command) : Exits d := ⟨[], hm⟩

theorem exits_orderResult (hs : d.state = .orderResult) : Exits d :=
  exits_of_pass "" (.orderResult hs) (exits_of_command rfl)

theorem exits_orderReady (hs : d.state = .orderReady) : Exits d :=
  exits_of_pass "" (.orderReady hs) (exits_orderResult rfl)

theorem exits_timeInForce (hs : d.state = .timeInForce) : Exits d :=
  exits_of_passes "GTC"
    (.again (.timeInForce hs (by decide)) (.last (.orderReady rfl))) (exits_orderResult rfl)

section Number

-- Some text is a number.
variable {val : String} {x : F} (hx : LexicalCast.lexicalCast val = some x)
include hx

theorem reads_number (field : F → BncOrder F → BncOrder F) (name : String) (d : TOrder F) :
    ∃ d' calls, ReadsPrice val field name d d' calls := by
  rcases exists_readsPrice val field name d with ⟨-, h⟩ | h
  · rw [hx] at h
    cases h
  · exact h

theorem exits_price (hs : d.state = .price) (ht : d.order.type = .LIMIT) : Exits d := by
  obtain ⟨d', calls, hi⟩ := reads_number hx (fun x o => { o with price := x }) "price" d
  have ht' : d'.order.type = .LIMIT := (hi.type fun _ _ => rfl).trans ht
  exact exits_of_pass val (.priceLimit hs hi ht') (exits_timeInForce rfl)

theorem exits_stopPrice (hs : d.state = .stopPrice) (ht : d.order.type ≠ .STOP_LOSS_LIMIT)
    (ht' : d.order.type ≠ .TAKE_PROFIT_LIMIT) : Exits d := by
  obtain ⟨d', calls, hi⟩ := reads_number hx (fun x o => { o with stopPrice := x }) "stopPrice" d
  have hn : ¬(d'.order.type = .STOP_LOSS_LIMIT ∨ d'.order.type = .TAKE_PROFIT_LIMIT) := by
    rw [hi.type fun _ _ => rfl]
    exact not_or.mpr ⟨ht, ht'⟩
  exact exits_of_pass val (.stopPrice hs hi hn) (exits_timeInForce rfl)

theorem exits_quantity (hs : d.state = .quantity) (ht : d.order.type ≠ .STOP_LOSS_LIMIT)
    (ht' : d.order.type ≠ .TAKE_PROFIT_LIMIT) : Exits d := by
  by_cases hm : d.order.type = .MARKET
  · exact exits_of_passes val (.again (.quantityMarket hs hx hm) (.last (.orderReady rfl)))
      (exits_orderResult rfl)
  by_cases hl : d.order.type = .LIMIT
  · exact exits_of_pass val (.quantityLimit hs hx hl) (exits_price hx rfl hl)
  · exact exits_of_pass val (.quantityStop hs hx hm hl) (exits_stopPrice hx rfl ht ht')

theorem exits_side (hs : d.state = .side) (ht : d.order.type ≠ .STOP_LOSS_LIMIT)
    (ht' : d.order.type ≠ .TAKE_PROFIT_LIMIT) : Exits d := by
  have htype := d.sided_type (firstArg "")
  exact exits_of_pass "" (.side hs)
    (exits_quantity hx rfl (htype ▸ ht) (htype ▸ ht'))

/-- A market order needs the least. -/
theorem exits_type (hs : d.state = .type) : Exits d := by
  have ht : stringToType (firstArg "MARKET") = .MARKET := by decide
  exact exits_of_pass "MARKET" (.type hs (by decide))
    (exits_side hx rfl (by simp [ht]) (by simp [ht]))

theorem exits_inputType (hs : d.state = .inputType) : Exits d :=
  exits_of_pass "" (.inputType hs) (exits_type hx rfl)

theorem exits_symbol (hs : d.state = .symbol) : Exits d :=
  exits_of_passes "" (.again (.symbol hs) (.last (.inputType rfl))) (exits_type hx rfl)

theorem exits_name (hs : d.state = .name) (hl : d.symbolsList ≠ []) : Exits d := by
  rcases one_or_many hl with h | ⟨s, h⟩
  · exact exits_of_pass "" (.nameMany hs h) (exits_symbol hx rfl)
  · exact exits_of_passes "" (.again (.nameOne hs h) (.last (.inputType rfl)))
      (exits_type hx rfl)

omit hx in
theorem exits_delSymbol (hs : d.state = .delSymbol) : Exits d :=
  exits_of_passes "" (.again (.delSymbol hs) (.last (.delReady rfl)))
    (exits_of_command rfl)

omit hx in
theorem exits_delName (hs : d.state = .delName) (hl : d.symbolsList ≠ []) : Exits d := by
  rcases one_or_many hl with h | ⟨s, h⟩
  · exact exits_of_pass "" (.delNameMany hs h) (exits_delSymbol rfl)
  · exact exits_of_passes ""
      (.again (.delNameOne hs h) (.again (.delSymbol rfl) (.last (.delReady rfl))))
      (exits_of_command rfl)

omit hx in
theorem exits_listSymbol (hs : d.state = .listSymbol) : Exits d :=
  exits_of_passes "" (.again (.listSymbol hs) (.last (.idle (.inl rfl))))
    (exits_of_command rfl)

omit hx in
theorem exits_list (hs : d.state = .list) (hl : d.symbolsList ≠ []) : Exits d := by
  rcases one_or_many hl with h | ⟨s, h⟩
  · exact exits_of_pass "" (.listMany hs h) (exits_listSymbol rfl)
  · exact exits_of_passes ""
      (.again (.listOne hs h) (.again (.listSymbol rfl) (.last (.idle (.inl rfl)))))
      (exits_of_command rfl)

/-- From every state but those on the way to the price that nothing follows. -/
theorem exits_of_not_stuck (hd : d.Defined) (hsound : Sound d) (hn : ¬Stuck d) : Exits d := by
  have hl : d.state ≠ .start → d.state ≠ .delete → d.symbolsList ≠ [] := fun h h' =>
    hd.resolve_right (not_or.mpr ⟨h, h'⟩)
  have hstop : d.state = .side ∨ d.state = .quantity ∨ d.state = .stopPrice ∨ d.state = .price →
      d.order.type ≠ .STOP_LOSS_LIMIT := fun h ht => hn ⟨ht, h⟩
  cases hs : d.state with
  | idle | listReady => exact exits_of_command (by simpa [Sound, hs] using hsound)
  | start =>
    by_cases he : d.symbolsList = []
    · exact exits_of_pass "" (.startEmpty hs he) (exits_of_command rfl)
    · exact exits_of_pass "" (.start hs he) (exits_name hx rfl he)
  | delete =>
    by_cases he : d.symbolsList = []
    · exact exits_of_pass "" (.deleteEmpty hs he) (exits_of_command rfl)
    · exact exits_of_pass "" (.delete hs he) (exits_delName rfl he)
  | name => exact exits_name hx hs (hl (by simp [hs]) (by simp [hs]))
  | symbol => exact exits_symbol hx hs
  | inputType => exact exits_inputType hx hs
  | type => exact exits_type hx hs
  | side =>
    simp only [Sound, hs] at hsound
    exact exits_side hx hs (hstop (by simp [hs])) hsound
  | quantity =>
    simp only [Sound, hs] at hsound
    exact exits_quantity hx hs (hstop (by simp [hs])) hsound
  | stopPrice =>
    simp only [Sound, hs] at hsound
    exact exits_stopPrice hx hs (hstop (by simp [hs])) hsound.2.2
  | price =>
    simp only [Sound, hs] at hsound
    exact exits_price hx hs (hsound.resolve_right (hstop (by simp [hs])))
  | timeInForce => exact exits_timeInForce hs
  | orderReady => exact exits_orderReady hs
  | orderResult => exact exits_orderResult hs
  | delName => exact exits_delName hs (hl (by simp [hs]) (by simp [hs]))
  | delSymbol => exact exits_delSymbol hs
  | delReady => exact exits_of_pass "" (.delReady hs) (exits_of_command rfl)
  | list => exact exits_list hs (hl (by simp [hs]) (by simp [hs]))
  | listSymbol => exact exits_listSymbol hs

end Number

/-- A dialogue that is reached can be left, unless it is on the way to a price for a
stop-loss-limit order. -/
theorem exits_iff (hx : ∃ val x, (LexicalCast.lexicalCast val : Option F) = some x)
    (h : Reached d) (hm : d.inputMode = .order) :
    (∃ texts : List String, (dialogue.run d (texts.map .setData)).inputMode = .command) ↔
      ¬(d.order.type = .STOP_LOSS_LIMIT ∧
        (d.state = .side ∨ d.state = .quantity ∨ d.state = .stopPrice ∨ d.state = .price)) := by
  obtain ⟨val, x, hx⟩ := hx
  obtain ⟨hd, hsound⟩ := h.spec
  refine ⟨?_, exits_of_not_stuck hx hd hsound⟩
  rintro ⟨texts, hc⟩ hs
  rw [stuck_run hs hd texts, hm] at hc
  cases hc

theorem exits_newDialogue :
    ∃ texts : List String, (dialogue.run (dialogue.next newDialogue .start)
      (texts.map .setData)).inputMode = .command :=
  (exits_iff ⟨"1", 1, by decide +kernel⟩ (reached_start newDialogue) (by decide +kernel)).mpr
    (by decide +kernel)

/-- A dialogue about a stop-loss-limit order. -/
def stopLossLimit : TOrder ℚ :=
  dialogue.run (dialogue.next newDialogue .start) (["first", "STOP_LOSS_LIMIT"].map .setData)

theorem not_exits_stopLossLimit : Reached stopLossLimit ∧ stopLossLimit.inputMode = .order ∧
    ¬∃ texts : List String,
      (dialogue.run stopLossLimit (texts.map .setData)).inputMode = .command := by
  have hr : Reached stopLossLimit := reached_run (reached_start newDialogue) _
  have hm : stopLossLimit.inputMode = .order := by decide +kernel
  refine ⟨hr, hm, ?_⟩
  rintro ⟨texts, hc⟩
  rw [stuck_run ⟨by decide +kernel, .inl (by decide +kernel)⟩ hr.spec.1 texts, hm] at hc
  cases hc

end BotTrader.Order
