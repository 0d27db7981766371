import Mathlib.Data.List.Nodup
import Mathlib.Order.Fin.Basic
import BotTrader.Control.Stop

/-! When client order ids are reused. An id is a side and a cycle counter, and
the counter only moves when a sale fills; an order that is given up leaves both
as they were, so starting its side again repeats its id. -/

namespace BotTrader.Control

open Automata Python Strategy

/-! ### The abstract symbol -/

section Abstract

variable {π : Type} {name : Fin 2 → ℕ → String} {c : State π} {i : Input π}

/-- The side has placed no order in the current cycle. -/
def State.Unused (name : Fin 2 → ℕ → String) (c : State π) (side : Fin 2) : Prop :=
  c.ids side ≠ name side c.counter

/-- The input does not make the symbol place an order again under the id of an
earlier one: a start finds every side unused that it can still reach in this
cycle, and a stop does not leave a pending change behind with its order. -/
def ReissueFree (name : Fin 2 → ℕ → String) (c : State π) : Input π → Prop
  | .start side _ _ => ∀ j, side < j ∨ side = j ∧ c.phase ≠ .halfFilled → c.Unused name j
  | .stop => c.phase = .confirming ∨ c.phase = .filling → c.changeMode = false
  | _ => True

/-- What the ids issued so far leave open. -/
structure Fresh (name : Fin 2 → ℕ → String) (c : State π) (ids : List String) : Prop where
  nodup : ids.Nodup
  named : ∀ x ∈ ids, ∃ j n, x = name j n ∧ n ≤ c.counter
  last : ∀ j, c.Unused name j → name j c.counter ∉ ids
  waiting : c.phase = .waiting → ∀ j, c.step ≤ j → name j c.counter ∉ ids
  placed : c.phase = .confirming ∨ c.phase = .filling ∨ c.phase = .halfFilled →
    ∀ j, c.step < j → name j c.counter ∉ ids
  deleting : ∀ k, c.phase = .deleting k → c.changeMode = true →
    ∀ j, c.step ≤ j → name j c.counter ∉ ids

/-- The ids of the orders that a list of acts issues. -/
def idsOf (acts : List (Act π)) : List String := (acts.filterMap Act.ticket?).map Ticket.id

theorem idsOf_append (acts acts' : List (Act π)) :
    idsOf (acts ++ acts') = idsOf acts ++ idsOf acts' := by
  simp [idsOf]

theorem fresh_nil (name : Fin 2 → ℕ → String) (c : State π) : Fresh name c [] := by
  constructor <;> simp

section Step

variable {c' : State π} {ids : List String}

/-- A transition that issues nothing and stays in the cycle. -/
theorem Fresh.keep (h : Fresh name c ids) (hn : c'.counter = c.counter) (hd : c'.ids = c.ids)
    (waiting : c'.phase = .waiting → ∀ j, c'.step ≤ j → name j c.counter ∉ ids)
    (placed : c'.phase = .confirming ∨ c'.phase = .filling ∨ c'.phase = .halfFilled →
      ∀ j, c'.step < j → name j c.counter ∉ ids)
    (deleting : ∀ k, c'.phase = .deleting k → c'.changeMode = true →
      ∀ j, c'.step ≤ j → name j c.counter ∉ ids) : Fresh name c' ids where
  nodup := h.nodup
  named := by rw [hn]; exact h.named
  last := by simpa only [State.Unused, hn, hd] using h.last
  waiting := by rw [hn]; exact waiting
  placed := by rw [hn]; exact placed
  deleting := by rw [hn]; exact deleting

theorem Fresh.place (hname : ∀ j k m n, name j m = name k n → j = k ∧ m = n)
    (h : Fresh name c ids) (hw : c.phase = .waiting) :
    Fresh name (c.place name) (ids ++ [name c.step c.counter]) where
  nodup := by
    have hx := h.waiting hw c.step le_rfl
    refine List.nodup_append.2 ⟨h.nodup, List.nodup_singleton _, fun x hm y hy => ?_⟩
    rintro rfl
    exact hx (List.mem_singleton.mp hy ▸ hm)
  named := by
    intro x hx
    rcases List.mem_append.mp hx with hx | hx
    · exact h.named x hx
    · exact ⟨c.step, c.counter, List.mem_singleton.mp hx, le_rfl⟩
  last := by
    intro j hj hm
    simp only [State.Unused, State.place, Function.update_apply] at hj
    by_cases hs : j = c.step
    · simp [hs] at hj
    · rw [if_neg hs] at hj
      rcases List.mem_append.mp hm with hm | hm
      · exact h.last j hj hm
      · exact hs (hname _ _ _ _ (List.mem_singleton.mp hm)).1
  waiting := by simp [State.place]
  placed := by
    intro _ j hj hm
    have hj' : c.step < j := hj
    rcases List.mem_append.mp hm with hm | hm
    · exact h.waiting hw j hj'.le hm
    · exact hj'.ne' (hname _ _ _ _ (List.mem_singleton.mp hm)).1
  deleting := by simp [State.place]

/-- A new cycle starts with unused ids. -/
theorem Fresh.next_cycle (hname : ∀ j k m n, name j m = name k n → j = k ∧ m = n)
    (h : Fresh name c ids) (j : Fin 2) : name j (c.counter + 1) ∉ ids := by
  intro hm
  obtain ⟨k, n, hx, hn⟩ := h.named _ hm
  have := (hname _ _ _ _ hx).2
  omega

theorem Fresh.fill (hname : ∀ j k m n, name j m = name k n → j = k ∧ m = n) (readable : Bool)
    (h : Fresh name c ids) (hf : c.phase = .filling ∨ c.phase = .halfFilled) :
    Fresh name (c.fill readable) ids := by
  have open_ (j : Fin 2) (hj : c.turn.step ≤ j) : name j c.turn.counter ∉ ids := by
    by_cases h0 : c.step = 0
    · simp only [State.turn, h0, if_true] at hj ⊢
      exact h.placed (.inr hf) j (by rw [h0]; omega)
    · simp only [State.turn, h0, if_false]
      exact h.next_cycle hname j
  exact {
    nodup := h.nodup
    named := by
      intro x hx
      obtain ⟨j, n, hx', hn⟩ := h.named x hx
      refine ⟨j, n, hx', ?_⟩
      simp only [State.fill, State.turn]
      split <;> omega
    last := by
      intro j hj
      by_cases h0 : c.step = 0
      · simp only [State.fill, State.turn, State.Unused, h0, if_true] at hj ⊢
        exact h.last j hj
      · simp only [State.fill, State.turn, h0, if_false]
        exact h.next_cycle hname j
    waiting := fun _ => open_
    placed := fun _ j hj => open_ j hj.le
    deleting := by
      intro k hk
      cases readable <;> simp [State.fill] at hk }

theorem fresh_load {side : Fin 2} {prices : Fin 2 → π} {fires : Bool} (h : Fresh name c ids)
    (hi : ReissueFree name c (.start side prices fires)) (hp : c.phase ≠ .halfFilled) (j : Fin 2)
    (hj : side ≤ j) : name j c.counter ∉ ids := by
  refine h.last j (hi j ?_)
  rcases hj.lt_or_eq with hj | hj
  · exact .inl hj
  · exact .inr ⟨hj, hp⟩

end Step

/-- A start that leaves the symbol free to place its side's order. -/
theorem Fresh.begin {side : Fin 2} {prices : Fin 2 → π} {fires : Bool} (h : Fresh name c ids)
    (hi : ReissueFree name c (.start side prices fires)) (hp : c.phase = .idle) :
    Fresh name (c.load side prices).wait ids :=
  h.keep rfl rfl (fun _ => fresh_load h hi (by simp [hp])) (by simp [State.wait])
    (by simp [State.wait])

theorem Fresh.rest (h : Fresh name c ids) : Fresh name c.rest ids :=
  h.keep rfl rfl (by simp [State.rest]) (by simp [State.rest]) (by simp [State.rest])

theorem Fresh.cancel (h : Fresh name c ids) {k : Fin 2}
    (hd : c.changeMode = true → ∀ j, c.step ≤ j → name j c.counter ∉ ids) :
    Fresh name (c.cancel k) ids :=
  h.keep rfl rfl (by simp [State.cancel]) (by simp [State.cancel]) fun _ _ => hd

theorem Fresh.reload {side : Fin 2} {prices : Fin 2 → π} {fires : Bool} (h : Fresh name c ids)
    (hi : ReissueFree name c (.start side prices fires))
    (hp : c.phase = .waiting ∨ c.phase = .halfFilled) : Fresh name (c.load side prices) ids := by
  rcases hp with hp | hp
  · exact h.keep rfl rfl (fun _ => fresh_load h hi (by simp [hp])) (by simp [State.load, hp])
      (by simp [State.load, hp])
  · exact h.keep rfl rfl (by simp [State.load, hp]) (fun _ j hj => h.last j (hi j (.inl hj)))
      (by simp [State.load, hp])

theorem fresh_step (hname : ∀ j k m n, name j m = name k n → j = k ∧ m = n) {ids : List String}
    (h : Fresh name c ids) (hi : ReissueFree name c i) :
    Fresh name ((machine name).next c i)
      (ids ++ idsOf ((machine name).emit c i)) := by
  have hs := step_cases name c i
  generalize (machine name).next c i = c' at hs ⊢
  generalize (machine name).emit c i = acts at hs ⊢
  cases hs with
  | skip => simpa [idsOf] using h
  | begin hp => simpa [idsOf] using h.begin hi hp
  | @beginAndPlace side prices hp =>
    simpa [idsOf, List.filterMap_cons, State.ticket] using (h.begin hi hp).place hname rfl
  | reload hp => simpa [idsOf] using h.reload hi hp
  | @change side prices fires k hc =>
    have hp : c.phase ≠ .halfFilled := by rcases hc with ⟨hc | hc, -⟩ | hc <;> simp [hc]
    have hl : Fresh name ({ c.load side prices with changeMode := true }.cancel k) ids :=
      h.keep rfl rfl (by simp [State.cancel]) (by simp [State.cancel])
        fun _ _ _ => fresh_load h hi hp
    simpa [idsOf, List.filterMap_cons] using hl
  | place hw => simpa [idsOf, List.filterMap_cons, State.ticket] using h.place hname hw
  | @halt k hc =>
    have hd : c.changeMode = true → ∀ j, c.step ≤ j → name j c.counter ∉ ids := by
      intro hm
      rcases hc with ⟨hc, -⟩ | hc
      · simp [hi hc] at hm
      · exact h.deleting k hc hm
    simpa [idsOf, List.filterMap_cons] using Fresh.cancel (k := k) h hd
  | confirm hc =>
    have hf : Fresh name { c with phase := .filling } ids :=
      h.keep rfl rfl (by simp) (fun _ => h.placed (.inl hc)) (by simp)
    simpa [idsOf, List.filterMap_cons, State.ticket] using hf
  | fill hf => simpa [idsOf, List.filterMap_cons, State.ticket] using h.fill hname _ hf
  | @resume id fires readable k hp hm =>
    have hf : Fresh name { c.wait with changeMode := false } ids :=
      h.keep rfl rfl (fun _ => h.deleting k hp hm) (by simp [State.wait]) (by simp [State.wait])
    simpa [idsOf, List.filterMap_cons, State.ticket] using hf
  | canceled | rest | timeout => simpa [idsOf, List.filterMap_cons, State.ticket] using h.rest

/-- The ids of a run of such inputs are distinct. -/
theorem ids_nodup (hname : ∀ j k m n, name j m = name k n → j = k ∧ m = n)
    {is : List (Input π)} (h : (machine name).Along (ReissueFree name) c is) :
    (idsOf ((machine name).emitted c is)).Nodup := by
  have hf : Fresh name ((machine name).run c is) (idsOf ([] ++ (machine name).emitted c is)) :=
    Machine.run_history (fun c acts => Fresh name c (idsOf acts))
      (fun c acts i hI hi => by rw [idsOf_append]; exact fresh_step hname hI hi)
      (fresh_nil name c) h
  simpa using hf.nodup

/-- The sides carry names of theirs, if any. -/
def State.Named (name : Fin 2 → ℕ → String) (c : State π) : Prop :=
  ∀ j, c.ids j = "" ∨ ∃ n, c.ids j = name j n

theorem named_step (h : c.Named name) : ((machine name).next c i).Named name := by
  have place {c : State π} (h : c.Named name) : (c.place name).Named name := by
    intro j
    by_cases hj : j = c.step
    · subst hj
      exact .inr ⟨c.counter, by simp [State.place]⟩
    · simpa [State.place, hj] using h j
  have hs := step_cases name c i
  generalize (machine name).next c i = c' at hs ⊢
  generalize (machine name).emit c i = acts at hs
  cases hs with
  | place => exact place h
  | beginAndPlace =>
    apply place
    exact h
  | _ => exact h

end Abstract

/-! ### The script -/

/-- The texts of the two sides are different, whatever the counter. -/
theorem orderId_sides_ne {symbol : String} (hs : "USDT_to_" ++ symbol ≠ symbol ++ "_to_USDT")
    (m n : ℕ) : orderId symbol 0 m ≠ orderId symbol 1 n := by
  intro h
  have hb : "order_USDT_to_" = "order_" ++ "USDT_to_" := by decide
  have hc : "_to_USDT_" = "_to_USDT" ++ "_" := by decide
  have h01 : (0 : Fin 2) ≠ 1 := by decide
  have hl := congrArg String.toList h
  simp only [orderId, if_true, h01, if_false, hb, hc, String.toList_append,
    List.append_assoc] at hl
  have hl' := List.append_cancel_left hl
  simp only [← List.append_assoc] at hl'
  have hp := (List.append_inj hl' (by simp)).1
  exact hs (String.toList_inj.mp (by simpa using List.append_cancel_right hp))

theorem toString_inj {m n : ℕ} (h : toString m = toString n) : m = n := by
  have hd := congrArg (fun s => Nat.ofDigitChars 10 s.toList 0) h
  simpa [Nat.toString_eq_ofList_toDigits] using hd

theorem orderId_inj {symbol : String} (hs : "USDT_to_" ++ symbol ≠ symbol ++ "_to_USDT")
    {j k : Fin 2} {m n : ℕ} (h : orderId symbol j m = orderId symbol k n) : j = k ∧ m = n := by
  have hne := orderId_sides_ne hs
  match j, k with
  | 0, 1 => exact absurd h (hne m n)
  | 1, 0 => exact absurd h.symm (hne n m)
  | 0, 0 => exact ⟨rfl, toString_inj (by simpa [orderId] using h)⟩
  | 1, 1 => exact ⟨rfl, toString_inj (by simpa [orderId] using h)⟩

section Script

variable {F : Type} [Runtime F]

/-- The message does not make the symbol place an order again under an old id:
a start finds each side that it can still reach without an order in this cycle,
and a stop does not find `change_mode` left over from an order given up before. -/
def KeepsIdsFresh (d : SymbolData F) : Event F → Prop
  | .tradeRun data => ∀ a side, data.lookup "a" = some a → data.lookup "p" = some side →
    if a.isStr "start" then
      ∀ j, (d.loadTradeData side).step < j ∨
        (d.loadTradeData side).step = j ∧ ¬(d.fsm = .WAIT_ORDER_FILL ∧ d.waitOrderAct = false) →
        (d.orders j).newClientOrderId ≠ orderId d.symbol j d.counter
    else d.fsm = .WAIT_ORDER_CMPL ∨ d.fsm = .WAIT_ORDER_FILL ∧ d.waitOrderAct = true →
      d.changeMode = false
  | _ => True

omit [Runtime F] in
theorem halfFilled_of_flags {symbol : String} {d : SymbolData F} {c : State F}
    (h : Models symbol d c) (hf : d.fsm = .WAIT_ORDER_FILL) (hw : d.waitOrderAct = false) :
    c.phase = .halfFilled := by
  have ht := waitOrderAct_iff h
  have hs := h.shows
  cases hp : c.phase <;> simp_all [Shows, Phase.Tracking]

theorem reissueFree_input {symbol : String} {d : SymbolData F} {c : State F}
    (h : Models symbol d c) {e : Event F} (he : KeepsIdsFresh d e) :
    ReissueFree (orderId symbol) c (input d e) := by
  cases e with
  | tradeRun data =>
    rcases ha : data.lookup "a" with _ | a
    · simp only [input, ha]
      trivial
    rcases hp : data.lookup "p" with _ | side
    · simp only [input, ha, hp]
      trivial
    have hc := he a side ha hp
    cases hg : a.isStr "start" with
    | true =>
      simp only [hg, if_true] at hc
      simp only [input, ha, hp, hg, if_true]
      intro j hj
      simp only [State.Unused, h.ids, h.counter, ← h.symbol]
      refine hc j (hj.imp id (And.imp_right fun hh => ?_))
      rintro ⟨hf, hw⟩
      exact hh (halfFilled_of_flags h hf hw)
    | false =>
      simp only [hg, Bool.false_eq_true, if_false] at hc
      simp only [input, ha, hp, hg, Bool.false_eq_true, if_false]
      intro hp'
      rw [h.changeMode]
      refine hc ?_
      have hs := h.shows
      rcases hp' with hp' | hp'
      · simp only [Shows, hp'] at hs
        exact .inl hs.1
      · have hw := (waitOrderAct_iff h).2 (by simp [hp', Phase.Tracking])
        simp only [Shows, hp'] at hs
        exact .inr ⟨hs.1, hw⟩
  | price price =>
    simp only [input]
    split <;> trivial
  | _ => trivial

/-- The ids of a run of such messages are distinct. -/
theorem orderIds_nodup {symbol : String} (hs : "USDT_to_" ++ symbol ≠ symbol ++ "_to_USDT")
    (es : List (Event F)) (h : bot.Along KeepsIdsFresh (SymbolData.init symbol) es) :
    ((ordersOf (SymbolData.init symbol) es).map Order.newClientOrderId).Nodup := by
  have hm := models_init (F := F) symbol
  have hd := ids_nodup (fun _ _ _ _ => orderId_inj hs)
    ((bot_simulates symbol).along (fun _ _ _ hr he => reissueFree_input hr he) hm h)
  rw [idsOf, ← tickets_of_run hm, List.map_map] at hd
  exact hd

omit [Runtime F] in
/-- A start that finds no order of this counter on the sides that it can reach. -/
theorem keepsIdsFresh_start {d : SymbolData F} {side : String}
    (h : ∀ j, (d.loadTradeData (.str side)).step < j ∨
      (d.loadTradeData (.str side)).step = j ∧
        ¬(d.fsm = .WAIT_ORDER_FILL ∧ d.waitOrderAct = false) →
      (d.orders j).newClientOrderId ≠ orderId d.symbol j d.counter) :
    KeepsIdsFresh d (.tradeRun (command "start" side)) := by
  intro a side' ha hp
  obtain rfl : a = .str "start" := by simpa [command] using ha.symm
  obtain rfl : side' = .str side := Option.some.inj (hp.symm.trans (by rfl))
  rw [if_pos (by rfl)]
  exact h

omit [Runtime F] in
theorem keepsIdsFresh_stop {d : SymbolData F} {side : String} (h : d.changeMode = false) :
    KeepsIdsFresh d (.tradeRun (command "stop" side)) := by
  intro a side' ha _
  obtain rfl : a = .str "stop" := by simpa [command] using ha.symm
  rw [if_neg (by simp [Json.isStr])]
  exact fun _ => h

/-- A purchase and its sale, the second purchase, which is stopped, and a sale that is started
then. -/
def boughtTwice : List (Event ℚ) :=
  placedOrder ++
    [.orderReport (streamReport "BTCUSDT" "NEW" "order_USDT_to_BTC_0" "BNB" "0" "10"),
      .orderReport (streamReport "BTCUSDT" "FILLED" "order_USDT_to_BTC_0" "BTC" "0.001" "10"),
      .price (.str "19"), .price (.str "21"),
      .orderReport (streamReport "BTCUSDT" "NEW" "order_BTC_to_USDT_0" "BNB" "0" "20"),
      .orderReport (streamReport "BTCUSDT" "FILLED" "order_BTC_to_USDT_0" "USDT" "0.02" "20"),
      .price (.str "9"), .price (.str "11"),
      .orderReport (streamReport "BTCUSDT" "NEW" "order_USDT_to_BTC_1" "BNB" "0" "10"),
      .tradeRun (command "stop" "BUY"),
      .orderReport (streamReport "BTCUSDT" "CANCELED" "order_USDT_to_BTC_1" "BNB" "0" "10"),
      .tradeRun (command "start" "SELL"), .price (.str "19"), .price (.str "21")]

/-- Four orders go out, each with an id of its own. -/
theorem orderIds_nodup_boughtTwice :
    (ordersOf (SymbolData.init "BTC") boughtTwice).length = 4 ∧
      ((ordersOf (SymbolData.init "BTC") boughtTwice).map Order.newClientOrderId).Nodup := by
  refine ⟨by decide +kernel, orderIds_nodup (by decide) _ ?_⟩
  exact ⟨trivial, keepsIdsFresh_start (by decide +kernel), trivial, trivial, trivial, trivial,
    trivial, trivial, trivial, trivial, trivial, trivial, trivial,
    keepsIdsFresh_stop (by decide +kernel), trivial, keepsIdsFresh_start (by decide +kernel),
    trivial, trivial, trivial⟩

end Script

/-! ### An id that is reused -/

/-- A confirmed order is stopped and cancelled, and its side is started again. -/
def restarted : List (Event ℚ) :=
  confirmedOrder ++ [.tradeRun (command "stop" "BUY"), .orderReport canceledReport,
    .tradeRun (command "start" "BUY")]

/-- The second order goes out under the id of the first. -/
theorem orderIds_reused : ¬∀ (symbol : String) (es : List (Event ℚ)),
    ((ordersOf (SymbolData.init symbol) es).map Order.newClientOrderId).Nodup := by
  intro h
  have hn := h "BTC" restarted
  have he : (ordersOf (SymbolData.init "BTC") restarted).map Order.newClientOrderId =
      ["order_USDT_to_BTC_0", "order_USDT_to_BTC_0"] := by decide +kernel
  simp [he] at hn

end BotTrader.Control
