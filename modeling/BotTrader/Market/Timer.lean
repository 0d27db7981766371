import BotTrader.Control.Refinement
import BotTrader.Strategy.Messages

/-! The confirmation timer of a symbol. Placing an order starts a wait, stopping
the timer cancels the wait, and a new wait replaces the old one; but a wait that
has run out has its handler queued, and no cancellation recalls that handler. -/

namespace BotTrader.Market

open Automata Python Strategy Control

variable {F : Type}

/-- A symbol with the orders that it placed and the waits that it started for
them. A wait is known by the index of its order, and a delivered report carries
the number of orders placed before it. -/
structure Timed (F : Type) where
  data : SymbolData F
  orders : List (Ticket F)
  pending : Option ℕ
  queued : List ℕ
  delivered : List (ℕ × Dict F)

inductive TimerEvent (F : Type) where
  /-- Anything but a timeout reaches the symbol. -/
  | message (e : Event F)
  /-- The pending wait runs out. -/
  | expire
  /-- The handler at the position runs. -/
  | fire (i : ℕ)

namespace Timed

def perform (t : Timed F) : Act F → Timed F
  | .issue o => { t with orders := t.orders ++ [o] }
  | .delete _ => t
  | .arm => { t with pending := some (t.orders.length - 1) }
  | .disarm => { t with pending := none }

/-- The reports delivered up to and including an event. -/
def record (t : Timed F) : Event F → List (ℕ × Dict F)
  | .orderReport r => t.delivered ++ [(t.orders.length, r)]
  | _ => t.delivered

variable [Runtime F]

/-- The acts by which a symbol answers an event. -/
def acts (t : Timed F) (e : Event F) : List (Act F) := (bot.emit t.data e).filterMap Call.act?

def deliver (t : Timed F) (e : Event F) : Timed F :=
  (t.acts e).foldl perform { t with data := bot.next t.data e, delivered := t.record e }

def next (t : Timed F) : TimerEvent F → Timed F
  | .message .orderCompleteTimeout => t
  | .message e => t.deliver e
  | .expire => match t.pending with
    | some k => { t with pending := none, queued := t.queued ++ [k] }
    | none => t
  | .fire i =>
    if i < t.queued.length then
      { t with queued := t.queued.eraseIdx i }.deliver .orderCompleteTimeout
    else t

def init (symbol : String) : Timed F where
  data := SymbolData.init symbol
  orders := []
  pending := none
  queued := []
  delivered := []

end Timed

/-- A symbol with its timer, under messages, expiries and handlers in any order. -/
def timed [Runtime F] : Machine (Timed F) (TimerEvent F) Empty where
  next := Timed.next
  emit _ _ := []

namespace Timed

variable {t : Timed F} {e : Event F} {k : ℕ}

/-- A wait for the order is pending or has its handler queued. -/
def Outstanding (t : Timed F) (k : ℕ) : Prop := t.pending = some k ∨ k ∈ t.queued

/-- A report of the order with the status was delivered since the order was placed. -/
def Reported (t : Timed F) (k : ℕ) (status : String) : Prop :=
  ∃ n r o, (n, r) ∈ t.delivered ∧ k < n ∧ t.orders[k]? = some o ∧ textAt r "c" = some o.id ∧
    textAt r "X" = some status

/-- The event confirms the order. -/
def Confirms (t : Timed F) (e : Event F) (k : ℕ) : Prop :=
  ∃ r o, e = .orderReport r ∧ t.orders[k]? = some o ∧ textAt r "c" = some o.id ∧
    textAt r "X" = some "NEW"

/-! ### What acts change -/

@[simp] theorem perform_data (acts : List (Act F)) (t : Timed F) :
    (acts.foldl perform t).data = t.data := by
  induction acts generalizing t with
  | nil => rfl
  | cons a acts ih =>
    rw [List.foldl_cons, ih]
    cases a <;> rfl

@[simp] theorem perform_queued (acts : List (Act F)) (t : Timed F) :
    (acts.foldl perform t).queued = t.queued := by
  induction acts generalizing t with
  | nil => rfl
  | cons a acts ih =>
    rw [List.foldl_cons, ih]
    cases a <;> rfl

@[simp] theorem perform_delivered (acts : List (Act F)) (t : Timed F) :
    (acts.foldl perform t).delivered = t.delivered := by
  induction acts generalizing t with
  | nil => rfl
  | cons a acts ih =>
    rw [List.foldl_cons, ih]
    cases a <;> rfl

@[simp] theorem perform_orders (acts : List (Act F)) (t : Timed F) :
    (acts.foldl perform t).orders = t.orders ++ acts.filterMap Act.ticket? := by
  induction acts generalizing t with
  | nil => simp
  | cons a acts ih =>
    rw [List.foldl_cons, ih]
    cases a <;> simp [perform, List.filterMap_cons]

variable [Runtime F]

@[simp] theorem deliver_data (t : Timed F) (e : Event F) :
    (t.deliver e).data = bot.next t.data e := perform_data _ _

@[simp] theorem deliver_queued (t : Timed F) (e : Event F) : (t.deliver e).queued = t.queued :=
  perform_queued _ _

@[simp] theorem deliver_delivered (t : Timed F) (e : Event F) :
    (t.deliver e).delivered = t.record e := perform_delivered _ _

@[simp] theorem deliver_orders (t : Timed F) (e : Event F) :
    (t.deliver e).orders = t.orders ++ (t.acts e).filterMap Act.ticket? := perform_orders _ _

theorem acts_eq {symbol : String} {c : State F} (h : Models symbol t.data c) (e : Event F) :
    t.acts e = (machine (orderId symbol)).emit c (input t.data e) :=
  (bot_simulates symbol).emit h e

omit [Runtime F] in
/-- Acts that arm no timer start no wait. -/
theorem perform_pending {acts : List (Act F)} (ha : Act.arm ∉ acts)
    (hp : (acts.foldl perform t).pending = some k) : t.pending = some k := by
  induction acts generalizing t with
  | nil => exact hp
  | cons a acts ih =>
    rw [List.mem_cons, not_or] at ha
    have hp' := ih ha.2 hp
    cases a with
    | arm => exact absurd rfl ha.1
    | disarm => cases hp'
    | issue o => exact hp'
    | delete id => exact hp'

/-! ### Waits for unconfirmed orders -/

/-- Every wait is for an order not yet confirmed, and the pending one for the last. -/
structure Unconfirmed (t : Timed F) (c : State F) : Prop where
  known : ∀ k, t.Outstanding k → k < t.orders.length
  unconfirmed : ∀ k, t.Outstanding k → ¬t.Reported k "NEW"
  last : ∀ k, t.pending = some k → k + 1 = t.orders.length
  current : c.phase = .confirming → ∃ os o, t.orders = os ++ [o] ∧ o.id = c.ids c.step
  counted : ∀ n r, (n, r) ∈ t.delivered → n ≤ t.orders.length

omit [Runtime F] in
theorem mem_record {n : ℕ} {r : Dict F} (h : (n, r) ∈ t.record e) :
    (n, r) ∈ t.delivered ∨ n = t.orders.length ∧ e = .orderReport r := by
  cases e with
  | orderReport r' =>
    rcases List.mem_append.mp h with h | h
    · exact .inl h
    · obtain ⟨rfl, rfl⟩ := Prod.mk.inj (List.mem_singleton.mp h)
      exact .inr ⟨rfl, rfl⟩
  | _ => exact .inl h

/-- What is reported of an old order after an event was so before, or by the event. -/
theorem reported_deliver {status : String} (hk : k < t.orders.length)
    (hr : (t.deliver e).Reported k status) : t.Reported k status ∨
      ∃ r o, e = .orderReport r ∧ t.orders[k]? = some o ∧ textAt r "c" = some o.id ∧
        textAt r "X" = some status := by
  obtain ⟨n, r, o, hm, hn, ho, hc, hx⟩ := hr
  rw [deliver_orders, List.getElem?_append_left hk] at ho
  rw [deliver_delivered] at hm
  rcases mem_record hm with hm | ⟨-, rfl⟩
  · exact .inl ⟨n, r, o, hm, hn, ho, hc, hx⟩
  · exact .inr ⟨r, o, rfl, ho, hc, hx⟩

/-- Acts that place an order start its wait. -/
theorem pending_of_place {o : Ticket F} (ha : t.acts e = [.issue o, .arm]) :
    (t.deliver e).pending = some t.orders.length := by
  simp [Timed.deliver, ha, perform]

theorem outstanding_of_place {o : Ticket F} (ha : t.acts e = [.issue o, .arm])
    (ho : (t.deliver e).Outstanding k) : k = t.orders.length ∨ k ∈ t.queued := by
  rcases ho with hp | hq
  · rw [pending_of_place ha] at hp
    exact .inl (Option.some.inj hp).symm
  · exact .inr (by simpa using hq)

theorem pending_of_quiet (ha : Act.arm ∉ t.acts e) (hp : (t.deliver e).pending = some k) :
    t.pending = some k :=
  perform_pending (t := { t with data := bot.next t.data e, delivered := t.record e }) ha hp

theorem outstanding_of_quiet (ha : Act.arm ∉ t.acts e) (ho : (t.deliver e).Outstanding k) :
    t.Outstanding k :=
  ho.imp (pending_of_quiet ha) fun hq => by simpa using hq

omit [Runtime F] in
theorem Unconfirmed.counted_record {c : State F} {n : ℕ} {r : Dict F} (h : t.Unconfirmed c)
    (hr : (n, r) ∈ t.record e) : n ≤ t.orders.length := by
  rcases mem_record hr with hr | ⟨rfl, -⟩
  · exact h.counted n r hr
  · exact le_rfl

/-- A wait that the event does not confirm stays unconfirmed. -/
theorem Unconfirmed.not_reported {c : State F} (h : t.Unconfirmed c) (ho : t.Outstanding k)
    (he : ¬t.Confirms e k) : ¬(t.deliver e).Reported k "NEW" := by
  intro hr
  rcases reported_deliver (h.known k ho) hr with hr | hr
  · exact h.unconfirmed k ho hr
  · exact he hr

/-- A new order has a wait, and no report yet. -/
theorem Unconfirmed.place {c c' : State F} {o : Ticket F} (h : t.Unconfirmed c)
    (ha : t.acts e = [.issue o, .arm]) (hid : o.id = c'.ids c'.step)
    (he : ∀ k, t.Outstanding k → (t.deliver e).Outstanding k → ¬t.Confirms e k) :
    (t.deliver e).Unconfirmed c' := by
  have hord : (t.deliver e).orders = t.orders ++ [o] := by
    rw [deliver_orders, ha]
    rfl
  have hlen : (t.deliver e).orders.length = t.orders.length + 1 := by
    rw [hord, List.length_append]
    rfl
  exact {
    known := fun k ho => by
      rcases outstanding_of_place ha ho with rfl | hq
      · omega
      · have := h.known k (.inr hq)
        omega
    unconfirmed := fun k ho => by
      rcases outstanding_of_place ha ho with rfl | hq
      · -- a report of the new order would have been delivered before the order
        rintro ⟨n, r, o, hd, hn, -⟩
        have := h.counted_record (by simpa using hd)
        omega
      · exact h.not_reported (.inr hq) (he k (.inr hq) ho)
    last := fun k hp => by
      rw [pending_of_place ha] at hp
      have := Option.some.inj hp
      omega
    current := fun _ => ⟨t.orders, o, hord, hid⟩
    counted := fun n r hr => by
      have := h.counted_record (by simpa using hr)
      omega }

theorem Unconfirmed.quiet {c c' : State F} (h : t.Unconfirmed c)
    (ha : (t.acts e).filterMap Act.ticket? = []) (harm : Act.arm ∉ t.acts e)
    (hc : c'.phase = .confirming → c' = c)
    (he : ∀ k, t.Outstanding k → (t.deliver e).Outstanding k → ¬t.Confirms e k) :
    (t.deliver e).Unconfirmed c' := by
  have hord : (t.deliver e).orders = t.orders := by rw [deliver_orders, ha, List.append_nil]
  exact {
    known := fun k ho => by
      rw [hord]
      exact h.known k (outstanding_of_quiet harm ho)
    unconfirmed := fun k ho =>
      have ho' := outstanding_of_quiet harm ho
      h.not_reported ho' (he k ho' ho)
    last := fun k hp => by
      rw [hord]
      exact h.last k (pending_of_quiet harm hp)
    current := fun hp => by
      have he := hc hp
      rw [he] at hp
      rw [hord, he]
      exact h.current hp
    counted := fun n r hr => by
      rw [hord]
      exact h.counted_record (by simpa using hr) }

/-- An event that confirms no order with a wait left keeps the waits unconfirmed. -/
theorem Unconfirmed.deliver {symbol : String} {c : State F} (h : t.Unconfirmed c)
    (hm : Models symbol t.data c)
    (he : ∀ k, t.Outstanding k → (t.deliver e).Outstanding k → ¬t.Confirms e k) :
    (t.deliver e).Unconfirmed ((machine (orderId symbol)).next c (input t.data e)) := by
  have hs := step_cases (orderId symbol) c (input t.data e)
  rw [← acts_eq hm e] at hs
  rcases hs.places_or_not with ⟨c₀, ha, hc, -⟩ | ⟨ha, harm, hc⟩
  · exact h.place ha (by simp [hc, State.place, State.ticket]) he
  · exact h.quiet ha harm hc he

/-- A confirmation finds no wait for its order, unless the symbol is in the state that
stops the timer and the wait has not run out. -/
def InTime (t : Timed F) : TimerEvent F → Prop
  | .message e => ∀ k, t.Outstanding k → t.Confirms e k →
      t.data.fsm = .WAIT_ORDER_CMPL ∧ k ∉ t.queued
  | _ => True

/-- A confirmation in time ends the wait. -/
theorem not_outstanding_of_inTime {symbol : String} {c : State F} (h : t.Unconfirmed c)
    (hm : Models symbol t.data c) (hi : t.InTime (.message e)) (hout : t.Outstanding k)
    (ho : (t.deliver e).Outstanding k) : ¬t.Confirms e k := by
  intro hc
  obtain ⟨hf, hq⟩ := hi k hout hc
  have hp : t.pending = some k := hout.resolve_right hq
  have hphase : c.phase = .confirming := by
    have hs := hm.shows
    cases hp : c.phase <;> simp_all [Shows]
  obtain ⟨r, o, rfl, hko, hrc, hrx⟩ := hc
  obtain ⟨os, o', hos, hid⟩ := h.current hphase
  -- the pending wait is that of the last order, the one to be confirmed
  have ho' : o = o' := by
    have hl := h.last k hp
    have hk' : k = os.length := by simpa [hos] using hl
    simpa [hos, hk'] using hko.symm
  have ha : t.acts (.orderReport r) = [.disarm] := by
    rw [acts_eq hm]
    simp [machine, input, Control.step, hphase, hrc, hrx, ho', hid]
  have hnone : (t.deliver (.orderReport r)).pending = none := by simp [Timed.deliver, ha, perform]
  rcases ho with hp' | hq'
  · simp [hnone] at hp'
  · exact hq (by simpa using hq')

/-! ### Runs -/

omit [Runtime F] in
theorem Unconfirmed.fewer {c : State F} {t' : Timed F} (h : t.Unconfirmed c)
    (hout : ∀ k, t'.Outstanding k → t.Outstanding k)
    (hp : ∀ k, t'.pending = some k → t.pending = some k)
    (ho : t'.orders = t.orders) (hd : t'.delivered = t.delivered) : t'.Unconfirmed c where
  known k hk := by
    rw [ho]
    exact h.known k (hout k hk)
  unconfirmed k hk := by
    simp only [Reported, ho, hd]
    exact h.unconfirmed k (hout k hk)
  last k hk := by
    rw [ho]
    exact h.last k (hp k hk)
  current := by
    rw [ho]
    exact h.current
  counted := by
    rw [ho, hd]
    exact h.counted

theorem unconfirmed_next {symbol : String} {e : TimerEvent F}
    (h : ∃ c, Models symbol t.data c ∧ t.Unconfirmed c) (hi : t.InTime e) :
    ∃ c, Models symbol (timed.next t e).data c ∧ (timed.next t e).Unconfirmed c := by
  obtain ⟨c, hm, hu⟩ := h
  cases e with
  | message e =>
    have hd : ∃ c, Models symbol (t.deliver e).data c ∧ (t.deliver e).Unconfirmed c := by
      refine ⟨_, ?_, hu.deliver hm fun k hk ho => not_outstanding_of_inTime hu hm hi hk ho⟩
      rw [deliver_data]
      exact (bot_simulates symbol).next hm e
    cases e with
    | orderCompleteTimeout => exact ⟨c, hm, hu⟩
    | _ => exact hd
  | expire =>
    show ∃ c, Models symbol (t.next .expire).data c ∧ (t.next .expire).Unconfirmed c
    simp only [Timed.next]
    split
    · next k hp =>
      refine ⟨c, hm, hu.fewer (fun j hj => ?_) (by simp) rfl rfl⟩
      rcases hj with hj | hj
      · cases hj
      · rcases List.mem_append.mp hj with hj | hj
        · exact .inr hj
        · rw [List.mem_singleton.mp hj]
          exact .inl hp
    · exact ⟨c, hm, hu⟩
  | fire i =>
    show ∃ c, Models symbol (t.next (.fire i)).data c ∧ (t.next (.fire i)).Unconfirmed c
    simp only [Timed.next]
    split
    · have hu' : ({ t with queued := t.queued.eraseIdx i } : Timed F).Unconfirmed c :=
        hu.fewer (fun j hj => hj.imp id List.mem_of_mem_eraseIdx) (fun _ => id) rfl rfl
      refine ⟨_, ?_, hu'.deliver hm fun k _ _ ⟨r, o, he, _⟩ => by cases he⟩
      rw [deliver_data]
      exact (bot_simulates symbol).next hm _
    · exact ⟨c, hm, hu⟩

theorem unconfirmed_init (symbol : String) :
    ∃ c, Models symbol (Timed.init (F := F) symbol).data c ∧ (Timed.init symbol).Unconfirmed c := by
  refine ⟨_, models_init symbol, ?_⟩
  constructor <;> simp [Timed.init, Outstanding, Control.init]

/-- No handler of a wait, when it runs, takes a confirmed order that has not ended
from the symbol, or stops its trade. -/
def TimeoutsSpare (t : Timed F) : Prop :=
  ∀ i k, t.queued[i]? = some k → t.Reported k "NEW" → ¬t.Reported k "FILLED" →
    ¬t.Reported k "CANCELED" →
    (timed.next t (.fire i)).data.waitOrderFill = t.data.waitOrderFill ∧
      (t.data.running = true → (timed.next t (.fire i)).data.running = true)

/-- Timeouts spare confirmed orders in every run in which each confirmation comes
while the timer can still be stopped for it. -/
theorem timeouts_spare (symbol : String) (es : List (TimerEvent F))
    (h : timed.Along InTime (Timed.init symbol) es) :
    TimeoutsSpare (timed.run (Timed.init symbol) es) := by
  intro i k hk hn
  obtain ⟨c, -, hu⟩ := Machine.run_invariant
    (fun t : Timed F => ∃ c, Models symbol t.data c ∧ t.Unconfirmed c)
    (fun _ _ ht hi => unconfirmed_next ht hi) (unconfirmed_init symbol) h
  exact absurd hn (hu.unconfirmed k (.inr (List.mem_of_getElem? hk)))

/-- A confirmation that finds the wait pending is in time. -/
theorem timeouts_spare_confirmed : TimeoutsSpare (timed.run (Timed.init "BTC")
    (placedOrder.map .message ++ [.message (.orderReport newReport), .expire])) := by
  have hs : (timed.run (Timed.init "BTC") (placedOrder.map .message)).data.fsm =
      .WAIT_ORDER_CMPL := by decide +kernel
  have hq : (timed.run (Timed.init "BTC") (placedOrder.map .message)).queued = [] := by
    decide +kernel
  refine timeouts_spare "BTC" _ ((Machine.along_append _ _ _ _ _).2 ⟨?_, ?_, trivial, trivial⟩)
  · simp [placedOrder, InTime, Confirms]
  · exact fun k _ _ => ⟨hs, by simp [hq]⟩

/-! ### A timeout that comes too late -/

/-- The wait of an order runs out, and then the order is confirmed. -/
def confirmedLate : List (TimerEvent ℚ) :=
  placedOrder.map .message ++ [.expire, .message (.orderReport newReport)]

/-- The handler of the wait was queued before the confirmation, and still runs. -/
theorem timeout_not_spared : ¬∀ (symbol : String) (es : List (TimerEvent ℚ)),
    TimeoutsSpare (timed.run (Timed.init symbol) es) := by
  intro h
  have hs := h "BTC" confirmedLate 0 0 (by decide +kernel)
  have hx : (timed.run (Timed.init "BTC") confirmedLate).delivered.map
      (fun p => (p.1, textAt p.2 "c", textAt p.2 "X")) =
        [(1, some "order_USDT_to_BTC_0", some "NEW")] := by decide +kernel
  have ho : (timed.run (Timed.init "BTC") confirmedLate).orders.map Ticket.id =
      ["order_USDT_to_BTC_0"] := by decide +kernel
  obtain ⟨⟨n, r⟩, hd, hr⟩ := List.map_eq_singleton_iff.mp hx
  obtain ⟨o, hod, hid⟩ := List.map_eq_singleton_iff.mp ho
  simp only [Prod.mk.injEq] at hr
  have hnew : (timed.run (Timed.init "BTC") confirmedLate).Reported 0 "NEW" :=
    ⟨n, r, o, by simp [hd], by omega, by simp [hod], by rw [hr.2.1, hid], hr.2.2⟩
  have hnot (status : String) (hne : status ≠ "NEW") :
      ¬(timed.run (Timed.init "BTC") confirmedLate).Reported 0 status := by
    rintro ⟨n', r', o', hd', -, -, -, hx'⟩
    rw [hd, List.mem_singleton, Prod.mk.injEq] at hd'
    rw [hd'.2, hr.2.2] at hx'
    exact hne (Option.some.inj hx').symm
  have hfire := (hs hnew (hnot _ (by decide)) (hnot _ (by decide))).1
  revert hfire
  decide +kernel

end Timed

end BotTrader.Market
