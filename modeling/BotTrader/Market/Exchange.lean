import BotTrader.Market.Timer

/-! A symbol at the exchange. An order that goes out is taken or dropped some time
later, a live one is filled, or cancelled if its deletion was asked for, and
every change is reported up to twice, at any time and in any order. Whether two
orders of a symbol can be live at once depends on what ends an order for the
symbol: the timeout, and reports that are matched by less than the order. -/

namespace BotTrader.Market

open Automata Python Strategy Control

inductive Status where
  | sent | live | filled | cancelled | rejected
  deriving DecidableEq

/-- The order is live no more, and will not be. -/
def Status.Ended : Status → Prop
  | .sent | .live => False
  | .filled | .cancelled | .rejected => True

instance : ∀ s : Status, Decidable s.Ended
  | .sent | .live => .isFalse id
  | .filled | .cancelled | .rejected => .isTrue trivial

/-- An order at the exchange; `asked` is set once its deletion was asked for. -/
structure Entry where
  id : String
  status : Status
  asked : Bool

variable {F : Type}

/-- The symbol, its orders at the exchange, and the reports under way. A report
is an order, by index, and the status that it tells. -/
structure World (F : Type) where
  timed : Timed F
  book : List Entry
  wire : List (ℕ × String)

inductive WorldEvent (F : Type) where
  /-- A command, staged data, a price or exchange information. -/
  | message (e : Event F)
  | expire
  | fire (i : ℕ)
  | accept (k : ℕ)
  | reject (k : ℕ)
  | fill (k : ℕ)
  | cancel (k : ℕ)
  /-- The report at the position of the wire arrives as `r`. -/
  | report (i : ℕ) (r : Dict F)

namespace World

/-- What an act changes at the exchange. -/
def enter (book : List Entry) : Act F → List Entry
  | .issue o => book ++ [⟨o.id, .sent, false⟩]
  | .delete id => book.map fun e => if e.id = id then { e with asked := true } else e
  | .arm | .disarm => book

/-- The order changes to the status, and both channels have a report of it under
way, which may never arrive. -/
def turn (w : World F) (k : ℕ) (e : Entry) (status : Status) (text : String) : World F :=
  { w with
    book := w.book.set k { e with status := status }
    wire := w.wire ++ [(k, text), (k, text)] }

variable [Runtime F]

def deliver (w : World F) (e : Event F) : World F :=
  { w with timed := w.timed.deliver e, book := (w.timed.acts e).foldl enter w.book }

def next (w : World F) : WorldEvent F → World F
  | .message (.orderReport _) | .message .orderCompleteTimeout => w
  | .message e => w.deliver e
  | .expire => { w with timed := w.timed.next .expire }
  | .fire i =>
    if i < w.timed.queued.length then
      let t := { w.timed with queued := w.timed.queued.eraseIdx i }
      { w with timed := t }.deliver .orderCompleteTimeout
    else w
  | .accept k => match w.book[k]? with
    | some e => if e.status = .sent then w.turn k e .live "NEW" else w
    | none => w
  | .reject k => match w.book[k]? with
    | some e => if e.status = .sent then w.turn k e .rejected "REJECTED" else w
    | none => w
  | .fill k => match w.book[k]? with
    | some e => if e.status = .live then w.turn k e .filled "FILLED" else w
    | none => w
  | .cancel k => match w.book[k]? with
    | some e => if e.status = .live ∧ e.asked then w.turn k e .cancelled "CANCELED" else w
    | none => w
  | .report i r => match w.wire[i]? with
    | some (k, text) => match w.book[k]? with
      | some e =>
        if textAt r "c" = some e.id ∧ textAt r "X" = some text then
          { w with wire := w.wire.eraseIdx i }.deliver (.orderReport r)
        else w
      | none => w
    | none => w

def init (symbol : String) : World F where
  timed := Timed.init symbol
  book := []
  wire := []

end World

/-- A symbol at the exchange, as a closed system. -/
def world [Runtime F] : Machine (World F) (WorldEvent F) Empty where
  next := World.next
  emit _ _ := []

namespace World

variable {w : World F} {k : ℕ}

def statuses (w : World F) : List Status := w.book.map Entry.status

/-- No two orders of the symbol are live. -/
def OneLive (w : World F) : Prop :=
  ∀ i j : ℕ, w.statuses[i]? = some .live → w.statuses[j]? = some .live → i = j

/-- The last order, if there is one, has ended. -/
def LastEnded (w : World F) : Prop := ∀ s, w.statuses.getLast? = some s → s.Ended

/-- The report makes the symbol let go of the order that it tracks. -/
def Frees (d : SymbolData F) (r : Dict F) : Prop :=
  d.fsm = .WAIT_ORDER_DEL ∧ textAt r "X" = some "CANCELED" ∨
    d.fsm = .WAIT_ORDER_FILL ∧ textAt r "c" = some d.currentOrder.newClientOrderId ∧
      textAt r "X" = some "FILLED"

/-- A timeout takes a tracked order only when it has ended, and a report that
frees the symbol of its order is about the last order, or that one has ended. -/
def Clean (w : World F) : WorldEvent F → Prop
  | .fire _ => w.timed.data.waitOrderAct = true → w.LastEnded
  | .report i r => ∀ k text, w.wire[i]? = some (k, text) → Frees w.timed.data r →
      k + 1 = w.statuses.length ∨ w.LastEnded
  | _ => True

end World

/-! ### Orders before the last one -/

/-- Only the last order can be live, only while it is tracked, and an end is
reported only of an order that has ended. -/
structure Ordered (statuses : List Status) (wire : List (ℕ × String)) (tracked : Prop) : Prop where
  earlier : ∀ (k : ℕ) s, statuses[k]? = some s → k + 1 < statuses.length → s.Ended
  untracked : ¬tracked → ∀ s, statuses.getLast? = some s → s.Ended
  reported : ∀ (k : ℕ) text, (k, text) ∈ wire → text = "FILLED" ∨ text = "CANCELED" →
    ∃ s, statuses[k]? = some s ∧ s.Ended

section Ordered

variable {statuses : List Status} {wire wire' : List (ℕ × String)} {tracked tracked' : Prop} {k : ℕ}

theorem last_of_not_ended (h : Ordered statuses wire tracked) {s : Status}
    (hk : statuses[k]? = some s) (hs : ¬s.Ended) : k + 1 = statuses.length := by
  obtain ⟨hl, -⟩ := List.getElem?_eq_some_iff.mp hk
  by_contra hne
  exact hs (h.earlier k s hk (by omega))

theorem getLast?_of_length {s : Status} (hk : k + 1 = statuses.length) :
    statuses.getLast? = some s ↔ statuses[k]? = some s := by
  rw [List.getLast?_eq_getElem?, ← hk, Nat.add_sub_cancel]

theorem Ordered.untrack (h : Ordered statuses wire tracked)
    (hl : ¬tracked' → tracked → ∀ s, statuses.getLast? = some s → s.Ended)
    (hw : ∀ n ∈ wire', n ∈ wire) : Ordered statuses wire' tracked' where
  earlier := h.earlier
  untracked ht := by
    by_cases ht₀ : tracked
    · exact hl ht ht₀
    · exact h.untracked ht₀
  reported k text hm := h.reported k text (hw _ hm)

/-- A new order goes out when the last one has ended. -/
theorem Ordered.place (h : Ordered statuses wire tracked) (ht : ¬tracked) (ht' : tracked') :
    Ordered (statuses ++ [.sent]) wire tracked' where
  earlier k s hk hl := by
    rw [List.length_append, List.length_singleton] at hl
    rw [List.getElem?_append_left (by omega)] at hk
    by_cases hlast : k + 1 = statuses.length
    · exact h.untracked ht s ((getLast?_of_length hlast).2 hk)
    · exact h.earlier k s hk (by omega)
  untracked hn := absurd ht' hn
  reported k text hm hx := by
    obtain ⟨s, hk, hs⟩ := h.reported k text hm hx
    obtain ⟨hl, -⟩ := List.getElem?_eq_some_iff.mp hk
    exact ⟨s, by rw [List.getElem?_append_left hl, hk], hs⟩

/-- An order that has not ended is the last one, so its status can change. -/
theorem Ordered.set (h : Ordered statuses wire tracked) {s s' : Status}
    (hk : statuses[k]? = some s) (hs : ¬s.Ended) (hw : ∀ n ∈ wire', n ∈ wire ∨
      n.1 = k ∧ (n.2 = "FILLED" ∨ n.2 = "CANCELED" → s'.Ended)) :
    Ordered (statuses.set k s') wire' tracked where
  earlier j s hj hl := by
    have hlast := last_of_not_ended h hk hs
    rw [List.length_set] at hl
    rw [List.getElem?_set_ne (by omega)] at hj
    exact h.earlier j s hj hl
  untracked ht s hl := by
    have hlast := last_of_not_ended h hk hs
    exact absurd (h.untracked ht _ ((getLast?_of_length hlast).2 hk)) hs
  reported j text hm hx := by
    obtain ⟨hl, -⟩ := List.getElem?_eq_some_iff.mp hk
    rcases hw _ hm with hm | ⟨rfl, he⟩
    · obtain ⟨s₀, hj, hs₀⟩ := h.reported j text hm hx
      have hne : k ≠ j := by
        rintro rfl
        rw [hk, Option.some.injEq] at hj
        exact hs (hj ▸ hs₀)
      exact ⟨s₀, by rw [List.getElem?_set_ne hne, hj], hs₀⟩
    · exact ⟨s', by simp [hl], he hx⟩

end Ordered

namespace World

variable {w : World F} {k : ℕ}

theorem oneLive_of_ordered {tracked : Prop} (h : Ordered w.statuses w.wire tracked) :
    w.OneLive := by
  intro i j hi hj
  have := last_of_not_ended h hi id
  have := last_of_not_ended h hj id
  omega

/-- Acts that place no order leave the statuses as they are. -/
theorem statuses_enter {acts : List (Act F)} (ha : acts.filterMap Act.ticket? = [])
    (book : List Entry) : (acts.foldl enter book).map Entry.status = book.map Entry.status := by
  induction acts generalizing book with
  | nil => rfl
  | cons a acts ih =>
    cases a with
    | issue o => simp at ha
    | delete id =>
      rw [List.foldl_cons, ih (by simpa [List.filterMap_cons] using ha)]
      simp only [enter, List.map_map]
      congr 1
      funext e
      simp only [Function.comp_apply]
      split <;> rfl
    | arm | disarm => exact ih (by simpa [List.filterMap_cons] using ha) book

variable [Runtime F]

theorem ordered_deliver {symbol : String} {c : State F} {e : Event F} {wire : List (ℕ × String)}
    (hm : Models symbol w.timed.data c) (h : Ordered w.statuses w.wire c.phase.Tracking)
    (hw : ∀ n ∈ wire, n ∈ w.wire)
    (hfree : c.phase.Tracking →
      ¬((machine (orderId symbol)).next c (input w.timed.data e)).phase.Tracking → w.LastEnded) :
    Ordered ({ w with wire := wire }.deliver e).statuses wire
      ((machine (orderId symbol)).next c (input w.timed.data e)).phase.Tracking := by
  have hs := step_cases (orderId symbol) c (input w.timed.data e)
  rw [← Timed.acts_eq hm e] at hs
  rcases hs.places_or_not with ⟨c₀, ha, hc, ht⟩ | ⟨ha, -, -⟩
  · have hst : ({ w with wire := wire }.deliver e).statuses = w.statuses ++ [.sent] := by
      simp [World.deliver, statuses, ha, enter]
    rw [hst, hc]
    exact (h.untrack (fun ht' ht => absurd ht ht') hw).place ht trivial
  · have hst : ({ w with wire := wire }.deliver e).statuses = w.statuses := statuses_enter ha _
    rw [hst]
    exact h.untrack (fun ht' ht => hfree ht ht') hw

/-- What holds in every state of a run whose steps are clean. -/
def Tidy (symbol : String) (w : World F) : Prop :=
  ∃ c, Models symbol w.timed.data c ∧ Ordered w.statuses w.wire c.phase.Tracking

variable {symbol : String}

/-- Only a timeout or a report takes the tracked order from a symbol. -/
theorem frees_of_letsGo {d : SymbolData F} {c : State F} {e : Event F} (hm : Models symbol d c)
    (ht : c.phase.Tracking)
    (ht' : ¬((machine (orderId symbol)).next c (input d e)).phase.Tracking) :
    e = .orderCompleteTimeout ∨ ∃ r, e = .orderReport r ∧ Frees d r := by
  have hs := (step_cases (orderId symbol) c (input d e)).letsGo ht ht'
  cases e with
  | orderCompleteTimeout => exact .inl rfl
  | orderReport r =>
    refine .inr ⟨r, rfl, ?_⟩
    have hd := hm.shows
    rcases hs with hi | ⟨id, status, fires, readable, hi, hr⟩
    · cases hi
    simp only [input, Input.report.injEq] at hi
    obtain ⟨rfl, rfl, -, -⟩ := hi
    rcases hr with ⟨hp, hc, hx⟩ | ⟨⟨j, hp⟩, hx⟩
    · simp only [Shows, hp] at hd
      rw [hm.ids, hm.step] at hc
      exact .inr ⟨hd.1, hc, hx⟩
    · simp only [Shows, hp] at hd
      exact .inl ⟨hd.1, hx⟩
  | tradeRun data =>
    simp only [input] at hs
    split at hs
    · split at hs <;> simp at hs
    · simp at hs
  | price price =>
    simp only [input] at hs
    split at hs <;> simp at hs
  | _ => simp [input] at hs

theorem tidy_deliver {e : Event F} {wire : List (ℕ × String)} (h : Tidy symbol w)
    (hw : ∀ n ∈ wire, n ∈ w.wire)
    (he : w.timed.data.waitOrderAct = true →
      e = .orderCompleteTimeout ∨ (∃ r, e = .orderReport r ∧ Frees w.timed.data r) → w.LastEnded) :
    Tidy symbol ({ w with wire := wire }.deliver e) := by
  obtain ⟨c, hm, ho⟩ := h
  refine ⟨_, ?_, ordered_deliver hm ho hw fun ht ht' => ?_⟩
  · show Models symbol (w.timed.deliver e).data _
    rw [Timed.deliver_data]
    exact (bot_simulates symbol).next hm e
  · exact he ((waitOrderAct_iff hm).2 ht) (frees_of_letsGo hm ht ht')

omit [Runtime F] in
/-- The order at a position changes its status, and the change goes on the wire. -/
theorem Tidy.turn (h : Tidy symbol w) {e : Entry} {status : Status} {text : String}
    (hk : w.book[k]? = some e) (he : ¬e.status.Ended)
    (hx : text = "FILLED" ∨ text = "CANCELED" → status.Ended) :
    Tidy symbol (w.turn k e status text) := by
  obtain ⟨c, hm, ho⟩ := h
  refine ⟨c, hm, ?_⟩
  have hst : (w.turn k e status text).statuses = w.statuses.set k status := by
    simp [World.turn, statuses, List.map_set]
  rw [hst]
  refine ho.set (s := e.status) (by simp [statuses, hk]) he fun n hn => ?_
  rcases List.mem_append.mp hn with hn | hn
  · exact .inl hn
  · obtain rfl : n = (k, text) := by simpa using hn
    exact .inr ⟨rfl, hx⟩

omit [Runtime F] in
/-- A change of status that is made under the condition `p`, which no ended order meets. -/
theorem Tidy.turn_if {p : Entry → Prop} [DecidablePred p] (h : Tidy symbol w) {status : Status}
    {text : String} (hp : ∀ e, p e → ¬e.status.Ended)
    (hx : text = "FILLED" ∨ text = "CANCELED" → status.Ended) :
    Tidy symbol (match w.book[k]? with
      | some e => if p e then w.turn k e status text else w
      | none => w) := by
  split
  · next e hk =>
    split
    · next he => exact h.turn hk (hp e he) hx
    · exact h
  · exact h

omit [Runtime F] in
/-- The report that frees the symbol of its order tells of one that has ended. -/
theorem lastEnded_of_report {c : State F} {i : ℕ} {r : Dict F} {text : String}
    (ho : Ordered w.statuses w.wire c.phase.Tracking) (hc : w.Clean (.report i r))
    (hi : w.wire[i]? = some (k, text)) (hx : textAt r "X" = some text)
    (hf : Frees w.timed.data r) : w.LastEnded := by
  refine (hc k text hi hf).elim (fun hk s hs => ?_) id
  have ht : text = "FILLED" ∨ text = "CANCELED" := by
    rcases hf with ⟨-, hx'⟩ | ⟨-, -, hx'⟩
    · exact .inr (Option.some.inj (hx.symm.trans hx'))
    · exact .inl (Option.some.inj (hx.symm.trans hx'))
  obtain ⟨s', hs', he⟩ := ho.reported k text (List.mem_of_getElem? hi) ht
  rw [getLast?_of_length hk, hs', Option.some.injEq] at hs
  exact hs ▸ he

theorem tidy_next {e : WorldEvent F} (h : Tidy symbol w) (hc : w.Clean e) :
    Tidy symbol (world.next w e) := by
  show Tidy symbol (w.next e)
  cases e with
  | message e =>
    have hd (he : ∀ r, e ≠ .orderReport r) (ht : e ≠ .orderCompleteTimeout) :
        Tidy symbol (w.deliver e) :=
      tidy_deliver h (fun _ => id) fun _ hf => hf.elim (fun h => absurd h ht)
        fun ⟨r, hr, _⟩ => absurd hr (he r)
    cases e with
    | orderReport r => exact h
    | orderCompleteTimeout => exact h
    | _ => exact hd (by simp) (by simp)
  | expire =>
    obtain ⟨c, hm, ho⟩ := h
    refine ⟨c, ?_, ho⟩
    show Models symbol (w.timed.next .expire).data c
    simp only [Timed.next]
    split <;> exact hm
  | fire i =>
    simp only [World.next]
    split
    · exact tidy_deliver (w := { w with timed := { w.timed with queued := _ } }) h
        (fun _ => id) fun ha _ => hc ha
    · exact h
  | accept k =>
    exact h.turn_if (fun e he => by simp [he, Status.Ended]) (by simp)
  | reject k =>
    exact h.turn_if (fun e he => by simp [he, Status.Ended]) (by simp)
  | fill k =>
    exact h.turn_if (fun e he => by simp [he, Status.Ended]) fun _ => trivial
  | cancel k =>
    exact h.turn_if (fun e he => by simp [he.1, Status.Ended]) fun _ => trivial
  | report i r =>
    simp only [World.next]
    split
    · next k text hi =>
      split
      · next e hk =>
        split
        · next hr =>
          refine tidy_deliver h (fun _ => List.mem_of_mem_eraseIdx) fun _ hf => ?_
          obtain ⟨c, -, ho⟩ := h
          rcases hf with hf | ⟨r', hr', hf⟩
          · cases hf
          · cases hr'
            exact lastEnded_of_report ho hc hi hr.2 hf
        · exact h
      · exact h
    · exact h

theorem tidy_init (symbol : String) : Tidy symbol (World.init (F := F) symbol) := by
  refine ⟨_, models_init symbol, ?_⟩
  constructor <;> simp [World.init, statuses]

/-- No two orders of a symbol are live at once in a run in which every timeout of a
tracked order, and every report that is taken for the end of one, comes when the
last order has ended. -/
theorem one_live (symbol : String) (es : List (WorldEvent F))
    (h : world.Along Clean (World.init symbol) es) :
    (world.run (World.init symbol) es).OneLive := by
  obtain ⟨c, -, ho⟩ := Machine.run_invariant (Tidy symbol) (fun _ _ ht hc => tidy_next ht hc)
    (tidy_init symbol) h
  exact oneLive_of_ordered ho

omit [Runtime F] in
theorem clean_report {i : ℕ} {r : Dict F} : w.Clean (.report i r) ↔ ∀ n ∈ w.wire[i]?,
    Frees w.timed.data r → n.1 + 1 = w.statuses.length ∨ w.LastEnded := by
  simp only [Clean, Option.mem_def, Prod.forall]

instance (w : World F) : Decidable w.LastEnded :=
  inferInstanceAs (Decidable (∀ s ∈ w.statuses.getLast?, s.Ended))

instance (d : SymbolData F) (r : Dict F) : Decidable (Frees d r) :=
  inferInstanceAs (Decidable (_ ∨ _))

instance (w : World F) : ∀ e, Decidable (w.Clean e)
  | .report _ _ => decidable_of_iff _ clean_report.symm
  | .fire _ => inferInstanceAs (Decidable (_ → w.LastEnded))
  | .message _ | .expire | .accept _ | .reject _ | .fill _ | .cancel _ => .isTrue trivial

/-- What was bought is for sale. -/
def saleReport (status : String) : Dict ℚ :=
  streamReport "BTCUSDT" status "order_BTC_to_USDT_0" "BNB" "0.001" "20"

/-- An order is confirmed and filled, and both is reported in time; then what was bought is sold, and
the fill of the first order is reported once more in between. -/
def boughtAndSold : List (WorldEvent ℚ) :=
  placedOrder.map .message ++
    [.accept 0, .report 0 newReport, .fill 0, .report 1 filledReport, .message (.price (.num 21)),
      .accept 1, .report 2 (saleReport "NEW"), .report 1 filledReport, .fill 1,
      .report 2 (saleReport "FILLED")]

theorem one_live_filled :
    (world.run (World.init "BTC") boughtAndSold).statuses = [.filled, .filled] ∧
      (world.run (World.init "BTC") boughtAndSold).timed.data.fsm = .WAIT_PRICE ∧
      (world.run (World.init "BTC") boughtAndSold).OneLive :=
  ⟨by decide +kernel, by decide +kernel, one_live "BTC" boughtAndSold (by decide +kernel)⟩

/-! ### Two live orders -/

/-- An order goes live, its confirmation is late, and after the timeout the symbol is
started again. -/
def startedAgain : List (WorldEvent ℚ) :=
  placedOrder.map .message ++
    [.accept 0, .expire, .fire 0, .message (.tradeRun (command "start" "BUY")), .accept 1]

theorem two_live : ¬∀ (symbol : String) (es : List (WorldEvent ℚ)),
    (world.run (World.init symbol) es).OneLive := by
  intro h
  have hs : (world.run (World.init "BTC") startedAgain).statuses = [.live, .live] := by
    decide +kernel
  have := h "BTC" startedAgain 0 1 (by simp [hs]) (by simp [hs])
  omega

end World

end BotTrader.Market
