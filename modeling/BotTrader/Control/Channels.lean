import Mathlib.Data.List.Pairwise
import BotTrader.Control.OrderIds

/-! The two channels that report an order: the user stream, which names the
commission, and the answer to the order request, which does not. Whether the
answers may come in anywhere among the reports of the stream is decided by what
an early answer runs: the fill handler, or the trigger of the next side. -/

namespace BotTrader.Control

open Automata Handler Python Strategy

variable {F : Type}

/-! ### Symbols up to their last report -/

/-- The symbol without its last report and its banner, which no handler reads. -/
@[simps -fullyApplied step orders waitOrderFill fsm waitPrice running changeMode counter symbol
  price trigger stepSize]
def bare (d : SymbolData F) : SymbolData F :=
  { d with report := none, tradeState := ⟨"", "", "", "", ""⟩ }

variable [Runtime F]

/-- The events bring the symbol to `b`, up to its last report, and no order goes out. -/
def Quietly (d : SymbolData F) (es : List (Event F)) (b : SymbolData F) : Prop :=
  bare (bot.run d es) = bare b ∧ ordersOf d es = []

section Quietly

variable {d d' b : SymbolData F} {es fs : List (Event F)} {r : Dict F}

theorem ordersOf_append (d : SymbolData F) (es fs : List (Event F)) :
    ordersOf d (es ++ fs) = ordersOf d es ++ ordersOf (bot.run d es) fs := by
  simp only [ordersOf, issued, Machine.emitted_append, List.filterMap_append]

theorem Quietly.append (h : Quietly d es b) (hf : Quietly (bot.run d es) fs d') :
    Quietly d (es ++ fs) d' := by
  constructor
  · rw [Machine.run_append]
    exact hf.1
  · rw [ordersOf_append, h.2, hf.2]
    rfl

theorem quietly_of_leaves {h : Py F Unit} {acts : List (Act F)} (hr : (onOrderReport r).run d = h.run d')
    (hl : h.Leaves Call.act? d' b acts) (ha : acts.filterMap Act.ticket? = []) :
    Quietly d [.orderReport r] b := by
  have hcalls : bot.emit d (.orderReport r) = (h.run d').calls := congrArg Outcome.calls hr
  have hstate : bot.next d (.orderReport r) = b := (congrArg Outcome.state hr).trans hl.1
  refine ⟨congrArg bare hstate, ?_⟩
  have ht := tickets_of_calls (bot.emit d (.orderReport r))
  rw [hcalls, hl.2, ha] at ht
  simpa [ordersOf, ← hcalls] using ht

/-- What every report of a list leaves as it is, the list leaves as it is. -/
theorem quietly_reports {rs : List (Dict F)}
    (h : ∀ r ∈ rs, ∀ d', bare d' = bare b → Quietly d' [.orderReport r] b)
    (hd : bare d = bare b) : Quietly d (rs.map .orderReport) b := by
  induction rs generalizing d with
  | nil => exact ⟨hd, rfl⟩
  | cons r rs ih =>
    have hr := h r (by simp) d hd
    exact hr.append (ih (fun r' hr' => h r' (by simp [hr'])) hr.1)

end Quietly

/-! ### One report -/

section Report

variable {d : SymbolData F} {r : Dict F}

theorem quietly_confirming (hf : d.fsm = .WAIT_ORDER_CMPL)
    (hr : ¬(textAt r "c" = some d.currentOrder.newClientOrderId ∧ textAt r "X" = some "NEW")) :
    Quietly d [.orderReport r] d :=
  quietly_of_leaves (b := d.reported r) (run_report hf)
    (returns_fsmWaitOrderCompl_of_ne (d := d.reported r) rfl hr).leaves rfl

theorem quietly_confirmed (hf : d.fsm = .WAIT_ORDER_CMPL)
    (hc : textAt r "c" = some d.currentOrder.newClientOrderId) (hx : textAt r "X" = some "NEW") :
    Quietly d [.orderReport r] (d.setState .WAIT_ORDER_FILL) :=
  quietly_of_leaves (b := (d.reported r).confirmed) (run_report hf)
    (returns_fsmWaitOrderCompl (d := d.reported r) rfl hc hx).leaves rfl

theorem quietly_filling (hf : d.fsm = .WAIT_ORDER_FILL)
    (hr : ¬(textAt r "c" = some d.currentOrder.newClientOrderId ∧ textAt r "X" = some "FILLED")) :
    Quietly d [.orderReport r] d :=
  quietly_of_leaves (b := d.reported r) (run_report hf)
    ((fsmWaitOrderFill_of_ne (d := d.reported r) rfl hr).elim (·.leaves) (·.leaves)) rfl

theorem quietly_waiting (hf : d.fsm = .WAIT_PRICE) (hx : d.fires = false) :
    Quietly d [.orderReport r] d :=
  quietly_of_leaves (b := d.reported r) (run_report hf)
    ((fsmWaitPrice_of_not_fires (d := d.reported r) hx).elim (·.leaves) (·.leaves)) rfl

/-- What a fill leaves depends on the symbol only up to its last report. -/
theorem settle_bare {d' : SymbolData F} (h : bare d = bare d') :
    (d.settle r).map bare = (d'.settle r).map bare := by
  have hs : (bare d).step = (bare d').step := by rw [h]
  have ho : (bare d).orders = (bare d').orders := by rw [h]
  have hz : (bare d).stepSize = (bare d').stepSize := by rw [h]
  simp only [bare_step, bare_orders, bare_stepSize] at hs ho hz
  unfold SymbolData.settle
  rw [hs, ho, hz]
  rcases commission r with x | _ | cmsn
  · rfl
  · exact congrArg Except.ok h
  · simp only [except_ok_bind]
    rcases SymbolData.roundAtStep (Runtime.sub (d'.orders d'.step).quantity cmsn) d'.stepSize
      with x | q
    · rfl
    · exact congrArg (fun d => Except.ok (SymbolData.charged q d)) h

/-- A fill that can be settled opens the trade of the next side. -/
theorem quietly_filled {b d' : SymbolData F} (hb : bare d = bare b) (hf : d.fsm = .WAIT_ORDER_FILL)
    (hc : textAt r "c" = some d.currentOrder.newClientOrderId) (hx : textAt r "X" = some "FILLED")
    (hd : b.filled.settle r = .ok d') : Quietly d [.orderReport r] d'.reopened := by
  have hfill : bare (d.reported r).filled = bare b.filled := by
    show bare (bare d).filled = bare (bare b).filled
    rw [hb]
  have hs := settle_bare (r := r) hfill
  rw [hd] at hs
  rcases hs' : (d.reported r).filled.settle r with x | d₁
  · rw [hs'] at hs
    cases hs
  · rw [hs'] at hs
    have hq := quietly_of_leaves (run_report hf)
      (returns_fsmWaitOrderFill (d := d.reported r) rfl hc hx hs').leaves rfl
    have hd₁ : bare d₁ = bare d' := Except.ok.inj hs
    refine ⟨hq.1.trans ?_, hq.2⟩
    exact congrArg SymbolData.reopened hd₁

/-- The symbol waits for reports, but not for those of the order `id`. -/
def Deaf (id : String) (d : SymbolData F) : Prop :=
  (d.fsm = .WAIT_ORDER_CMPL ∨ d.fsm = .WAIT_ORDER_FILL) ∧ d.currentOrder.newClientOrderId ≠ id

theorem quietly_deaf {id : String} (h : Deaf id d) (hr : textAt r "c" = some id) :
    Quietly d [.orderReport r] d := by
  obtain ⟨hf | hf, hid⟩ := h
  · apply quietly_confirming hf
    rintro ⟨hc, -⟩
    exact hid (Option.some.inj (hc.symm.trans hr))
  · apply quietly_filling hf
    rintro ⟨hc, -⟩
    exact hid (Option.some.inj (hc.symm.trans hr))

/-- A fill that cannot be settled leaves the symbol waiting for the other side's order. -/
theorem deaf_half_filled (hf : d.fsm = .WAIT_ORDER_FILL)
    (hc : textAt r "c" = some d.currentOrder.newClientOrderId) (hx : textAt r "X" = some "FILLED")
    (hz : settles r d.stepSize = false)
    (hne : d.nextStep.currentOrder.newClientOrderId ≠ d.currentOrder.newClientOrderId) :
    (bot.next d (.orderReport r)).fsm = .WAIT_ORDER_FILL ∧
      Deaf d.currentOrder.newClientOrderId (bot.next d (.orderReport r)) := by
  have he := run_report (r := r) hf
  obtain ⟨x, hs⟩ := settle_of_not_settles (d := (d.reported r).filled) hz
  obtain ⟨q, hq⟩ := raises_fsmWaitOrderFill (d := d.reported r) rfl hc hx hs
  have hn : bot.next d (.orderReport r) = (d.reported r).filled.setQuantity 0 q :=
    (congrArg Outcome.state he).trans hq.leaves.1
  obtain ⟨q', hq'⟩ := requoted_setQuantity (d.reported r).filled 0 q
  rw [hn, hq']
  exact ⟨hf, .inr hf, hne⟩

/-- A report that finds the trigger of a waiting side fired places its order. -/
theorem deaf_placed {id : String} (hf : d.fsm = .WAIT_PRICE) (hx : d.fires = true)
    (hne : orderId d.symbol d.step d.counter ≠ id) :
    (bot.next d (.orderReport r)).fsm = .WAIT_ORDER_CMPL ∧
      Deaf id (bot.next d (.orderReport r)) := by
  have he := run_report (r := r) hf
  have hn : bot.next d (.orderReport r) = (d.reported r).triggered.placed :=
    (congrArg Outcome.state he).trans (returns_fsmWaitPrice (d := d.reported r) hx).leaves.1
  have hs : (d.reported r).triggered.placed.fsm = .WAIT_ORDER_CMPL := by simp [hf]
  rw [hn]
  refine ⟨hs, .inl hs, ?_⟩
  rw [SymbolData.currentOrder, newClientOrderId_placed]
  simpa using hne

end Report

/-! ### The reports of one order -/

/-- The symbol is in state `st` with its current order `id`, which is not that of
its other side. -/
structure AtOrder (id : String) (st : FsmState) (d : SymbolData F) : Prop where
  fsm : d.fsm = st
  current : d.currentOrder.newClientOrderId = id
  other : d.nextStep.currentOrder.newClientOrderId ≠ id

omit [Runtime F] in
theorem AtOrder.congr {id : String} {st : FsmState} {d d' : SymbolData F} (h : AtOrder id st d)
    (hb : bare d' = bare d) : AtOrder id st d' := by
  have hd : AtOrder id st (bare d) := ⟨h.fsm, h.current, h.other⟩
  rw [← hb] at hd
  exact ⟨hd.fsm, hd.current, hd.other⟩

/-- A report of the order `id` that settles no fill. -/
structure Unsettled (id : String) (r : Dict F) : Prop where
  id : textAt r "c" = some id
  status : textAt r "X" = some "NEW" ∨ textAt r "X" = some "FILLED"
  unsettled : textAt r "X" = some "FILLED" → ∀ stepSize, settles r stepSize = false

/-- A confirmation with a fill after it. -/
def FillsAfter (r r' : Dict F) : Prop := textAt r "X" = some "NEW" ∧ textAt r' "X" = some "FILLED"

section Runs

variable {id : String} {d : SymbolData F} {rs : List (Dict F)}

theorem run_deaf (h : Deaf id d) (hr : ∀ r ∈ rs, textAt r "c" = some id) :
    (bot.run d (rs.map .orderReport)).fsm = d.fsm ∧ Deaf id (bot.run d (rs.map .orderReport)) := by
  have hq : Quietly d (rs.map .orderReport) d := by
    refine quietly_reports (fun r hm d' hd => ?_) rfl
    have hd' : Deaf id (bare d) := h
    rw [← hd] at hd'
    have hdeaf : Deaf id d' := hd'
    have hq := quietly_deaf hdeaf (hr r hm)
    exact ⟨hq.1.trans hd, hq.2⟩
  have hs : (bare (bot.run d (rs.map .orderReport))).fsm = (bare d).fsm := by rw [hq.1]
  have hb : Deaf id (bare d) := h
  rw [← hq.1] at hb
  exact ⟨hs, hb⟩

/-- While the order is confirmed, further confirmations change nothing. -/
theorem quietly_filling_reports (h : AtOrder id .WAIT_ORDER_FILL d)
    (hx : ∀ r ∈ rs, textAt r "X" ≠ some "FILLED") : Quietly d (rs.map .orderReport) d := by
  refine quietly_reports (fun r hm d' hd => ?_) rfl
  have hq := quietly_filling (h.congr hd).fsm (r := r) fun hc => hx r hm hc.2
  exact ⟨hq.1.trans hd, hq.2⟩

/-- A fill without a commission makes the symbol deaf to its order. -/
theorem deaf_filling_reports (h : AtOrder id .WAIT_ORDER_FILL d) (hr : ∀ r ∈ rs, Unsettled id r)
    (hx : ∃ r ∈ rs, textAt r "X" = some "FILLED") :
    (bot.run d (rs.map .orderReport)).fsm = .WAIT_ORDER_FILL ∧
      Deaf id (bot.run d (rs.map .orderReport)) := by
  induction rs generalizing d with
  | nil => simp at hx
  | cons r rs ih =>
    have hid := (hr r (by simp)).id
    have hrs : ∀ r' ∈ rs, Unsettled id r' := fun r' hm => hr r' (by simp [hm])
    by_cases hf : textAt r "X" = some "FILLED"
    · have hne : d.nextStep.currentOrder.newClientOrderId ≠ d.currentOrder.newClientOrderId := by
        rw [h.current]
        exact h.other
      have hd := deaf_half_filled h.fsm (by rw [hid, h.current]) hf
        ((hr r (by simp)).unsettled hf _) hne
      rw [h.current] at hd
      obtain ⟨hs, hdeaf⟩ := run_deaf hd.2 fun r' hm => (hrs r' hm).id
      exact ⟨hs.trans hd.1, hdeaf⟩
    · have hq := quietly_filling h.fsm (r := r) fun hc => hf hc.2
      apply ih (h.congr hq.1) hrs
      obtain ⟨r', hm, hf'⟩ := hx
      rcases List.mem_cons.mp hm with rfl | hm
      · exact absurd hf' hf
      · exact ⟨r', hm, hf'⟩

omit [Runtime F] in
theorem AtOrder.confirm (h : AtOrder id .WAIT_ORDER_CMPL d) :
    AtOrder id .WAIT_ORDER_FILL (d.setState .WAIT_ORDER_FILL) :=
  ⟨by simp [h.fsm], h.current, h.other⟩

/-- Reports that never put a fill after a confirmation confirm the order at most. -/
theorem quietly_confirming_reports (h : AtOrder id .WAIT_ORDER_CMPL d)
    (hr : ∀ r ∈ rs, Unsettled id r) (hp : rs.Pairwise fun r r' => ¬FillsAfter r r')
    (hx : ∃ r ∈ rs, textAt r "X" = some "NEW") :
    Quietly d (rs.map .orderReport) (d.setState .WAIT_ORDER_FILL) := by
  induction rs generalizing d with
  | nil => simp at hx
  | cons r rs ih =>
    obtain ⟨hr₁, hrs⟩ := List.forall_mem_cons.mp hr
    obtain ⟨hp₁, hps⟩ := List.pairwise_cons.mp hp
    rcases hr₁.status with hn | hf
    · have hq := quietly_confirmed h.fsm (by rw [hr₁.id, h.current]) hn
      refine hq.append ?_
      have hfill := h.confirm.congr hq.1
      have hnot : ∀ r' ∈ rs, textAt r' "X" ≠ some "FILLED" := fun r' hm hf => hp₁ r' hm ⟨hn, hf⟩
      have hq' := quietly_filling_reports hfill hnot
      exact ⟨hq'.1.trans hq.1, hq'.2⟩
    · have hne : textAt r "X" ≠ some "NEW" := by simp [hf]
      have hq := quietly_confirming h.fsm (r := r) fun hc => hne hc.2
      refine hq.append ?_
      have hx' : ∃ r ∈ rs, textAt r "X" = some "NEW" := by
        obtain ⟨r', hm, hn⟩ := hx
        rcases List.mem_cons.mp hm with rfl | hm
        · exact absurd hn hne
        · exact ⟨r', hm, hn⟩
      have hq' := ih (h.congr hq.1) hrs hps hx'
      refine ⟨hq'.1.trans ?_, hq'.2⟩
      exact congrArg (SymbolData.setState .WAIT_ORDER_FILL) hq.1

/-- Reports that put a fill after a confirmation leave the symbol half filled. -/
theorem deaf_confirming_reports (h : AtOrder id .WAIT_ORDER_CMPL d)
    (hr : ∀ r ∈ rs, Unsettled id r) (hp : ¬rs.Pairwise fun r r' => ¬FillsAfter r r') :
    (bot.run d (rs.map .orderReport)).fsm = .WAIT_ORDER_FILL ∧
      Deaf id (bot.run d (rs.map .orderReport)) := by
  induction rs generalizing d with
  | nil => simp at hp
  | cons r rs ih =>
    obtain ⟨hr₁, hrs⟩ := List.forall_mem_cons.mp hr
    rcases hr₁.status with hn | hf
    · have hq := quietly_confirmed h.fsm (by rw [hr₁.id, h.current]) hn
      apply deaf_filling_reports (h.confirm.congr hq.1) hrs
      by_contra hc
      push Not at hc
      apply hp
      refine List.pairwise_cons.mpr ⟨fun r' hm hfa => hc r' hm hfa.2, ?_⟩
      exact List.pairwise_of_forall_mem_list fun _ _ r' hm hfa => hc r' hm hfa.2
    · have hne : textAt r "X" ≠ some "NEW" := by simp [hf]
      have hq := quietly_confirming h.fsm (r := r) fun hc => hne hc.2
      apply ih (h.congr hq.1) hrs
      intro hps
      exact hp (List.pairwise_cons.mpr ⟨fun r' _ hfa => hne hfa.1, hps⟩)

end Runs

/-! ### Interleavings -/

/-- The reports of the stream about the order `id`: its confirmation, and its
fill with a commission that can be taken off. -/
structure StreamReports (id : String) (stepSize : F) (new filled : Dict F) : Prop where
  newId : textAt new "c" = some id
  newStatus : textAt new "X" = some "NEW"
  filledId : textAt filled "c" = some id
  filledStatus : textAt filled "X" = some "FILLED"
  settles : settles filled stepSize = true

/-- The answer to the request of the order `id`, which names no commission. -/
structure Answer (id : String) (r : Dict F) : Prop where
  id : textAt r "c" = some id
  status : textAt r "X" = some "NEW" ∨ textAt r "X" = some "FILLED"
  bare : ∀ key ∈ ["N", "n", "p"], r.lookup key = none

/-- The reports of the stream, with answers before, between and after them. -/
def interleaving (new filled : Dict F) (as₀ as₁ as₂ : List (Dict F)) : List (Event F) :=
  (as₀ ++ new :: as₁).map .orderReport ++ .orderReport filled :: as₂.map .orderReport

/-- What the order of delivery should not change. -/
def outcome (d : SymbolData F) (es : List (Event F)) :=
  ((bot.run d es).fsm, (bot.run d es).step, (bot.run d es).counter, (bot.run d es).waitOrderFill,
    ((bot.run d es).orders 0).quantity, ((bot.run d es).orders 1).quantity, ordersOf d es)

theorem Answer.unsettled {id : String} {r : Dict F} (h : Answer id r) : Unsettled id r where
  id := h.id
  status := h.status
  unsettled _ stepSize := by
    have hN : r.item "N" = .error .keyError := by simp [Dict.item, h.bare "N" (by simp)]
    rw [← Bool.not_eq_true, settles_iff]
    rintro ⟨asset, n, hN', -⟩
    simp [hN] at hN'

theorem StreamReports.unsettled {id : String} {stepSize : F} {new filled : Dict F}
    (h : StreamReports id stepSize new filled) : Unsettled id new where
  id := h.newId
  status := .inl h.newStatus
  unsettled hx := by simp [h.newStatus] at hx

omit [Runtime F] in
/-- The symbol that has just placed an order stands at it. -/
theorem atOrder_of_models {symbol : String} {d : SymbolData F} {c : State F}
    (hs : "USDT_to_" ++ symbol ≠ symbol ++ "_to_USDT") (h : Models symbol d c)
    (hn : c.Named (orderId symbol)) (hf : d.fsm = .WAIT_ORDER_CMPL) :
    AtOrder d.currentOrder.newClientOrderId .WAIT_ORDER_CMPL d ∧
      ∀ n, orderId symbol d.nextStep.step n ≠ d.currentOrder.newClientOrderId := by
  have hother : d.nextStep.step ≠ d.step := by
    show (if d.step = 0 then 1 else 0 : Fin 2) ≠ d.step
    split <;> omega
  have hname (j : Fin 2) : (d.orders j).newClientOrderId = c.ids j := by rw [h.ids]
  obtain ⟨m, hm⟩ : ∃ m, d.currentOrder.newClientOrderId = orderId symbol d.step m := by
    have ho : d.waitOrderFill = some d.step := by
      have hs := h.shows
      cases hp : c.phase <;> simp_all [Shows]
    rw [SymbolData.currentOrder, hname]
    refine (hn d.step).resolve_left fun he => h.named _ ho ?_
    rw [hname, he]
  have hne (n : ℕ) : orderId symbol d.nextStep.step n ≠ d.currentOrder.newClientOrderId := by
    rw [hm]
    exact fun he => hother (orderId_inj hs he).1
  refine ⟨⟨hf, rfl, ?_⟩, hne⟩
  show (d.orders d.nextStep.step).newClientOrderId ≠ _
  rcases hn d.nextStep.step with he | ⟨n, he⟩
  · rw [hname, he, hm]
    exact (orderId_ne_empty _ _ _).symm
  · rw [hname, he]
    exact hne n

section Interleavings

variable {symbol id : String} {d : SymbolData F} {new filled : Dict F} {as₀ as₁ as₂ : List (Dict F)}

theorem unsettled_reports {stepSize : F} (hr : StreamReports id stepSize new filled)
    (ha : ∀ r ∈ as₀ ++ as₁, Answer id r) : ∀ r ∈ as₀ ++ new :: as₁, Unsettled id r := by
  intro r hm
  rcases List.mem_append.mp hm with hm | hm
  · exact (ha r (by simp [hm])).unsettled
  rcases List.mem_cons.mp hm with rfl | hm
  · exact hr.unsettled
  · exact (ha r (by simp [hm])).unsettled

/-- In order, the reports fill the order quietly. -/
theorem quietly_interleaving {b : SymbolData F} (h : AtOrder id .WAIT_ORDER_CMPL d)
    (hr : StreamReports id d.stepSize new filled)
    (ha : ∀ r ∈ as₀ ++ as₁, Answer id r)
    (hp : (as₀ ++ new :: as₁).Pairwise fun r r' => ¬FillsAfter r r')
    (hd : (d.setState .WAIT_ORDER_FILL).filled.settle filled = .ok b) :
    Quietly d ((as₀ ++ new :: as₁).map .orderReport ++ [.orderReport filled]) b.reopened := by
  have hq := quietly_confirming_reports h (unsettled_reports hr ha) hp ⟨new, by simp, hr.newStatus⟩
  have hfill := h.confirm.congr hq.1
  apply hq.append
  exact quietly_filled hq.1 hfill.fsm (by rw [hr.filledId, hfill.current]) hr.filledStatus hd

theorem outcome_of_quietly {es : List (Event F)} {b : SymbolData F} (h : Quietly d es b) :
    outcome d es = (b.fsm, b.step, b.counter, b.waitOrderFill, (b.orders 0).quantity,
      (b.orders 1).quantity, []) := by
  have hb : ∀ {α : Type} (f : SymbolData F → α), f (bare (bot.run d es)) = f (bare b) :=
    fun f => by rw [h.1]
  simp only [outcome, Prod.mk.injEq]
  exact ⟨hb SymbolData.fsm, hb SymbolData.step, hb SymbolData.counter, hb SymbolData.waitOrderFill,
    hb fun d => (d.orders 0).quantity, hb fun d => (d.orders 1).quantity, h.2⟩

/-- An answer that finds the next trigger fired places the next order at once. -/
theorem run_answers_placed {b : SymbolData F} (hb : bare d = bare b) (hf : b.fsm = .WAIT_PRICE)
    (hx : b.fires = true) (hne : orderId b.symbol b.step b.counter ≠ id)
    (ha : ∀ r ∈ as₂, Answer id r) (hn : as₂ ≠ []) :
    (bot.run d (as₂.map .orderReport)).fsm = .WAIT_ORDER_CMPL := by
  obtain ⟨r, rs, rfl⟩ := List.exists_cons_of_ne_nil hn
  have hf' : (bare d).fsm = .WAIT_PRICE := by rw [hb]; exact hf
  have hx' : (bare d).fires = true := by rw [hb]; exact hx
  have hne' : orderId (bare d).symbol (bare d).step (bare d).counter ≠ id := by rw [hb]; exact hne
  obtain ⟨hs, hdeaf⟩ := deaf_placed (d := d) (r := r) hf' hx' hne'
  exact (run_deaf hdeaf fun r' hm => (ha r' (by simp [hm])).id).1.trans hs

theorem outcome_interleaving_iff (h : AtOrder id .WAIT_ORDER_CMPL d)
    (hne : ∀ n, orderId d.symbol d.nextStep.step n ≠ id)
    (hr : StreamReports id d.stepSize new filled)
    (ha : ∀ r ∈ as₀ ++ as₁ ++ as₂, Answer id r) :
    outcome d (interleaving new filled as₀ as₁ as₂) = outcome d (interleaving new filled [] [] []) ↔
      ((as₀ ++ new :: as₁).Pairwise fun r r' => ¬FillsAfter r r') ∧
        (as₂ = [] ∨ d.nextStep.fires = false) := by
  obtain ⟨b, hb, q, hq⟩ := settle_of_settles (d := (d.setState .WAIT_ORDER_FILL).filled) hr.settles
  have hf : b.reopened.fsm = .WAIT_PRICE := by simp [hq, h.fsm]
  have hx : b.reopened.fires = d.nextStep.fires := by rw [hq]; rfl
  have hid : orderId b.reopened.symbol b.reopened.step b.reopened.counter ≠ id := by
    rw [hq]
    exact hne _
  have ha₀₁ : ∀ r ∈ as₀ ++ as₁, Answer id r := fun r hm => ha r (List.mem_append_left _ hm)
  have ha₂ : ∀ r ∈ as₂, Answer id r := fun r hm => ha r (List.mem_append_right _ hm)
  have hquiet : Quietly d (interleaving new filled [] [] []) b.reopened :=
    quietly_interleaving h hr (by simp) (by simp) hb
  have hbase := outcome_of_quietly hquiet
  have hfsm (he : outcome d (interleaving new filled as₀ as₁ as₂) =
      outcome d (interleaving new filled [] [] [])) :
      (bot.run d (interleaving new filled as₀ as₁ as₂)).fsm = .WAIT_PRICE :=
    (congrArg Prod.fst (he.trans hbase)).trans hf
  have hsplit : interleaving new filled as₀ as₁ as₂ =
      ((as₀ ++ new :: as₁).map .orderReport ++ [.orderReport filled]) ++ as₂.map .orderReport := by
    simp [interleaving]
  by_cases hp : (as₀ ++ new :: as₁).Pairwise fun r r' => ¬FillsAfter r r'
  · have hq₁ := quietly_interleaving h hr ha₀₁ hp hb
    by_cases hn : as₂ = []
    · refine iff_of_true ?_ ⟨hp, .inl hn⟩
      rw [hbase, hsplit, hn, List.map_nil, List.append_nil]
      exact outcome_of_quietly hq₁
    cases hfires : d.nextStep.fires with
    | false =>
      refine iff_of_true ?_ ⟨hp, .inr rfl⟩
      rw [hbase, hsplit]
      apply outcome_of_quietly
      refine hq₁.append (quietly_reports (fun r _ d' hd => ?_) hq₁.1)
      have hw : (bare d').fsm = .WAIT_PRICE ∧ (bare d').fires = false := by
        rw [hd]
        exact ⟨hf, hx.trans hfires⟩
      have hq' := quietly_waiting (d := d') (r := r) hw.1 hw.2
      exact ⟨hq'.1.trans hd, hq'.2⟩
    | true =>
      refine iff_of_false (fun he => ?_) (by simp [hn])
      have hc := run_answers_placed hq₁.1 hf (hx.trans hfires) hid ha₂ hn
      rw [← Machine.run_append, ← hsplit, hfsm he] at hc
      cases hc
  · refine iff_of_false (fun he => ?_) fun hc => hp hc.1
    have hu : ∀ r ∈ as₀ ++ new :: as₁, Unsettled id r := unsettled_reports hr ha₀₁
    obtain ⟨hs, hdeaf⟩ := deaf_confirming_reports h hu hp
    have hrest : ∀ r ∈ filled :: as₂, textAt r "c" = some id :=
      List.forall_mem_cons.mpr ⟨hr.filledId, fun r hm => (ha₂ r hm).id⟩
    have hc := (run_deaf hdeaf hrest).1.trans hs
    rw [List.map_cons, ← Machine.run_append] at hc
    have he' := hfsm he
    simp only [interleaving] at he'
    rw [he'] at hc
    cases hc

/-- In a reachable symbol that has just placed an order, the answers to the order
request change nothing exactly if none reports a fill after the order was first
reported as new, and none comes after the fill to find the next trigger fired. -/
theorem interleavings_agree_iff (symbol : String) (es : List (Event F)) (new filled : Dict F)
    (as₀ as₁ as₂ : List (Dict F)) (hs : "USDT_to_" ++ symbol ≠ symbol ++ "_to_USDT")
    (hf : (bot.run (SymbolData.init symbol) es).fsm = .WAIT_ORDER_CMPL)
    (hr : StreamReports (bot.run (SymbolData.init symbol) es).currentOrder.newClientOrderId
      (bot.run (SymbolData.init symbol) es).stepSize new filled)
    (ha : ∀ r ∈ as₀ ++ as₁ ++ as₂,
      Answer (bot.run (SymbolData.init symbol) es).currentOrder.newClientOrderId r) :
    outcome (bot.run (SymbolData.init symbol) es) (interleaving new filled as₀ as₁ as₂) =
        outcome (bot.run (SymbolData.init symbol) es) (interleaving new filled [] [] []) ↔
      ((as₀ ++ new :: as₁).Pairwise fun r r' => ¬FillsAfter r r') ∧
        (as₂ = [] ∨ (bot.run (SymbolData.init symbol) es).nextStep.fires = false) := by
  obtain ⟨c, hc, hn⟩ := reachable_models_with (J := fun c => c.Named (orderId symbol))
    (fun _ => .inl rfl) (fun _ _ h => named_step h) es
  obtain ⟨hat, hne⟩ := atOrder_of_models hs hc hn hf
  refine outcome_interleaving_iff hat ?_ hr ha
  rw [hc.symbol]
  exact hne

end Interleavings

/-! ### An answer that comes too early -/

theorem streamReports_placedOrder :
    StreamReports (bot.run (SymbolData.init "BTC") placedOrder).currentOrder.newClientOrderId
      (bot.run (SymbolData.init "BTC") placedOrder).stepSize newReport filledReport := by
  have hid : (bot.run (SymbolData.init "BTC") placedOrder).currentOrder.newClientOrderId =
      "order_USDT_to_BTC_0" := by decide +kernel
  rw [hid]
  exact ⟨rfl, rfl, rfl, rfl, by decide +kernel⟩

theorem answer_placedOrder :
    Answer (bot.run (SymbolData.init "BTC") placedOrder).currentOrder.newClientOrderId
      filledAnswer := by
  have hid : (bot.run (SymbolData.init "BTC") placedOrder).currentOrder.newClientOrderId =
      "order_USDT_to_BTC_0" := by decide +kernel
  rw [hid]
  refine ⟨rfl, .inr rfl, fun key hk => ?_⟩
  obtain rfl | rfl | rfl : key = "N" ∨ key = "n" ∨ key = "p" := by simpa using hk
  all_goals rfl

/-- An answer that reports the fill before the confirmation does no harm. -/
theorem interleavings_agree_early :
    outcome (bot.run (SymbolData.init "BTC") placedOrder)
        (interleaving newReport filledReport [filledAnswer] [] []) =
      outcome (bot.run (SymbolData.init "BTC") placedOrder)
        (interleaving newReport filledReport [] [] []) := by
  refine (interleavings_agree_iff "BTC" placedOrder newReport filledReport [filledAnswer] [] []
    (by decide) (by decide +kernel) streamReports_placedOrder ?_).2 ⟨?_, .inl rfl⟩
  · simpa using answer_placedOrder
  · simp [FillsAfter, filledAnswer]

/-- An answer that reports the fill between the two stream reports loses the fill. -/
theorem interleavings_disagree : ¬∀ (symbol : String) (es : List (Event ℚ)) (new filled : Dict ℚ)
    (as₀ as₁ as₂ : List (Dict ℚ)),
    (bot.run (SymbolData.init symbol) es).fsm = .WAIT_ORDER_CMPL →
    StreamReports (bot.run (SymbolData.init symbol) es).currentOrder.newClientOrderId
      (bot.run (SymbolData.init symbol) es).stepSize new filled →
    (∀ r ∈ as₀ ++ as₁ ++ as₂,
      Answer (bot.run (SymbolData.init symbol) es).currentOrder.newClientOrderId r) →
    outcome (bot.run (SymbolData.init symbol) es) (interleaving new filled as₀ as₁ as₂) =
      outcome (bot.run (SymbolData.init symbol) es) (interleaving new filled [] [] []) := by
  intro h
  have he := h "BTC" placedOrder newReport filledReport [] [filledAnswer] [] (by decide +kernel)
    streamReports_placedOrder (by simpa using answer_placedOrder)
  have hf := congrArg Prod.fst he
  simp only [outcome] at hf
  revert hf
  decide +kernel

end BotTrader.Control
