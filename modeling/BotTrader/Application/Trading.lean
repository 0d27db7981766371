import BotTrader.Application.TimersEnd
import BotTrader.Automata.Expansion
import BotTrader.Market.Timer
import BotTrader.Strategy.Isolation

/-! The script and its timers together. The application hands the calls for timers to the map,
and the map calls the timeout of a symbol when the symbol's own timer has run out. What a symbol
goes through is a run of this symbol alone with one timer. -/

namespace BotTrader.Application

open Automata Handler Python Strategy Control Market

variable {F : Type}

/-- `"{}_compl_timer".format(s)` -/
def timerName (s : String) : String := s ++ "_compl_timer"

/-- What a call asks of the timers; `recurring` is false unless it is given. -/
def commandOf : Call F → Option (TimerMap.Command String)
  | .startTimer name interval => some (.start name interval false)
  | .stopTimer name => some (.stop name)
  | _ => none

/-- The configured symbols. None is named twice: the timer of such a symbol would stay with the
first of its two data, as `emplace` does not replace a timer. -/
structure Symbols where
  list : List String
  nodup : list.Nodup

/-- The script, and its timers; the function of a timer is the timeout of a symbol. -/
structure Trading (F : Type) where
  script : Script F
  timers : TimerMap String

namespace Trading

/-- A message of the application, a deadline, or a queued handler. -/
inductive Event (F : Type) where
  | message (m : Message F)
  | expire (id : ℕ)
  | handle (i : ℕ)

def Event.message? : Event F → Option (Message F)
  | .message m => some m
  | _ => none

/-- The symbol whose timeout a queued handler calls. -/
def called (t : Trading F) (i : ℕ) : Option String := do
  let h ← t.timers.queue[i]?
  if h.aborted then none
  else (t.timers.objects h.id).map Timer.func

variable [Runtime F]

/-- What the timers are told while a message is handled. -/
def commands (t : Trading F) (m : Message F) : List (TimerMap.Command String) :=
  (strategy.emit t.script m).filterMap commandOf

def next (t : Trading F) : Event F → Trading F
  | .message (.timeout _) => t
  | .message m =>
    { script := strategy.next t.script m, timers := (t.timers.performs (t.commands m)).1 }
  | .expire id => { t with timers := t.timers.expire id }
  | .handle i => match t.called i with
    | none => { t with timers := (t.timers.step (.handle i [] false)).1 }
    | some s =>
      { script := strategy.next t.script (.timeout s)
        timers := (t.timers.step (.handle i (t.commands (.timeout s))
          (((Message.timeout s).handler.run t.script).error.isSome))).1 }

def emit (t : Trading F) : Event F → List (Call F)
  | .message (.timeout _) => []
  | .message m => strategy.emit t.script m
  | .expire _ => []
  | .handle i => match t.called i with
    | none => []
    | some s => strategy.emit t.script (.timeout s)

/-- `on_symbols_list`, with a timer for every symbol -/
def init (symbols : Symbols) : Trading F where
  script := Script.init symbols.list
  timers := (({} : TimerMap String).performs (symbols.list.map fun s => .add (timerName s) s)).1

end Trading

/-- The script under messages, and its timers under deadlines and handlers, in any order. -/
def trading [Runtime F] : Machine (Trading F) (Trading.Event F) (Call F) where
  next := Trading.next
  emit := Trading.emit

/-! ### The timer of a symbol -/

/-- Whether a timer waits after some calls. -/
def armedAfter (name : String) (b : Bool) (calls : List (Call F)) : Bool :=
  calls.foldl (fun b c => match c with
    | .startTimer n _ => if n = name then true else b
    | .stopTimer n => if n = name then false else b
    | _ => b) b

theorem armedAfter_cons (name : String) (b : Bool) (c : Call F) (calls : List (Call F)) :
    armedAfter name b (c :: calls) = armedAfter name (armedAfter name b [c]) calls := rfl

theorem armedAfter_append (name : String) (b : Bool) (calls calls' : List (Call F)) :
    armedAfter name b (calls ++ calls') = armedAfter name (armedAfter name b calls) calls' :=
  List.foldl_append

variable {s : String}

/-- Only the calls in the name of a symbol are for its timer. -/
theorem armedAfter_filter (b : Bool) (calls : List (Call F)) :
    armedAfter (timerName s) b (calls.filter (Call.inNameOf s)) =
      armedAfter (timerName s) b calls := by
  induction calls generalizing b with
  | nil => rfl
  | cons c calls ih =>
    by_cases hc : c.inNameOf s = true
    · rw [List.filter_cons_of_pos hc, armedAfter_cons, ih, ← armedAfter_cons]
    · rw [List.filter_cons_of_neg hc, ih, armedAfter_cons]
      congr 1
      cases c with
      | startTimer name n =>
        have hne : name ≠ timerName s := by
          rintro rfl
          exact hc (by simp [Call.inNameOf, Call.name?, namesOf, timerName])
        simp [armedAfter, hne]
      | stopTimer name =>
        have hne : name ≠ timerName s := by
          rintro rfl
          exact hc (by simp [Call.inNameOf, Call.name?, namesOf, timerName])
        simp [armedAfter, hne]
      | _ => rfl

/-! ### What calls do to the timers -/

/-- A wait of the timer is pending. -/
def TimerMap.armed (t : TimerMap String) (id : ℕ) : Bool :=
  (t.objects id).elim false fun x => decide (0 < x.waiting)

/-- Every timer is that of the symbol whose timeout it calls, and none is periodic. -/
structure Wired (t : TimerMap String) : Prop where
  wellFormed : t.WellFormed
  own : ∀ id x, t.objects id = some x → t.names (timerName x.func) = some id
  once : ∀ id x, t.objects id = some x → x.periodic = false

/-- After the calls each timer waits or not as the calls in its name say; else it is as before. -/
structure Answers (t t' : TimerMap String) (calls : List (Call F)) : Prop where
  names : t'.names = t.names
  funcs : ∀ id, (t'.objects id).map Timer.func = (t.objects id).map Timer.func
  queued : ∀ id, t'.queue.count ⟨id, false⟩ = t.queue.count ⟨id, false⟩
  armed : ∀ name id, t.names name = some id → t'.armed id = armedAfter name (t.armed id) calls
  wired : Wired t'

variable {t t' t'' : TimerMap String} {calls calls' : List (Call F)} {c : Call F}

theorem Answers.append (h : Answers t t' calls) (h' : Answers t' t'' calls') :
    Answers t t'' (calls ++ calls') where
  names := h'.names.trans h.names
  funcs id := (h'.funcs id).trans (h.funcs id)
  queued id := (h'.queued id).trans (h.queued id)
  armed name id hn := by
    rw [h'.armed name id (h.names ▸ hn), h.armed name id hn, ← armedAfter_append]
  wired := h'.wired

/-- The timer of the name gets a new state, and its waits are cancelled. -/
theorem answers_put {name : String} {id n : ℕ} {x x' : Timer String} (hw : Wired t)
    (hn : t.names name = some id) (hx : t.objects id = some x) (hf : x'.func = x.func)
    (hp : x'.periodic = false) (hx' : x'.waiting ≤ 1)
    (hc : ∀ b, armedAfter name b [c] = decide (0 < x'.waiting))
    (hc' : ∀ name' b, name' ≠ name → armedAfter name' b [c] = b) :
    Answers t (t.put id (some x') (List.replicate n ⟨id, true⟩)) [c] where
  names := rfl
  funcs j := by
    by_cases hj : j = id
    · subst hj
      simp [hx, hf]
    · simp [Function.update_of_ne hj]
  queued j := by simp [List.count_replicate]
  armed name' j hn' := by
    by_cases hj : j = id
    · subst hj
      rw [hw.wellFormed.unique name' name j hn' hn, hc]
      simp [TimerMap.armed]
    · have hne : name' ≠ name := by
        rintro rfl
        exact hj (Option.some.inj (hn'.symm.trans hn))
      rw [hc' name' _ hne]
      simp [TimerMap.armed, Function.update_of_ne hj]
  wired := by
    refine ⟨hw.wellFormed.put (by simp [hx]) hx' _, fun j y hy => ?_, fun j y hy => ?_⟩
    · by_cases hj : j = id
      · subst hj
        obtain rfl : x' = y := by simpa using hy
        rw [hf]
        exact hw.own j x hx
      · exact hw.own j y (by simpa [Function.update_of_ne hj] using hy)
    · by_cases hj : j = id
      · subst hj
        obtain rfl : x' = y := by simpa using hy
        exact hp
      · exact hw.once j y (by simpa [Function.update_of_ne hj] using hy)

theorem answers_rfl (hw : Wired t) (hc : ∀ name id b, t.names name = some id →
    armedAfter name b calls = b) : Answers t t calls where
  names := rfl
  funcs _ := rfl
  queued _ := rfl
  armed name id hn := (hc name id _ hn).symm
  wired := hw

theorem startObject_eq {id : ℕ} {x : Timer String} (hx : t.objects id = some x) (interval : ℤ)
    (periodic : Bool) : (t.startObject id interval periodic).1 =
      t.put id (some { x with interval := interval, periodic := periodic, waiting := 1 })
        (List.replicate x.waiting ⟨id, true⟩) := by
  simp [TimerMap.startObject, TimerMap.run, TimerMap.put, hx]

theorem cancel_eq {id : ℕ} {x : Timer String} (hx : t.objects id = some x) :
    (t.cancel id).1 =
      t.put id (some { x with waiting := 0 }) (List.replicate x.waiting ⟨id, true⟩) := by
  simp [TimerMap.cancel, hx]

theorem answers_call (hw : Wired t) (c : Call F) :
    Answers t (t.performs ([c].filterMap commandOf)).1 [c] := by
  have hobject {name : String} {id : ℕ} (hn : t.names name = some id) :
      ∃ x, t.objects id = some x := Option.ne_none_iff_exists'.mp (hw.wellFormed.named name id hn)
  cases c with
  | startTimer name n =>
    show Answers t (t.perform (.start name n false)).1 _
    simp only [TimerMap.perform]
    cases hn : t.names name with
    | none =>
      refine answers_rfl hw fun name' id b hn' => if_neg ?_
      rintro rfl
      cases hn.symm.trans hn'
    | some id =>
      obtain ⟨x, hx⟩ := hobject hn
      simp only [startObject_eq hx]
      exact answers_put hw hn hx rfl rfl (Nat.le_refl _) (fun b => if_pos rfl)
        fun name' b hne => if_neg hne.symm
  | stopTimer name =>
    show Answers t (t.perform (.stop name)).1 _
    simp only [TimerMap.perform]
    cases hn : t.names name with
    | none =>
      refine answers_rfl hw fun name' id b hn' => if_neg ?_
      rintro rfl
      cases hn.symm.trans hn'
    | some id =>
      obtain ⟨x, hx⟩ := hobject hn
      simp only [cancel_eq hx]
      exact answers_put hw hn hx rfl (hw.once id x hx) (Nat.zero_le _) (fun b => if_pos rfl)
        fun name' b hne => if_neg hne.symm
  | execOrder | deleteOrder | toJournal | sendToWeb | toAlertChannel =>
    exact answers_rfl hw fun _ _ _ _ => rfl

theorem answers_performs (hw : Wired t) (calls : List (Call F)) :
    Answers t (t.performs (calls.filterMap commandOf)).1 calls := by
  induction calls generalizing t with
  | nil => exact answers_rfl hw fun _ _ _ _ => rfl
  | cons c calls ih =>
    have hc := answers_call hw c
    have hrest := ih hc.wired
    have happend : (t.performs ((c :: calls).filterMap commandOf)).1 =
        ((t.performs ([c].filterMap commandOf)).1.performs (calls.filterMap commandOf)).1 := by
      cases hcmd : commandOf c <;> simp [hcmd, TimerMap.performs]
    rw [happend]
    exact hc.append hrest

/-- The timer of a symbol calls the timeout of this symbol. -/
theorem func_of_named {id : ℕ} (hw : Wired t) (hn : t.names (timerName s) = some id) :
    ∃ x, t.objects id = some x ∧ x.func = s := by
  obtain ⟨x, hx⟩ := Option.ne_none_iff_exists'.mp (hw.wellFormed.named _ id hn)
  have hname := hw.wellFormed.unique _ _ id (hw.own id x hx) hn
  exact ⟨x, hx, (String.append_left_inj _).mp hname⟩

theorem wired_queue (hw : Wired t) (queue : List Queued) :
    Wired ({ t with queue := queue } : TimerMap String) :=
  ⟨TimerMap.wellFormed_queue hw.wellFormed queue, hw.own, hw.once⟩

/-- No timer is restarted by its own handler. -/
theorem handle_eq {i id : ℕ} {x : Timer String} (hw : Wired t) (hq : t.queue[i]? = some ⟨id, false⟩)
    (hx : t.objects id = some x) (calls : List (Call F)) (raises : Bool) :
    (t.step (.handle i (calls.filterMap commandOf) raises)).1 =
      (({ t with queue := t.queue.eraseIdx i } : TimerMap String).performs
        (calls.filterMap commandOf)).1 := by
  have hwired := (answers_performs (wired_queue hw (t.queue.eraseIdx i)) calls).wired
  simp only [TimerMap.step, hq, TimerMap.timeout, Bool.false_eq_true, if_false, hx]
  split
  · rfl
  · unfold TimerMap.again
    split
    · rfl
    · next y hy => simp [hwired.once id y hy]

/-! ### What a symbol does with its timer -/

theorem own_bot [Runtime F] {d : SymbolData F} (hd : Named s d) (es : List (Strategy.Event F)) :
    ∀ c ∈ bot.emitted d es, c.Own s :=
  Machine.emitted_invariant (Named s) (Call.Own s) (P := fun _ _ => True)
    (fun d e hd _ => (owned_handler e d hd).1) (fun d e hd _ => (owned_handler e d hd).2) hd
    (Machine.along_of_forall _ (fun _ _ => trivial) _ _)

/-- The wait of a symbol is pending or not as its calls say. -/
theorem pending_perform (ho : ∀ c ∈ calls, c.Own s) (td : Timed F) :
    ((calls.filterMap Call.act?).foldl Timed.perform td).pending.isSome =
      armedAfter (timerName s) td.pending.isSome calls := by
  induction calls generalizing td with
  | nil => rfl
  | cons c calls ih =>
    rw [List.forall_mem_cons] at ho
    rw [armedAfter_cons]
    have hstep {a : Act F} (ha : c.act? = some a)
        (hp : (td.perform a).pending.isSome = armedAfter (timerName s) td.pending.isSome [c]) :
        (((c :: calls).filterMap Call.act?).foldl Timed.perform td).pending.isSome =
          armedAfter (timerName s) (armedAfter (timerName s) td.pending.isSome [c]) calls := by
      rw [List.filterMap_cons_some ha, List.foldl_cons, ih ho.2, hp]
    have hown := ho.1
    cases c with
    | startTimer name n =>
      have hname : name = timerName s := by simpa [namesOf, timerName] using hown _ rfl
      exact hstep rfl (if_pos hname).symm
    | stopTimer name =>
      have hname : name = timerName s := by simpa [namesOf, timerName] using hown _ rfl
      exact hstep rfl (if_pos hname).symm
    | execOrder | deleteOrder => exact hstep rfl rfl
    | sendToWeb | toJournal | toAlertChannel =>
      rw [List.filterMap_cons_none rfl, ih ho.2]
      rfl

variable [Runtime F]

/-- A symbol after an event, and its timer. -/
structure Advances (td td' : Timed F) (calls : List (Call F)) (s : String) : Prop where
  queued : td'.queued = td.queued
  pending : td'.pending.isSome = armedAfter (timerName s) td.pending.isSome calls
  orders : td'.orders = td.orders ++ (issued calls).map ticketOf

theorem advances_deliver (td : Timed F) (hn : Named s td.data) (e : Strategy.Event F) :
    Advances td (td.deliver e) (bot.emit td.data e) s where
  queued := Timed.deliver_queued td e
  pending := pending_perform (owned_handler e td.data hn).2 _
  orders := by rw [Timed.deliver_orders, tickets_of_calls, Timed.acts]

theorem advances_messages {td : Timed F} (hn : Named s td.data) {es : List (Strategy.Event F)}
    (he : .orderCompleteTimeout ∉ es) :
    (timed.run td (es.map .message)).data = bot.run td.data es ∧
      Advances td (timed.run td (es.map .message)) (bot.emitted td.data es) s := by
  induction es generalizing td with
  | nil => exact ⟨rfl, rfl, rfl, by simp [issued]⟩
  | cons e es ih =>
    rw [List.mem_cons, not_or] at he
    have hnext : timed.next td (.message e) = td.deliver e := by
      cases e with
      | orderCompleteTimeout => exact absurd rfl he.1
      | _ => rfl
    have hf := advances_deliver td hn e
    have hn' : Named s (td.deliver e).data := by
      rw [Timed.deliver_data]
      exact (owned_handler e td.data hn).1
    obtain ⟨hdata, hrest⟩ := ih hn' he.2
    rw [Timed.deliver_data] at hdata hrest
    rw [List.map_cons, Machine.run_cons, hnext, Machine.run_cons, Machine.emitted_cons]
    refine ⟨hdata, hrest.queued.trans hf.queued, ?_, ?_⟩
    · rw [hrest.pending, hf.pending, ← armedAfter_append]
    · rw [hrest.orders, hf.orders, issued, issued, issued, List.filterMap_append, List.map_append,
        List.append_assoc]

omit [Runtime F] in
theorem issued_filter (ho : ∀ c ∈ calls, c.Own s) :
    issued (calls.filter (Call.inNameOf s)) = issued calls := by
  induction calls with
  | nil => rfl
  | cons c calls ih =>
    rw [List.forall_mem_cons] at ho
    by_cases hc : c.inNameOf s = true
    · have ih := ih ho.2
      unfold issued at ih ⊢
      rw [List.filter_cons_of_pos hc, List.filterMap_cons, List.filterMap_cons, ih]
    · rw [List.filter_cons_of_neg hc, ih ho.2]
      cases c with
      | execOrder o => exact absurd (by simp [Call.inNameOf, Call.name?, ho.1 _ rfl]) hc
      | _ => rfl

/-! ### What messages bring -/

theorem timeout_notMem_infoDeliveries (t : Script F) (symbols : List (Json F)) :
    ∀ x ∈ infoDeliveries t symbols, x.2 ≠ some .orderCompleteTimeout := by
  induction symbols with
  | nil => simp [infoDeliveries]
  | cons symbol symbols ih =>
    rw [infoDeliveries]
    split
    · simp
    · exact ih
    · intro x hx
      rcases List.mem_cons.mp hx with rfl | hx
      · simp
      · split at hx
        · cases hx
        · exact ih x hx

omit [Runtime F] in
theorem mem_deliver {e : Option (Strategy.Event F)} {r : Except Exc (Option String)}
    {x : Delivery F} (hx : x ∈ deliver e r) : x.2 = e := by
  unfold deliver at hx
  split at hx
  · rw [List.mem_singleton.mp hx]
  · cases hx

omit [Runtime F] in
theorem mem_deliverTo {e : Option (Strategy.Event F)} {t : Script F} {x : Delivery F}
    (hx : x ∈ deliverTo t e s) : x.2 = e := by
  unfold deliverTo at hx
  split at hx
  · rw [List.mem_singleton.mp hx]
  · cases hx

/-- Only the timer brings a timeout. -/
theorem timeout_notMem_inbox {t : Script F} {m : Message F} (hm : ∀ s, m ≠ .timeout s) :
    .orderCompleteTimeout ∉ inbox t [m] s := by
  suffices h : ∀ x ∈ m.deliveries t, x.2 ≠ some .orderCompleteTimeout by
    intro he
    rw [inbox, List.reduceOption_mem_iff, only, List.mem_filterMap] at he
    obtain ⟨x, hx, hsome⟩ := he
    rw [List.flatMap_singleton] at hx
    split at hsome
    · exact h x hx (Option.some.inj hsome)
    · cases hsome
  intro x hx
  cases m with
  | exchangeInfo data =>
    simp only [Message.deliveries] at hx
    split at hx
    · cases hx
    · split at hx
      · exact timeout_notMem_infoDeliveries t _ x hx
      · cases hx
  | tradeData data | tradeRun data =>
    obtain ⟨dict, -, hx⟩ := List.mem_flatMap.mp hx
    simp [mem_deliver hx]
  | getTradeState symbol => simp [mem_deliverTo hx]
  | price data | orderReport data =>
    obtain ⟨dict, -, hx⟩ := List.mem_flatMap.mp hx
    split at hx
    · simp [mem_deliverTo hx]
    · cases hx
  | timeout symbol => exact absurd rfl (hm symbol)

theorem inbox_timeout {t : Script F} {d : SymbolData F} (hd : t.symbolData s = some d) :
    inbox t [.timeout s] s = [.orderCompleteTimeout] := by
  simp [inbox, Message.deliveries, deliverTo, hd, only, List.reduceOption]

theorem inbox_timeout_of_ne {t : Script F} {s' : String} (hs : s' ≠ s) :
    inbox t [.timeout s'] s = [] := by
  unfold inbox Message.deliveries deliverTo
  simp only [List.flatMap_singleton]
  split
  · simp [only, hs]
  · rfl

/-! ### Symbols with their timers -/

namespace Trading

/-- What an event is for a symbol and its timer. -/
def sees (s : String) (id : ℕ) (t : Trading F) : Event F → List (TimerEvent F)
  | .message (.timeout _) => []
  | .message m => (inbox t.script [m] s).map .message
  | .expire j => if j = id then [.expire] else []
  | .handle i =>
    if t.called i = some s then [.fire ((t.timers.queue.take i).count ⟨id, false⟩)] else []

end Trading

/-- The symbol and its timer are those of the script, which has made the calls `os`. -/
structure Mirrors (s : String) (id : ℕ) (t : Trading F) (os : List (Call F)) (td : Timed F) :
    Prop where
  named : t.script.Named
  data : t.script.symbolData s = some td.data
  wired : Wired t.timers
  name : t.timers.names (timerName s) = some id
  pending : td.pending.isSome = t.timers.armed id
  queued : td.queued.length = t.timers.queue.count ⟨id, false⟩
  orders : td.orders = (issued (os.filter (Call.inNameOf s))).map ticketOf

variable {id : ℕ} {u : Trading F} {os : List (Call F)} {td td' : Timed F}

/-- The script handles a message, and the symbol what the message brings to it. -/
theorem Mirrors.handle {m : Message F} (h : Mirrors s id u os td)
    (hd : td'.data = bot.run td.data (inbox u.script [m] s))
    (hf : Advances td td' (bot.emitted td.data (inbox u.script [m] s)) s) :
    Mirrors s id ⟨strategy.next u.script m, (u.timers.performs (u.commands m)).1⟩
      (os ++ strategy.emit u.script m) td' := by
  obtain ⟨hdata, hcalls⟩ := runs_alone h.named h.data [m]
  have hemit : strategy.emitted u.script [m] = strategy.emit u.script m := List.append_nil _
  rw [hemit] at hcalls
  have ha := answers_performs h.wired (strategy.emit u.script m)
  have hown := own_bot (h.named s td.data h.data) (inbox u.script [m] s)
  exact {
    named := named_runScript h.named [m]
    data := hdata.trans (congrArg some hd.symm)
    wired := ha.wired
    name := by
      rw [Trading.commands, ha.names]
      exact h.name
    pending := by
      rw [Trading.commands, ha.armed _ id h.name, ← armedAfter_filter, hcalls, armedAfter_filter,
        hf.pending, h.pending]
    queued := by rw [Trading.commands, hf.queued, ha.queued, h.queued]
    orders := by
      rw [hf.orders, h.orders, List.filter_append, hcalls, issued, issued, issued,
        List.filterMap_append, List.map_append]
      exact congrArg _ (congrArg _ (issued_filter hown).symm) }

theorem mirrors_message {m : Message F} (h : Mirrors s id u os td) (hm : ∀ s, m ≠ .timeout s) :
    Mirrors s id (trading.next u (.message m)) (os ++ trading.emit u (.message m))
      (timed.run td (u.sees s id (.message m))) := by
  obtain ⟨hd, hf⟩ := advances_messages (h.named s td.data h.data)
    (timeout_notMem_inbox (t := u.script) (s := s) hm)
  cases m with
  | timeout s' => exact absurd rfl (hm s')
  | _ => exact h.handle hd hf

omit [Runtime F] in
/-- Handlers of other timers, and of cancelled waits, are nothing to the symbol. -/
theorem Mirrors.queue (h : Mirrors s id u os td) (queue : List Queued)
    (hq : queue.count ⟨id, false⟩ = u.timers.queue.count ⟨id, false⟩) :
    Mirrors s id { u with timers := { u.timers with queue := queue } } os td :=
  { h with wired := wired_queue h.wired queue, queued := h.queued.trans hq.symm }

omit [Runtime F] in
theorem wired_expire (hw : Wired t) (j : ℕ) : Wired (t.expire j) := by
  unfold TimerMap.expire
  split
  · exact hw
  · next x hx =>
    have ha : Answers t (t.put j (some { x with waiting := 0 }) (List.replicate 0 ⟨j, true⟩))
        [Call.stopTimer (F := Unit) (timerName x.func)] :=
      answers_put hw (hw.own j x hx) hx rfl (hw.once j x hx) (Nat.zero_le _) (fun b => if_pos rfl)
        fun name' b hne => if_neg hne.symm
    exact wired_queue ha.wired _

theorem mirrors_expire (h : Mirrors s id u os td) (j : ℕ) :
    Mirrors s id (trading.next u (.expire j)) os (timed.run td (u.sees s id (.expire j))) := by
  obtain ⟨x, hx, -⟩ := func_of_named h.wired h.name
  have hw := wired_expire h.wired j
  have hnames : (u.timers.expire j).names = u.timers.names := by
    unfold TimerMap.expire
    split <;> rfl
  have hp := h.pending
  by_cases hj : j = id
  · subst hj
    have hsingle := h.wired.wellFormed.single j x hx
    have hexpire : u.timers.expire j = u.timers.put j (some { x with waiting := 0 })
        (List.replicate x.waiting ⟨j, false⟩) := by simp [TimerMap.expire, hx]
    have hsees : u.sees s j (.expire j) = [.expire] := if_pos rfl
    simp only [TimerMap.armed, hx, Option.elim_some] at hp
    rw [hsees, Machine.run_cons, Machine.run_nil]
    cases hpending : td.pending with
    | none =>
      have hzero : x.waiting = 0 := by simpa [hpending] using hp
      have hnext : timed.next td .expire = td := by simp [timed, Timed.next, hpending]
      rw [hnext]
      exact { h with
        wired := hw
        name := hnames ▸ h.name
        pending := by simp [trading, Trading.next, hexpire, TimerMap.armed, hpending]
        queued := by simp [trading, Trading.next, hexpire, hzero, h.queued] }
    | some k =>
      have hone : x.waiting = 1 := by
        have : 0 < x.waiting := by simpa [hpending] using hp
        omega
      have hnext : timed.next td .expire = { td with pending := none, queued := td.queued ++ [k] } := by
        simp [timed, Timed.next, hpending]
      rw [hnext]
      exact { h with
        wired := hw
        name := hnames ▸ h.name
        pending := by simp [trading, Trading.next, hexpire, TimerMap.armed]
        queued := by simp [trading, Trading.next, hexpire, hone, h.queued] }
  · have hsees : u.sees s id (.expire j) = [] := if_neg hj
    have hobject : (u.timers.expire j).objects id = u.timers.objects id := by
      unfold TimerMap.expire
      split
      · rfl
      · simp [Function.update_of_ne (Ne.symm hj)]
    have hcount : (u.timers.expire j).queue.count ⟨id, false⟩ = u.timers.queue.count ⟨id, false⟩ := by
      unfold TimerMap.expire
      split
      · rfl
      · simp [List.count_replicate, hj]
    rw [hsees]
    exact { h with
      wired := hw
      name := hnames ▸ h.name
      pending := by simpa [trading, Trading.next, TimerMap.armed, hobject] using hp
      queued := h.queued.trans hcount.symm }

omit [Runtime F] in
theorem Trading.of_called {i : ℕ} {s' : String} (hc : u.called i = some s') :
    ∃ j x, u.timers.queue[i]? = some ⟨j, false⟩ ∧ u.timers.objects j = some x ∧ x.func = s' := by
  simp only [Trading.called, Option.bind_eq_bind, Option.bind_eq_some_iff] at hc
  obtain ⟨⟨j, aborted⟩, hq, hc⟩ := hc
  cases aborted with
  | true => cases hc
  | false =>
    obtain ⟨x, hx, hf⟩ := Option.map_eq_some_iff.mp hc
    exact ⟨j, x, hq, hx, hf⟩

omit [Runtime F] in
theorem Trading.of_not_called {i : ℕ} (hc : u.called i = none) :
    (u.timers.step (.handle i [] false)).1 =
        { u.timers with queue := u.timers.queue.eraseIdx i } ∧
      ∀ j x, u.timers.objects j = some x → u.timers.queue[i]? ≠ some ⟨j, false⟩ := by
  cases hq : u.timers.queue[i]? with
  | none =>
    rw [List.getElem?_eq_none_iff] at hq
    simp [TimerMap.step, List.getElem?_eq_none hq, List.eraseIdx_of_length_le hq]
  | some q =>
    obtain ⟨j, aborted⟩ := q
    cases aborted with
    | true => simp [TimerMap.step, TimerMap.timeout, hq]
    | false =>
      have hdead : u.timers.objects j = none := by simpa [Trading.called, hq] using hc
      refine ⟨by simp [TimerMap.step, TimerMap.timeout, hq, hdead], fun j' x hx he => ?_⟩
      obtain rfl : j = j' := by simpa using he
      cases hdead.symm.trans hx

omit [Runtime F] in
/-- A handler has as many of its timer before it as the place says. -/
theorem count_take_lt {queue : List Queued} {i : ℕ} {q : Queued} (h : queue[i]? = some q) :
    (queue.take i).count q < queue.count q := by
  obtain ⟨hi, rfl⟩ := List.getElem?_eq_some_iff.mp h
  have hsplit := congrArg (List.count queue[i]) (List.take_append_drop i queue)
  rw [List.count_append, List.drop_eq_getElem_cons hi, List.count_cons_self] at hsplit
  omega

theorem mirrors_handle (h : Mirrors s id u os td) (i : ℕ) :
    Mirrors s id (trading.next u (.handle i)) (os ++ trading.emit u (.handle i))
      (timed.run td (u.sees s id (.handle i))) := by
  obtain ⟨x, hx, hf⟩ := func_of_named h.wired h.name
  cases hc : u.called i with
  | none =>
    obtain ⟨hstep, hother⟩ := Trading.of_not_called hc
    have hcount : (u.timers.queue.eraseIdx i).count ⟨id, false⟩ =
        u.timers.queue.count ⟨id, false⟩ := by
      cases hq : u.timers.queue[i]? with
      | none => rw [List.eraseIdx_of_length_le (List.getElem?_eq_none_iff.mp hq)]
      | some q =>
        have hne : q ≠ ⟨id, false⟩ := fun he => hother id x hx (he ▸ hq)
        simpa [hne] using TimerMap.count_eraseIdx hq ⟨id, false⟩
    have hq := h.queue _ hcount
    simpa [trading, Trading.next, Trading.emit, Trading.sees, hc, hstep] using hq
  | some s' =>
    obtain ⟨j, y, hq, hy, hfunc⟩ := Trading.of_called hc
    have hcount := TimerMap.count_eraseIdx hq ⟨id, false⟩
    have hnext : trading.next u (.handle i) =
        ⟨strategy.next u.script (.timeout s'), ((({ u.timers with queue := u.timers.queue.eraseIdx i } :
          TimerMap String).performs (u.commands (.timeout s'))).1)⟩ := by
      simp only [trading, Trading.next, hc]
      rw [Trading.commands, handle_eq h.wired hq hy]
    have hemit : trading.emit u (.handle i) = strategy.emit u.script (.timeout s') := by
      simp only [trading, Trading.emit, hc]
    rw [hnext, hemit]
    by_cases hs : s' = s
    · subst hs
      obtain rfl : j = id := by
        have hown := h.wired.own j y hy
        rw [hfunc, h.name] at hown
        exact (Option.some.inj hown).symm
      have hplace := h.queued ▸ count_take_lt hq
      have hsees : u.sees s' j (.handle i) =
          [.fire ((u.timers.queue.take i).count ⟨j, false⟩)] := if_pos hc
      have hinbox := inbox_timeout h.data
      rw [hsees, Machine.run_cons, Machine.run_nil]
      generalize (u.timers.queue.take i).count ⟨j, false⟩ = k at hplace
      have hfire : timed.next td (.fire k) =
          ({ td with queued := td.queued.eraseIdx k } : Timed F).deliver .orderCompleteTimeout :=
        if_pos hplace
      have hlength : (td.queued.eraseIdx k).length =
          (u.timers.queue.eraseIdx i).count ⟨j, false⟩ := by
        rw [if_pos rfl, ← h.queued] at hcount
        rw [List.length_eraseIdx_of_lt hplace]
        omega
      have hless : Mirrors s' j { u with timers := { u.timers with
          queue := u.timers.queue.eraseIdx i } } os { td with queued := td.queued.eraseIdx k } :=
        { h with
          wired := wired_queue h.wired _
          queued := hlength }
      have hadvances := advances_deliver { td with queued := td.queued.eraseIdx k }
        (h.named s' td.data h.data) .orderCompleteTimeout
      rw [hfire]
      refine hless.handle (m := .timeout s') ?_ ?_
      · rw [hinbox, Timed.deliver_data]
        rfl
      · rw [hinbox, Machine.emitted_cons, Machine.emitted_nil, List.append_nil]
        exact hadvances
    · have hj : j ≠ id := by
        rintro rfl
        obtain rfl := Option.some.inj (hx.symm.trans hy)
        exact hs (hfunc.symm.trans hf)
      have hqueue := h.queue (u.timers.queue.eraseIdx i) (by simpa [hj] using hcount)
      have hsees : u.sees s id (.handle i) = [] := if_neg (by simp [hc, hs])
      have hinbox : inbox u.script [.timeout s'] s = [] := inbox_timeout_of_ne hs
      rw [hsees]
      refine hqueue.handle (m := .timeout s') ?_ ?_
      · rw [hinbox]
        rfl
      · rw [hinbox]
        exact ⟨rfl, rfl, (List.append_nil _).symm⟩

/-! ### Runs -/

omit [Runtime F] in
theorem wired_emplace (hw : Wired t) (hn : t.names (timerName s) = none) :
    Wired (t.emplace (timerName s) s) := by
  refine ⟨TimerMap.wellFormed_emplace hw.wellFormed hn s, fun id x hx => ?_, fun id x hx => ?_⟩
  · by_cases hid : id = t.fresh
    · subst hid
      obtain rfl : { func := s } = x := by simpa using hx
      simp
    · have hown := hw.own id x (by simpa [Function.update_of_ne hid] using hx)
      have hne : timerName x.func ≠ timerName s := by
        intro he
        rw [he, hn] at hown
        cases hown
      simpa [Function.update_of_ne hne] using hown
  · by_cases hid : id = t.fresh
    · subst hid
      obtain rfl : { func := s } = x := by simpa using hx
      rfl
    · exact hw.once id x (by simpa [Function.update_of_ne hid] using hx)

/-- The timers before the first start. -/
structure Unused (t : TimerMap String) : Prop where
  wired : Wired t
  idle : ∀ id, t.armed id = false
  queue : t.queue = []

omit [Runtime F] in
theorem unused_adds (symbols : List String) (h : Unused t) :
    let t' := (t.performs (symbols.map fun s => .add (timerName s) s)).1
    Unused t' ∧ ∀ s, t.names (timerName s) ≠ none ∨ s ∈ symbols → t'.names (timerName s) ≠ none := by
  induction symbols generalizing t with
  | nil => exact ⟨h, fun s hs => hs.resolve_right (by simp)⟩
  | cons symbol symbols ih =>
    have hadd : Unused (t.perform (.add (timerName symbol) symbol)).1 ∧
        ∀ s, t.names (timerName s) ≠ none ∨ s = symbol →
          (t.perform (.add (timerName symbol) symbol)).1.names (timerName s) ≠ none := by
      simp only [TimerMap.perform]
      cases hn : t.names (timerName symbol) with
      | some id =>
        refine ⟨h, fun s hs => hs.elim (fun h => h) ?_⟩
        rintro rfl
        simp [hn]
      | none =>
        refine ⟨⟨wired_emplace h.wired hn, fun id => ?_, h.queue⟩, fun s hs => ?_⟩
        · by_cases hid : id = t.fresh
          · simp [TimerMap.armed, hid]
          · have hidle := h.idle id
            simpa [TimerMap.armed, Function.update_of_ne hid] using hidle
        · by_cases hname : timerName s = timerName symbol
          · simp [hname]
          · rw [TimerMap.emplace_names, Function.update_of_ne hname]
            exact hs.resolve_right fun he => hname (he ▸ rfl)
    obtain ⟨hunused, hnames⟩ := ih hadd.1
    refine ⟨hunused, fun s hs => hnames s ?_⟩
    rw [List.mem_cons, ← or_assoc] at hs
    exact hs.imp_left (hadd.2 s)

theorem mirrors_init {symbols : Symbols} (hs : s ∈ symbols.list) :
    ∃ id, Mirrors s id (Trading.init symbols : Trading F) [] (Timed.init s) := by
  have hempty : Unused {} := ⟨⟨TimerMap.wellFormed_empty, by simp, by simp⟩, fun _ => rfl, rfl⟩
  obtain ⟨hunused, hnames⟩ := unused_adds symbols.list hempty
  obtain ⟨id, hid⟩ := Option.ne_none_iff_exists'.mp (hnames s (.inr hs))
  exact ⟨id, {
    named := named_initScript symbols.list
    data := if_pos hs
    wired := hunused.wired
    name := hid
    pending := (hunused.idle id).symm
    queued := by
      have hqueue : (Trading.init symbols : Trading F).timers.queue = [] := hunused.queue
      rw [hqueue]
      rfl
    orders := rfl }⟩

theorem mirrors_step (h : Mirrors s id u os td) (e : Trading.Event F) :
    Mirrors s id (trading.next u e) (os ++ trading.emit u e) (timed.run td (u.sees s id e)) := by
  cases e with
  | message m =>
    cases m with
    | timeout s' => simpa [trading, Trading.next, Trading.emit, Trading.sees] using h
    | _ => exact mirrors_message h (by simp)
  | expire j => simpa [trading, Trading.emit] using mirrors_expire h j
  | handle i => exact mirrors_handle h i

theorem mirrors_run (h : Mirrors s id u os td) (es : List (Trading.Event F)) :
    Mirrors s id (trading.run u es) (os ++ trading.emitted u es)
      (timed.run td (trading.expanded (Trading.sees s id) u es)) :=
  Machine.run_expanded (M := trading) (N := timed) (R := Mirrors s id)
    (fun _ _ _ e h => mirrors_step h e) h es

/-- Under messages, deadlines and handlers in any order, each symbol of the script with its timer
in the map is where this symbol with one timer of its own is under its part of them, and has
placed the same orders. -/
theorem symbol_runs_with_timer {symbols : Symbols} (hs : s ∈ symbols.list) :
    ∃ id, (Trading.init symbols : Trading F).timers.names (timerName s) = some id ∧
      ∀ es : List (Trading.Event F),
        let t := trading.run (Trading.init symbols) es
        let td := timed.run (Timed.init s)
          (trading.expanded (Trading.sees s id) (Trading.init symbols) es)
        t.script.symbolData s = some td.data ∧ t.timers.armed id = td.pending.isSome ∧
          t.timers.queue.count ⟨id, false⟩ = td.queued.length ∧
          (issued ((trading.emitted (Trading.init symbols) es).filter
            (Call.inNameOf s))).map ticketOf = td.orders := by
  obtain ⟨id, h⟩ := mirrors_init (F := F) hs
  refine ⟨id, h.name, fun es => ?_⟩
  have hrun := mirrors_run h es
  rw [List.nil_append] at hrun
  exact ⟨hrun.data, hrun.pending.symm, hrun.queued.symm, hrun.orders.symm⟩

/-- The price of a symbol comes to the trigger of a purchase. -/
def purchase : List (Message ℚ) :=
  [.tradeData (some (.obj (("s", .str "BTC") :: setData "10" "10" "20" "20" "1"))),
    .tradeRun (some (.obj (("s", .str "BTC") :: command "start" "BUY"))),
    .price (some (.obj [("symbol", .str "BTCUSDT"), ("price", .str "9")])),
    .price (some (.obj [("symbol", .str "BTCUSDT"), ("price", .str "11")]))]

def ethAndBtc : Symbols := ⟨["ETH", "BTC"], by decide⟩

/-- The order of the purchase is not confirmed in time. -/
def unconfirmed : List (Trading.Event ℚ) := purchase.map .message ++ [.expire 1, .handle 0]

/-- The second of two symbols places an order, and its timer calls it. -/
theorem symbol_runs_with_timer_btc : "BTC" ∈ ethAndBtc.list ∧
    let t₀ : Trading ℚ := Trading.init ethAndBtc
    let td := timed.run (Timed.init "BTC")
      (trading.expanded (Trading.sees "BTC" 1) t₀ unconfirmed)
    (trading.run t₀ unconfirmed).script.symbolData "BTC" = some td.data ∧ td.data.fsm = .RESUME ∧
      (issued ((trading.emitted t₀ unconfirmed).filter (Call.inNameOf "BTC"))).map ticketOf =
        td.orders ∧ td.orders.map Ticket.id = ["order_USDT_to_BTC_0"] := by
  have hs : "BTC" ∈ ethAndBtc.list := by decide
  have hid : (Trading.init ethAndBtc : Trading ℚ).timers.names (timerName "BTC") = some 1 := by
    decide
  obtain ⟨id, hname, hrun⟩ := symbol_runs_with_timer (F := ℚ) hs
  obtain rfl : id = 1 := Option.some.inj (hname.symm.trans hid)
  obtain ⟨hdata, -, -, horders⟩ := hrun unconfirmed
  exact ⟨hs, hdata, by decide +kernel, horders, by decide +kernel⟩

end BotTrader.Application
