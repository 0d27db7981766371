import BotTrader.Application.Delivery
import BotTrader.Application.Trading
import BotTrader.Web.Sessions

/-! The whole of it: the web server, the event queue, and the script with its timers. What the
message of a session asks for is posted on the strand of the session; the dispatcher hands the
events to the script, and the exchange and the handlers post theirs in between. -/

namespace BotTrader.Application

open Automata Python Strategy Control Market Web

/-- Who posts: the strand of a session, the owner of the web server, or another thread. -/
inductive Source where
  | session (k : ℕ)
  | server
  | thread (i : ℕ)
  deriving DecidableEq

/-- `Events`; those that are nothing to the web server or the script are numbered. -/
inductive Kind where
  | bncPrice | bncOrderReport | bncExchangeInfo
  | tlgGetAccount | ordDelete | ordReqList | scrGetPrice
  | webReqTradeState | webSetTradeData | webReqTradePos | webTradeRun | webGetFilters
  | other (n : ℕ)
  deriving DecidableEq

/-- What is not posted by the web server. -/
inductive Foreign (F : Type) where
  | price (data : Option (Json F))
  | orderReport (data : Option (Json F))
  | exchangeInfo (data : Option (Json F))
  | other (n : ℕ)

/-- The data of an event, and who posted it; a handler of another event is no source. -/
structure Posted (F : Type) where
  source : Option Source
  data : WebEvent ⊕ Foreign F

variable {F : Type}

def kindOf : WebEvent ⊕ Foreign F → Kind
  | .inl (.tradeRun _) => .webTradeRun
  | .inl (.ordReqList _) => .ordReqList
  | .inl .tlgGetAccount => .tlgGetAccount
  | .inl (.ordDelete _ _) => .ordDelete
  | .inl (.setTradeData _) => .webSetTradeData
  | .inl (.reqTradeState _) => .webReqTradeState
  | .inl (.scrGetPrice _) => .scrGetPrice
  | .inl (.reqTradePos _) => .webReqTradePos
  | .inl .getFilters => .webGetFilters
  | .inr (.price _) => .bncPrice
  | .inr (.orderReport _) => .bncOrderReport
  | .inr (.exchangeInfo _) => .bncExchangeInfo
  | .inr (.other n) => .other n

/-- `event_handlers_map`, in which some of the other kinds may have no handler. -/
def handlersMap (others : ℕ → Bool) : Kind → Option Kind
  | .other n => if others n then some (.other n) else none
  | kind => some kind

/-- A report with an error code but without `msg`, which `on_event_order_report` reads. -/
def unexplained : Json F → Bool
  | .obj items => (items.lookup "code").isSome && (items.lookup "msg").isNone
  | _ => false

/-- The handler ends by an exception that nothing catches. -/
def throws : WebEvent ⊕ Foreign F → Bool
  | .inr (.orderReport (some report)) => unexplained report
  | _ => false

/-- What a handler passes to the script. A report that is not JSON is dropped before, and so is one
that is unexplained. -/
def message? : WebEvent ⊕ Foreign F → Option (Message F)
  | .inl (.tradeRun data) => some (.tradeRun (some data.writeJson))
  | .inl (.setTradeData data) => some (.tradeData (some data.writeJson))
  | .inl (.reqTradeState symbol) => some (.getTradeState symbol)
  | .inr (.price data) => some (.price data)
  | .inr (.orderReport data) =>
    data.bind fun report => if unexplained report then none else some (.orderReport (some report))
  | .inr (.exchangeInfo data) => some (.exchangeInfo data)
  | _ => none

/-- What is seen of the queue, and asked of it. -/
abbrev QueueOut (F : Type) := Output Kind (Posted F) Kind

abbrev QueueAction (F : Type) := Action Source Kind (Posted F)

/-- The application; `outbox` has what a handler of the web server has yet to post. -/
structure System (F : Type) where
  web : World
  outbox : Source → List WebEvent := fun _ => []
  queue : Queue Source Kind (Posted F) Kind := {}
  trading : Trading F

namespace System

/-- What happens next: something at the web server; a call of `add_event` for what a source has
to post, by another thread, or by the handler that is running; a step of the queue; or one of
the timers. -/
inductive Event (F : Type) where
  | web (e : Web.Event)
  | add (s : Source)
  | post (i : ℕ) (data : Foreign F)
  | handlerPost (data : Foreign F)
  | goOn (caller : Option Source)
  | strand
  | dispatcher
  | expire (id : ℕ)
  | handle (i : ℕ)

/-- What is seen: of the web server, of the queue, what the script is told and in whose event, and
what it calls. -/
inductive Out (F : Type) where
  | web (s : Source) (o : Web.Out)
  | queue (o : QueueOut F)
  | told (source : Option Source) (m : Message F)
  | script (c : Call F)

/-- On whose strand it happens. -/
def sender : Web.Event → Source
  | .receive k _ => .session k
  | _ => .server

def posted? : Web.Out → Option WebEvent
  | .event e => some e
  | .send _ _ => none

/-- An event as it is posted. -/
def event (source : Option Source) (data : WebEvent ⊕ Foreign F) : Kind × Posted F :=
  (kindOf data, ⟨source, data⟩)

def onQueue (sys : System F) (r : Queue Source Kind (Posted F) Kind × List (QueueOut F)) :
    System F × List (Out F) := ({ sys with queue := r.1 }, r.2.map .queue)

variable [Runtime F] (lib : Library) (others : ℕ → Bool)

/-- What the script is told when a handler is called, and who posted the event. -/
def told? : QueueOut F → Option (Option Source × Message F)
  | .handled _ p => (message? p.data).map fun m => (p.source, m)
  | _ => none

/-- The handler that is called ends the process. -/
def fatal : QueueOut F → Bool
  | .handled _ p => throws p.data
  | _ => false

def onTrading (sys : System F) (es : List (Trading.Event F)) : System F × List (Out F) :=
  ({ sys with trading := Application.trading.run sys.trading es },
    (Application.trading.emitted sys.trading es).map .script)

def handle (sys : System F) : Event F → System F × List (Out F)
  | .web e =>
    let r := sys.web.step lib e
    let s := sender e
    ({ sys with
      web := r.1
      outbox := Function.update sys.outbox s (sys.outbox s ++ r.2.filterMap posted?) },
      r.2.map (.web s))
  | .add s => match sys.outbox s with
    | [] => (sys, [])
    | e :: es => match sys.queue.addEvent (some s) (event (some s) (.inl e)) with
      | (_, []) => (sys, [])
      | r => { sys with outbox := Function.update sys.outbox s es }.onQueue r
  | .post i data =>
    sys.onQueue (sys.queue.addEvent (some (.thread i)) (event (some (.thread i)) (.inr data)))
  | .handlerPost data => sys.onQueue (sys.queue.addEvent none (event none (.inr data)))
  | .goOn caller => sys.onQueue (sys.queue.goOn caller, [])
  | .strand => sys.onQueue (sys.queue.strand, [])
  | .dispatcher =>
    let r := sys.queue.dispatcher (handlersMap others)
    let told := r.2.filterMap told?
    let (sys, os) := sys.onQueue r
    let (sys, os') := sys.onTrading (told.map fun x => .message x.2)
    ({ sys with web := { sys.web with alive := !r.2.any fatal } },
      os ++ told.map (fun x => .told x.1 x.2) ++ os')
  | .expire id => sys.onTrading [.expire id]
  | .handle i => sys.onTrading [.handle i]

/-- An exception that escapes from the web server or from a handler ends the process. -/
def step (sys : System F) (e : Event F) : System F × List (Out F) :=
  if sys.web.alive then sys.handle lib others e else (sys, [])

/-- The start: the symbols have been passed to the script. -/
def init (adminPassword userPassword : String) (interface : Interface)
    (symbols : Symbols) : System F where
  web := World.init adminPassword userPassword interface symbols.list
  trading := Trading.init symbols

end System

/-- The application under everything that can happen, in any order. -/
def system [Runtime F] (lib : Library) (others : ℕ → Bool) :
    Machine (System F) (System.Event F) (System.Out F) where
  next sys e := (sys.step lib others e).1
  emit sys e := (sys.step lib others e).2

namespace System

/-! ### The parts of a run -/

def Event.web? : Event F → Option Web.Event
  | .web e => some e
  | _ => none

def Out.queue? : Out F → Option (QueueOut F)
  | .queue o => some o
  | _ => none

def Out.told? : Out F → Option (Option Source × Message F)
  | .told source m => some (source, m)
  | _ => none

def Out.script? : Out F → Option (Call F)
  | .script c => some c
  | _ => none

variable [Runtime F] {lib : Library} {others : ℕ → Bool} {sys : System F}

/-- What a step is for the queue. -/
def queueActions (sys : System F) (e : Event F) : List (QueueAction F) :=
  if sys.web.alive then
    match e with
    | .web _ | .expire _ | .handle _ => []
    | .add s => match sys.outbox s with
      | [] => []
      | e :: _ => [.addEvent (some s) (event (some s) (.inl e))]
    | .post i data => [.addEvent (some (.thread i)) (event (some (.thread i)) (.inr data))]
    | .handlerPost data => [.addEvent none (event none (.inr data))]
    | .goOn caller => [.goOn caller]
    | .strand => [.strand]
    | .dispatcher => [.dispatcher]
  else []

/-- What it is for the script and its timers. -/
def tradingEvents (others : ℕ → Bool) (sys : System F) (e : Event F) : List (Trading.Event F) :=
  if sys.web.alive then
    match e with
    | .dispatcher => ((sys.queue.dispatcher (handlersMap others)).2.filterMap told?).map
        fun x => .message x.2
    | .expire id => [.expire id]
    | .handle i => [.handle i]
    | _ => []
  else []

section Outputs

variable (s : Source) (o : Web.Out) (q : QueueOut F) (source : Option Source) (m : Message F)
  (c : Call F)

omit [Runtime F]

@[simp] theorem queue?_queue : (Out.queue q).queue? = some q := rfl

@[simp] theorem queue?_web : (Out.web s o : Out F).queue? = none := rfl

@[simp] theorem queue?_told : (Out.told source m).queue? = none := rfl

@[simp] theorem queue?_script : (Out.script c).queue? = none := rfl

@[simp] theorem told?_queue : (Out.queue q).told? = none := rfl

@[simp] theorem told?_web : (Out.web s o : Out F).told? = none := rfl

@[simp] theorem told?_told : (Out.told source m).told? = some (source, m) := rfl

@[simp] theorem told?_script : (Out.script c).told? = none := rfl

@[simp] theorem script?_queue : (Out.queue q).script? = none := rfl

@[simp] theorem script?_web : (Out.web s o : Out F).script? = none := rfl

@[simp] theorem script?_told : (Out.told source m).script? = none := rfl

@[simp] theorem script?_script : (Out.script c).script? = some c := rfl

end Outputs

omit [Runtime F] in
/-- A call of `add_event` that does not get the lock changes nothing. -/
theorem addEvent_of_nil {caller : Option Source} {e : Kind × Posted F}
    (h : (sys.queue.addEvent caller e).2 = []) : sys.queue.addEvent caller e = (sys.queue, []) := by
  have hmoves : Moves (handlersMap fun _ => true) sys.queue (.addEvent caller e)
      (sys.queue.addEvent caller e).1 (sys.queue.addEvent caller e).2 ∨
        sys.queue.addEvent caller e = (sys.queue, []) := moves_addEvent sys.queue caller e
  generalize sys.queue.addEvent caller e = r at h hmoves
  obtain ⟨q, os⟩ := r
  obtain rfl : os = [] := h
  rcases hmoves with hm | he
  · cases hm
  · exact he

omit [Runtime F] in
theorem addEvent_outputs (caller : Option Source) (e : Kind × Posted F)
    (q : Queue Source Kind (Posted F) Kind) :
    (q.addEvent caller e).2 = [] ∨ (q.addEvent caller e).2 = [.added e] := by
  have hmoves : Moves (handlersMap fun _ => true) q (.addEvent caller e)
      (q.addEvent caller e).1 (q.addEvent caller e).2 ∨ q.addEvent caller e = (q, []) :=
    moves_addEvent q caller e
  rcases hmoves with hm | he
  · generalize (q.addEvent caller e).2 = os at hm ⊢
    generalize (q.addEvent caller e).1 = q' at hm
    cases hm
    exact .inr rfl
  · exact .inl (by rw [he])

/-- The queue and what is seen of it, from the queue's own step. -/
theorem queue_step (e : Event F) :
    (sys.step lib others e).1.queue =
        (eventQueue (handlersMap others)).run sys.queue (queueActions sys e) ∧
      (sys.step lib others e).2.filterMap Out.queue? =
        (eventQueue (handlersMap others)).emitted sys.queue (queueActions sys e) := by
  unfold step queueActions
  split
  · cases e with
    | web e => simp [handle]
    | add s =>
      simp only [handle]
      cases sys.outbox s with
      | nil => simp
      | cons e es =>
        have hnil : (sys.queue.addEvent (some s) (event (some s) (.inl e))).2 = [] → _ =
            (sys.queue, []) := addEvent_of_nil
        simp only
        split
        · next q h =>
          rw [h] at hnil
          simp [eventQueue, h, (Prod.mk.inj (hnil rfl)).1]
        · simp [onQueue, eventQueue, Function.comp_def]
    | post i data => simp [handle, onQueue, eventQueue, Function.comp_def]
    | handlerPost data => simp [handle, onQueue, eventQueue, Function.comp_def]
    | goOn caller => simp [handle, onQueue, eventQueue]
    | strand => simp [handle, onQueue, eventQueue]
    | dispatcher => simp [handle, onQueue, onTrading, eventQueue, Function.comp_def]
    | expire id => simp [handle, onTrading]
    | handle i => simp [handle, onTrading]
  · exact ⟨rfl, rfl⟩

/-- The script is told what the handlers that are called pass to it. -/
theorem told_step (e : Event F) : (sys.step lib others e).2.filterMap Out.told? =
    ((sys.step lib others e).2.filterMap Out.queue?).filterMap told? := by
  have addEvent (caller : Option Source) (x : Kind × Posted F) :
      (sys.queue.addEvent caller x).2.filterMap told? = [] := by
    rcases addEvent_outputs caller x sys.queue with h | h <;> rw [h] <;> rfl
  unfold step
  split
  · cases e with
    | web e => simp [handle, Function.comp_def]
    | add s =>
      simp only [handle]
      cases sys.outbox s with
      | nil => rfl
      | cons e es =>
        simp only
        split
        · rfl
        · simp [onQueue, Function.comp_def, addEvent]
    | post i data => simp [handle, onQueue, Function.comp_def, addEvent]
    | handlerPost data => simp [handle, onQueue, Function.comp_def, addEvent]
    | goOn caller => simp [handle, onQueue]
    | strand => simp [handle, onQueue]
    | dispatcher => simp [handle, onQueue, onTrading, Function.comp_def]
    | expire id => simp [handle, onTrading, Function.comp_def]
    | handle i => simp [handle, onTrading, Function.comp_def]
  · rfl

/-- What the script is told are the messages of its part of a step. -/
theorem messages_step (e : Event F) :
    (tradingEvents others sys e).filterMap Trading.Event.message? =
      ((sys.step lib others e).2.filterMap Out.told?).map Prod.snd := by
  unfold step tradingEvents
  split
  · cases e with
    | web e => simp [handle, Function.comp_def]
    | add s =>
      simp only [handle]
      cases sys.outbox s with
      | nil => rfl
      | cons e es =>
        simp only
        split
        · rfl
        · simp [onQueue, Function.comp_def]
    | post | handlerPost => simp [handle, onQueue, Function.comp_def]
    | goOn | strand => simp [handle, onQueue]
    | dispatcher =>
      simp [handle, onQueue, onTrading, Function.comp_def, Trading.Event.message?]
    | expire | handle => simp [handle, onTrading, Function.comp_def, Trading.Event.message?]
  · rfl

/-- The script and its timers, from their own steps. -/
theorem trading_step (e : Event F) :
    (sys.step lib others e).1.trading =
        Application.trading.run sys.trading (tradingEvents others sys e) ∧
      (sys.step lib others e).2.filterMap Out.script? =
        Application.trading.emitted sys.trading (tradingEvents others sys e) := by
  unfold step tradingEvents
  split
  · cases e with
    | web e => simp [handle, Function.comp_def]
    | add s =>
      simp only [handle]
      cases sys.outbox s with
      | nil => simp
      | cons e es =>
        simp only
        split
        · exact ⟨rfl, rfl⟩
        · simp [onQueue, Function.comp_def]
    | post i data => simp [handle, onQueue, Function.comp_def]
    | handlerPost data => simp [handle, onQueue, Function.comp_def]
    | goOn caller => simp [handle, onQueue]
    | strand => simp [handle, onQueue]
    | dispatcher => simp [handle, onQueue, onTrading, Function.comp_def]
    | expire id => simp [handle, onTrading, Function.comp_def]
    | handle i => simp [handle, onTrading, Function.comp_def]
  · exact ⟨rfl, rfl⟩

/-! ### What a source posts -/

/-- What a source has posted, of its events in the queue, and of those handled. -/
def fromSource (s : Source) (p : Posted F) : Option WebEvent :=
  match p.data with
  | .inl e => if p.source = some s then some e else none
  | .inr _ => none

def Out.posted (s : Source) : Out F → List WebEvent
  | .web s' o => if s' = s then (posted? o).toList else []
  | _ => []

def Out.added (s : Source) : Out F → List WebEvent
  | .queue (.added e) => (fromSource s e.2).toList
  | _ => []

def Out.handled (s : Source) : Out F → List WebEvent
  | .queue (.handled _ p) => (fromSource s p).toList
  | _ => []

section Sources

variable (s s' : Source) (os : List Web.Out) (cs : List (Call F))

omit [Runtime F]

theorem posted_web : (os.map (.web s') : List (Out F)).flatMap (Out.posted s) =
    if s' = s then os.filterMap posted? else [] := by
  rw [List.flatMap_map]
  split
  · next h => simp [Out.posted, h, List.filterMap_eq_flatMap_toList]
  · next h => simp [Out.posted, h]

@[simp] theorem added_web : (os.map (.web s') : List (Out F)).flatMap (Out.added s) = [] := by
  simp [Out.added]

@[simp] theorem posted_queue (qs : List (QueueOut F)) :
    (qs.map .queue : List (Out F)).flatMap (Out.posted s) = [] := by
  simp [Out.posted]

@[simp] theorem posted_told (xs : List (Option Source × Message F)) :
    (xs.map fun x => Out.told x.1 x.2).flatMap (Out.posted s) = [] := by
  rw [List.flatMap_map]
  exact List.flatMap_eq_nil_iff.mpr fun _ _ => rfl

@[simp] theorem added_told (xs : List (Option Source × Message F)) :
    (xs.map fun x => Out.told x.1 x.2).flatMap (Out.added s) = [] := by
  rw [List.flatMap_map]
  exact List.flatMap_eq_nil_iff.mpr fun _ _ => rfl

@[simp] theorem posted_script : (cs.map .script : List (Out F)).flatMap (Out.posted s) = [] := by
  simp [Out.posted]

@[simp] theorem added_script : (cs.map .script : List (Out F)).flatMap (Out.added s) = [] := by
  simp [Out.added]

/-- Only the calls of `add_event` put events into the queue. -/
theorem added_notMem_dispatcher (others : ℕ → Bool) (q : Queue Source Kind (Posted F) Kind)
    (x : Kind × Posted F) : .added x ∉ (q.dispatcher (handlersMap others)).2 := by
  unfold Queue.dispatcher
  repeat' split
  all_goals simp

theorem added_dispatcher (others : ℕ → Bool) (q : Queue Source Kind (Posted F) Kind) :
    ((q.dispatcher (handlersMap others)).2.map .queue : List (Out F)).flatMap (Out.added s) = [] := by
  rw [List.flatMap_map, List.flatMap_eq_nil_iff]
  intro o ho
  cases o with
  | added x => exact absurd ho (added_notMem_dispatcher others q x)
  | _ => rfl

theorem added_foreign (source : Option Source) (data : Foreign F)
    (q : Queue Source Kind (Posted F) Kind) :
    ((q.addEvent source (event source (.inr data))).2.map .queue : List (Out F)).flatMap
      (Out.added s) = [] := by
  rcases addEvent_outputs source (event source (.inr data)) q with h | h <;> rw [h]
  · rfl
  · simp [Out.added, event, fromSource]

end Sources

/-- What a source has posted is in the queue, in its order, or yet to be added. -/
theorem posted_step (s : Source) (e : Event F) :
    sys.outbox s ++ (sys.step lib others e).2.flatMap (Out.posted s) =
      (sys.step lib others e).2.flatMap (Out.added s) ++ (sys.step lib others e).1.outbox s := by
  unfold step
  split
  · cases e with
    | web e =>
      simp only [handle, posted_web, added_web, List.nil_append]
      by_cases hs : sender e = s
      · simp [hs]
      · simp [hs, Function.update_of_ne (Ne.symm hs)]
    | add s' =>
      simp only [handle]
      cases hout : sys.outbox s' with
      | nil => simp
      | cons e es =>
        simp only
        split
        · simp
        · next hne =>
          rcases addEvent_outputs (some s') (event (some s') (.inl e)) sys.queue with h | h
          · exact (hne _ (Prod.ext rfl h)).elim
          · simp only [onQueue, h, List.map_cons, List.map_nil]
            by_cases hs : s' = s
            · subst hs
              simp [hout, Out.posted, Out.added, event, fromSource]
            · simp [Function.update_of_ne (Ne.symm hs), Out.posted, Out.added, event, fromSource, hs]
    | post i data => simp [handle, onQueue, added_foreign]
    | handlerPost data => simp [handle, onQueue, added_foreign]
    | goOn | strand => simp [handle, onQueue]
    | dispatcher => simp [handle, onQueue, onTrading, added_dispatcher]
    | expire | handle => simp [handle, onTrading]
  · simp

/-! ### A symbol in the whole -/

/-- Whatever happens in the whole, the script with its timers goes through the messages,
deadlines and handlers that this comes to, and calls what it calls in them. -/
theorem trading_run (lib : Library) (others : ℕ → Bool) (sys₀ : System F) (es : List (Event F)) :
    let ts := (system lib others).expanded (tradingEvents others) sys₀ es
    ((system lib others).run sys₀ es).trading = Application.trading.run sys₀.trading ts ∧
      ((system lib others).emitted sys₀ es).filterMap Out.script? =
        Application.trading.emitted sys₀.trading ts := by
  have hnext (sys : System F) (t : Trading F) (e : Event F) (h : sys.trading = t) :
      ((system lib others).next sys e).trading =
        Application.trading.run t (tradingEvents others sys e) := by
    rw [← h]
    exact (trading_step e).1
  have hemit (sys : System F) (t : Trading F) (e : Event F) (h : sys.trading = t) :
      ((system lib others).emit sys e).filterMap Out.script? =
        Application.trading.emitted t (tradingEvents others sys e) := by
    rw [← h]
    exact (trading_step e).2
  exact ⟨Machine.state_expanded hnext rfl es, Machine.emitted_expanded hnext hemit rfl es⟩

/-- A symbol with a timer models an abstract symbol in every run. -/
theorem models_timed (s : String) (es : List (TimerEvent F)) :
    ∃ c, Models s (timed.run (Timed.init s) es).data c := by
  have hdeliver (td : Timed F) (e : Strategy.Event F) (h : ∃ c, Models s td.data c) :
      ∃ c, Models s (td.deliver e).data c := by
    obtain ⟨c, hc⟩ := h
    rw [Timed.deliver_data]
    exact ⟨_, (bot_simulates s).next hc e⟩
  have hnext (td : Timed F) (e : TimerEvent F) (h : ∃ c, Models s td.data c) :
      ∃ c, Models s (timed.next td e).data c := by
    cases e with
    | message e =>
      cases e with
      | orderCompleteTimeout => exact h
      | _ => exact hdeliver td _ h
    | expire =>
      simp only [timed, Timed.next]
      split <;> exact h
    | fire i =>
      simp only [timed, Timed.next]
      split
      · exact hdeliver _ _ h
      · exact h
  exact Machine.run_invariant _ (fun td e h _ => hnext td e h) ⟨_, models_init s⟩
    (Machine.along_of_forall _ (P := fun _ _ => True) (fun _ _ => trivial) _ es)

/-- In every run of the whole, whatever the sessions, the exchange and the clock do, a symbol and
its timer are where this symbol alone with one timer is under its own part of the run, and the
orders placed in its name are those that it places there. -/
theorem symbol_in_system (lib : Library) (others : ℕ → Bool) (adminPassword userPassword : String)
    (interface : Interface) {symbols : Symbols} {s : String} (hs : s ∈ symbols.list) :
    ∃ id, ∀ es : List (Event F),
      let sys₀ : System F := init adminPassword userPassword interface symbols
      let sys := (system lib others).run sys₀ es
      let calls := ((system lib others).emitted sys₀ es).filterMap Out.script?
      let td := timed.run (Timed.init s) (Application.trading.expanded (Trading.sees s id)
        sys₀.trading ((system lib others).expanded (tradingEvents others) sys₀ es))
      sys.trading.script.symbolData s = some td.data ∧ FlagsConsistent td.data ∧
        sys.trading.timers.armed id = td.pending.isSome ∧
        sys.trading.timers.queue.count ⟨id, false⟩ = td.queued.length ∧
        (issued (calls.filter (Call.inNameOf s))).map ticketOf = td.orders := by
  obtain ⟨id, h⟩ := mirrors_init (F := F) hs
  refine ⟨id, fun es => ?_⟩
  intro sys₀ sys calls td
  obtain ⟨hstate, hcalls⟩ := trading_run lib others sys₀ es
  have hrun := mirrors_run h ((system lib others).expanded (tradingEvents others) sys₀ es)
  rw [List.nil_append] at hrun
  have htrading : sys.trading = Application.trading.run (Trading.init symbols) _ := hstate
  have hplaced : calls = Application.trading.emitted (Trading.init symbols) _ := hcalls
  obtain ⟨c, hc⟩ := models_timed s
    (Application.trading.expanded (Trading.sees s id) sys₀.trading
      ((system lib others).expanded (tradingEvents others) sys₀ es))
  rw [htrading, hplaced]
  exact ⟨hrun.data, flagsConsistent_of_models hc, hrun.pending.symm, hrun.queued.symm,
    hrun.orders.symm⟩

/-- A parser that knows the messages of a purchase: the log-in, the data, and the start. -/
def traderLibrary : Library where
  readJson text :=
    if text = ascii "\x7b\"c\":\"authUser\",\"p\":\"123\"\x7d" then
      some (.node [("c", .leaf "authUser"), ("p", .leaf "123")])
    else if text = ascii ("\x7b\"c\":\"tradeData\",\"s\":\"BTC\",\"a\":\"set\"," ++
        "\"B\":\x7b\"t\":\"10\",\"p\":\"10\"\x7d," ++
        "\"S\":\x7b\"t\":\"20\",\"p\":\"20\"\x7d,\"q\":\"1\"\x7d") then
      some (.node [("c", .leaf "tradeData"), ("s", .leaf "BTC"), ("a", .leaf "set"),
        ("B", .node [("t", .leaf "10"), ("p", .leaf "10")]),
        ("S", .node [("t", .leaf "20"), ("p", .leaf "20")]), ("q", .leaf "1")])
    else if text = ascii "\x7b\"c\":\"runTrade\",\"s\":\"BTC\",\"a\":\"start\",\"p\":\"BUY\"\x7d" then
      some (.node [("c", .leaf "runTrade"), ("s", .leaf "BTC"), ("a", .leaf "start"),
        ("p", .leaf "BUY")])
    else none
  double _ := none

def setTrade : Bytes :=
  ascii ("eyJjIjoidHJhZGVEYXRhIiwicyI6IkJUQyIsImEiOiJzZXQiLCJCIjp7InQiOiIxMCIsInAi" ++
    "OiIxMCJ9LCJTIjp7InQiOiIyMCIsInAiOiIyMCJ9LCJxIjoiMSJ9")

def startTrade : Bytes := ascii "eyJjIjoicnVuVHJhZGUiLCJzIjoiQlRDIiwiYSI6InN0YXJ0IiwicCI6IkJVWSJ9"

/-- An event is posted, and the queue is worked off. -/
def workOff (source : Source) (e : Event ℚ) : List (Event ℚ) :=
  [e, .goOn (some source), .goOn (some source), .goOn (some source), .strand] ++
    List.replicate 8 .dispatcher

/-- The next price of the exchange. -/
def tick (price : String) : List (Event ℚ) :=
  workOff (.thread 0)
    (.post 0 (.price (some (.obj [("symbol", .str "BTCUSDT"), ("price", .str price)]))))

/-- The administrator logs in, enters the data of a trade and starts it; then the price comes to
the trigger. -/
def traded : List (Event ℚ) :=
  ((connect 0).map .web ++ [.web (.receive 0 setTrade), .web (.receive 0 startTrade)]) ++
    workOff (.session 0) (.add (.session 0)) ++ workOff (.session 0) (.add (.session 0)) ++
    tick "9" ++ tick "11"

abbrev traderSystem : System ℚ := init "123" "456" .IntfWeb ethAndBtc

/-- What the script has called in it. -/
def tradedCalls : List (Call ℚ) :=
  ((system traderLibrary fun _ => true).emitted traderSystem traded).filterMap Out.script?

/-- The purchase is made in the name of the second of two symbols. -/
theorem symbol_in_system_btc : "BTC" ∈ ethAndBtc.list ∧ ∃ td : Timed ℚ,
    ((system traderLibrary fun _ => true).run traderSystem traded).trading.script.symbolData "BTC" =
        some td.data ∧
      FlagsConsistent td.data ∧
      (issued (tradedCalls.filter (Call.inNameOf "BTC"))).map ticketOf = td.orders ∧
      td.orders.map Ticket.id = ["order_USDT_to_BTC_0"] := by
  have hs : "BTC" ∈ ethAndBtc.list := by decide
  have hplaced : ((issued (tradedCalls.filter (Call.inNameOf "BTC"))).map ticketOf).map Ticket.id =
      ["order_USDT_to_BTC_0"] := by decide +kernel
  obtain ⟨id, hid⟩ := symbol_in_system (F := ℚ) traderLibrary (fun _ => true) "123" "456" .IntfWeb hs
  obtain ⟨hdata, hflags, -, -, horders⟩ := hid traded
  generalize (timed (F := ℚ)).run (Timed.init "BTC") _ = td at hdata hflags horders
  have hone : (issued (tradedCalls.filter (Call.inNameOf "BTC"))).map ticketOf = td.orders := horders
  refine ⟨hs, td, ?_, hflags, hone, hone ▸ hplaced⟩
  with_reducible exact hdata

end System

end BotTrader.Application
