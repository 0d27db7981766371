import BotTrader.Automata.Fairness
import Mathlib.Logic.Function.Basic
import Mathlib.Tactic.Simps.Basic

/-! The event queue of the application. `add_event` appends to the list under the lock and then
posts a run of `dispatcher`; a run passes the front of the list to its handler outside the lock
and takes it off under the lock, as long as there is one. Any thread may be in a call of
`add_event`, and so may the handler that is running. The strand begins a run only when the one
before it has ended. -/

namespace BotTrader.Application

open Automata

variable {T K D H : Type}

/-- What a call of `add_event` has left to do. -/
inductive AddEvent (K D : Type) where
  | pushBack (event : K × D)
  | unlock
  | post
  deriving DecidableEq

/-- Where a run of `dispatcher` is. The handler of the front is running in `handler`. -/
inductive Dispatcher (H : Type) where
  | size
  | find
  | call (handler : H)
  | handler
  | lock
  | popFront
  | unlock
  deriving DecidableEq

/-- Who has locked `m_ev_mtx`: a call of `add_event` or the run of `dispatcher`. -/
inductive Owner (T : Type) where
  | addEvent (caller : Option T)
  | dispatcher
  deriving DecidableEq

/-- The queue. A caller of `add_event` is a thread, or `none` for the handler that is running. -/
structure Queue (T K D H : Type) where
  eventList : List (K × D) := []
  evMtx : Option (Owner T) := none
  calls : Option T → Option (AddEvent K D) := fun _ => none
  posted : ℕ := 0
  run : Option (Dispatcher H) := none

/-- The interleaving: a call takes the lock, a call goes on, the strand begins a posted run, or
the run of `dispatcher` goes on. -/
inductive Action (T K D : Type) where
  | addEvent (caller : Option T) (event : K × D)
  | goOn (caller : Option T)
  | strand
  | dispatcher

/-- What is seen of the queue: an event whose call has taken the lock, one that is passed to
its handler, and one that is taken off the list. -/
inductive Output (K D H : Type) where
  | added (event : K × D)
  | handled (handler : H) (data : D)
  | popped (event : K × D)
  deriving DecidableEq

variable [DecidableEq T]

namespace Queue

/-- The call of `caller` has this left to do. -/
@[simps]
def goto (caller : Option T) (call : Option (AddEvent K D)) (q : Queue T K D H) :
    Queue T K D H :=
  { q with calls := Function.update q.calls caller call }

/-- `add_event`, which gets the lock if it is free. A handler calls it while it is running. -/
def addEvent (caller : Option T) (event : K × D) (q : Queue T K D H) :
    Queue T K D H × List (Output K D H) :=
  match q.evMtx, q.calls caller, caller, q.run with
  | none, none, some _, _ | none, none, none, some .handler =>
    (({ q with evMtx := some (.addEvent caller) }).goto caller (some (.pushBack event)),
      [.added event])
  | _, _, _, _ => (q, [])

/-- The rest of `add_event`. -/
def goOn (caller : Option T) (q : Queue T K D H) : Queue T K D H :=
  match q.calls caller with
  | some (.pushBack event) =>
    ({ q with eventList := q.eventList ++ [event] }).goto caller (some .unlock)
  | some .unlock => ({ q with evMtx := none }).goto caller (some .post)
  | some .post => ({ q with posted := q.posted + 1 }).goto caller none
  | none => q

/-- `m_strand` -/
def strand (q : Queue T K D H) : Queue T K D H :=
  match q.run, q.posted with
  | none, n + 1 => { q with posted := n, run := some .size }
  | _, _ => q

variable (eventHandlersMap : K → Option H)

/-- `dispatcher`. While a run looks at the front there is one. -/
def dispatcher (q : Queue T K D H) : Queue T K D H × List (Output K D H) :=
  match q.run, q.eventList with
  | some .size, [] => ({ q with run := none }, [])
  | some .size, _ :: _ => ({ q with run := some .find }, [])
  | some .find, event :: _ =>
    match eventHandlersMap event.1 with
    | some handler => ({ q with run := some (.call handler) }, [])
    | none => ({ q with run := some .lock }, [])
  | some (.call handler), event :: _ =>
    ({ q with run := some .handler }, [.handled handler event.2])
  | some .handler, _ =>
    match q.calls none with
    | none => ({ q with run := some .lock }, [])
    | some _ => (q, [])
  | some .lock, _ =>
    match q.evMtx with
    | none => ({ q with evMtx := some .dispatcher, run := some .popFront }, [])
    | some _ => (q, [])
  | some .popFront, event :: events =>
    ({ q with eventList := events, run := some .unlock }, [.popped event])
  | some .unlock, _ => ({ q with evMtx := none, run := some .size }, [])
  | _, _ => (q, [])

end Queue

/-- The queue under any interleaving. -/
def eventQueue (eventHandlersMap : K → Option H) :
    Machine (Queue T K D H) (Action T K D) (Output K D H) where
  next q
    | .addEvent caller event => (q.addEvent caller event).1
    | .goOn caller => q.goOn caller
    | .strand => q.strand
    | .dispatcher => (q.dispatcher eventHandlersMap).1
  emit q
    | .addEvent caller event => (q.addEvent caller event).2
    | .dispatcher => (q.dispatcher eventHandlersMap).2
    | _ => []

/-! ### What one step does -/

variable {eventHandlersMap : K → Option H} {q q' : Queue T K D H} {a : Action T K D}
  {os os' : List (Output K D H)}

/-- The steps that change the queue. -/
inductive Moves (eventHandlersMap : K → Option H) (q : Queue T K D H) :
    Action T K D → Queue T K D H → List (Output K D H) → Prop
  | addEvent {caller event} (hm : q.evMtx = none) (hc : q.calls caller = none)
      (hh : caller = none → q.run = some .handler) :
      Moves eventHandlersMap q (.addEvent caller event)
        (({ q with evMtx := some (.addEvent caller) }).goto caller (some (.pushBack event)))
        [.added event]
  | pushBack {caller event} (hc : q.calls caller = some (.pushBack event)) :
      Moves eventHandlersMap q (.goOn caller)
        (({ q with eventList := q.eventList ++ [event] }).goto caller (some .unlock)) []
  | unlock {caller} (hc : q.calls caller = some .unlock) :
      Moves eventHandlersMap q (.goOn caller)
        (({ q with evMtx := none }).goto caller (some .post)) []
  | post {caller} (hc : q.calls caller = some .post) :
      Moves eventHandlersMap q (.goOn caller)
        (({ q with posted := q.posted + 1 }).goto caller none) []
  | strand {n} (hr : q.run = none) (hp : q.posted = n + 1) :
      Moves eventHandlersMap q .strand { q with posted := n, run := some .size } []
  | size {event events} (hr : q.run = some .size) (hl : q.eventList = event :: events) :
      Moves eventHandlersMap q .dispatcher { q with run := some .find } []
  | sizeZero (hr : q.run = some .size) (hl : q.eventList = []) :
      Moves eventHandlersMap q .dispatcher { q with run := none } []
  | find {event events handler} (hr : q.run = some .find) (hl : q.eventList = event :: events)
      (he : eventHandlersMap event.1 = some handler) :
      Moves eventHandlersMap q .dispatcher { q with run := some (.call handler) } []
  | findEnd {event events} (hr : q.run = some .find) (hl : q.eventList = event :: events)
      (he : eventHandlersMap event.1 = none) :
      Moves eventHandlersMap q .dispatcher { q with run := some .lock } []
  | call {event events handler} (hr : q.run = some (.call handler))
      (hl : q.eventList = event :: events) :
      Moves eventHandlersMap q .dispatcher { q with run := some .handler }
        [.handled handler event.2]
  | handler (hr : q.run = some .handler) (hc : q.calls none = none) :
      Moves eventHandlersMap q .dispatcher { q with run := some .lock } []
  | lock (hr : q.run = some .lock) (hm : q.evMtx = none) :
      Moves eventHandlersMap q .dispatcher
        { q with evMtx := some .dispatcher, run := some .popFront } []
  | popFront {event events} (hr : q.run = some .popFront) (hl : q.eventList = event :: events) :
      Moves eventHandlersMap q .dispatcher { q with eventList := events, run := some .unlock }
        [.popped event]
  | unlockRun (hr : q.run = some .unlock) :
      Moves eventHandlersMap q .dispatcher { q with evMtx := none, run := some .size } []

theorem moves_addEvent (q : Queue T K D H) (caller : Option T) (event : K × D) :
    Moves eventHandlersMap q (.addEvent caller event) (q.addEvent caller event).1
      (q.addEvent caller event).2 ∨ q.addEvent caller event = (q, []) := by
  unfold Queue.addEvent
  split
  · next _ hm hc => exact .inl (.addEvent hm hc fun h => by cases h)
  · next hm hr hc => exact .inl (.addEvent hm hc fun _ => hr)
  · exact .inr rfl

theorem moves_goOn (q : Queue T K D H) (caller : Option T) :
    Moves eventHandlersMap q (.goOn caller) (q.goOn caller) [] ∨ q.goOn caller = q := by
  unfold Queue.goOn
  split
  · next hc => exact .inl (.pushBack hc)
  · next hc => exact .inl (.unlock hc)
  · next hc => exact .inl (.post hc)
  · exact .inr rfl

theorem moves_strand (q : Queue T K D H) :
    Moves eventHandlersMap q .strand q.strand [] ∨ q.strand = q := by
  unfold Queue.strand
  split
  · next hr hp => exact .inl (.strand hr hp)
  · exact .inr rfl

theorem moves_dispatcher (q : Queue T K D H) :
    Moves eventHandlersMap q .dispatcher (q.dispatcher eventHandlersMap).1
      (q.dispatcher eventHandlersMap).2 ∨ q.dispatcher eventHandlersMap = (q, []) := by
  unfold Queue.dispatcher
  split
  · next hr hl => exact .inl (.sizeZero hr hl)
  · next hr hl => exact .inl (.size hr hl)
  · next hr hl =>
    split
    · next he => exact .inl (.find hr hl he)
    · next he => exact .inl (.findEnd hr hl he)
  · next hr hl => exact .inl (.call hr hl)
  · next hr =>
    split
    · next hc => exact .inl (.handler hr hc)
    · exact .inr rfl
  · next hr =>
    split
    · next hm => exact .inl (.lock hr hm)
    · exact .inr rfl
  · next hr hl => exact .inl (.popFront hr hl)
  · next hr => exact .inl (.unlockRun hr)
  · exact .inr rfl

variable (eventHandlersMap) in
/-- A step moves, or it leaves everything alone. -/
theorem moves_or_stays (q : Queue T K D H) (a : Action T K D) :
    Moves eventHandlersMap q a ((eventQueue eventHandlersMap).next q a)
      ((eventQueue eventHandlersMap).emit q a) ∨
      (eventQueue eventHandlersMap).next q a = q ∧ (eventQueue eventHandlersMap).emit q a = [] := by
  cases a with
  | addEvent caller event => exact (moves_addEvent q caller event).imp_right Prod.ext_iff.mp
  | goOn caller => exact (moves_goOn q caller).imp_right fun h => ⟨h, rfl⟩
  | strand => exact (moves_strand q).imp_right fun h => ⟨h, rfl⟩
  | dispatcher => exact (moves_dispatcher q).imp_right Prod.ext_iff.mp

/-- What holds before a step and after all that move holds after it. -/
theorem next_of_moves (P : Queue T K D H → Prop) (hq : P q)
    (hm : ∀ q' os, Moves eventHandlersMap q a q' os → P q') :
    P ((eventQueue eventHandlersMap).next q a) := by
  rcases moves_or_stays eventHandlersMap q a with h | ⟨h, -⟩
  · exact hm _ _ h
  · exact h.symm ▸ hq

/-- A step that moves is the one that it says. -/
theorem Moves.step (h : Moves eventHandlersMap q a q' os) :
    (eventQueue eventHandlersMap).next q a = q' ∧ (eventQueue eventHandlersMap).emit q a = os := by
  cases h with
  | @addEvent caller event hm hc hh =>
    cases caller with
    | none => simp [eventQueue, Queue.addEvent, hm, hc, hh rfl]
    | some t => simp [eventQueue, Queue.addEvent, hm, hc]
  | pushBack hc | unlock hc | post hc => simp only [eventQueue, Queue.goOn, hc, and_self]
  | strand hr hp => simp only [eventQueue, Queue.strand, hr, hp, and_self]
  | size hr h | sizeZero hr h | call hr h | handler hr h | lock hr h | popFront hr h =>
    simp only [eventQueue, Queue.dispatcher, hr, h, and_self]
  | find hr hl he | findEnd hr hl he =>
    simp only [eventQueue, Queue.dispatcher, hr, hl, he, and_self]
  | unlockRun hr => simp only [eventQueue, Queue.dispatcher, hr, and_self]

theorem Queue.goto_ne {caller : Option T} {call : Option (AddEvent K D)}
    (hc : q.calls caller ≠ call) (q' : Queue T K D H) : q'.goto caller call ≠ q := by
  intro he
  have hself : (q'.goto caller call).calls caller = q.calls caller := by rw [he]
  exact hc (by simpa using hself.symm)

theorem Moves.ne (h : Moves eventHandlersMap q a q' os) : q' ≠ q := by
  cases h with
  | addEvent _ hc _ | pushBack hc | unlock hc | post hc =>
    exact Queue.goto_ne (by simp [hc]) _
  | _ => exact ne_of_apply_ne Queue.run (by simp_all)

/-- The steps that can happen are those that move. -/
theorem enabled_iff : (eventQueue eventHandlersMap).Enabled q a ↔
    ∃ q' os, Moves eventHandlersMap q a q' os := by
  constructor
  · intro h
    exact ⟨_, _, (moves_or_stays eventHandlersMap q a).resolve_right fun hs => h hs.1⟩
  · rintro ⟨q', os, h⟩
    rw [Machine.Enabled, h.step.1]
    exact h.ne

end BotTrader.Application
