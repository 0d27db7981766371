import BotTrader.Application.EventQueue

/-! That the event queue loses and repeats nothing. Events are passed to their handlers in the
order in which their calls of `add_event` took the lock, in any interleaving, and all of them in
one that is fair. -/

namespace BotTrader.Application

open Automata

variable {T K D H : Type}

/-- The events whose calls have taken the lock, in this order. -/
def added (os : List (Output K D H)) : List (K × D) :=
  os.filterMap fun
    | .added event => some event
    | _ => none

/-- What was passed to which handler. -/
def handled (os : List (Output K D H)) : List (H × D) :=
  os.filterMap fun
    | .handled handler data => some (handler, data)
    | _ => none

/-- The events that were taken off the list. -/
def popped (os : List (Output K D H)) : List (K × D) :=
  os.filterMap fun
    | .popped event => some event
    | _ => none

/-- The events with a handler, each as it is passed to this handler. -/
def deliveries (eventHandlersMap : K → Option H) (events : List (K × D)) : List (H × D) :=
  events.filterMap fun event => (eventHandlersMap event.1).map fun handler => (handler, event.2)

/-- The event of the call that is between lock and `push_back`. -/
def Queue.pushing (q : Queue T K D H) : List (K × D) :=
  match q.evMtx with
  | some (.addEvent caller) =>
    match q.calls caller with
    | some (.pushBack event) => [event]
    | _ => []
  | _ => []

/-- The run is at the front. -/
def Dispatcher.AtFront : Dispatcher H → Prop
  | .size | .unlock => False
  | _ => True

/-- The front that has been passed and is still on the list. -/
def Queue.passed (q : Queue T K D H) : List (K × D) :=
  match q.run with
  | some .handler | some .lock | some .popFront => q.eventList.take 1
  | _ => []

section

variable [DecidableEq T]

/-- What holds of a queue and of what was seen of it. -/
structure Sound (eventHandlersMap : K → Option H) (q : Queue T K D H)
    (os : List (Output K D H)) : Prop where
  caller : ∀ caller, q.evMtx = some (.addEvent caller) ↔
    (∃ event, q.calls caller = some (.pushBack event)) ∨ q.calls caller = some .unlock
  dispatcher : q.evMtx = some .dispatcher ↔ q.run = some .popFront ∨ q.run = some .unlock
  front : ∀ run, q.run = some run → run.AtFront → q.eventList ≠ []
  handler : ∀ handler, q.run = some (.call handler) →
    ∀ event ∈ q.eventList.head?, eventHandlersMap event.1 = some handler
  added_eq : added os = popped os ++ q.eventList ++ q.pushing
  handled_eq : handled os = deliveries eventHandlersMap (popped os ++ q.passed)
  waiting : q.eventList ≠ [] → q.run ≠ none ∨ 0 < q.posted ∨
    ∃ caller, q.calls caller = some .unlock ∨ q.calls caller = some .post

variable {eventHandlersMap : K → Option H} {q q' : Queue T K D H} {a : Action T K D}
  {os os' : List (Output K D H)}

/-! ### One step -/

omit [DecidableEq T] in
@[simp] theorem added_append (os os' : List (Output K D H)) :
    added (os ++ os') = added os ++ added os' :=
  List.filterMap_append

omit [DecidableEq T] in
@[simp] theorem handled_append (os os' : List (Output K D H)) :
    handled (os ++ os') = handled os ++ handled os' :=
  List.filterMap_append

omit [DecidableEq T] in
@[simp] theorem popped_append (os os' : List (Output K D H)) :
    popped (os ++ os') = popped os ++ popped os' :=
  List.filterMap_append

omit [DecidableEq T] in
@[simp] theorem deliveries_append (events events' : List (K × D)) :
    deliveries eventHandlersMap (events ++ events') =
      deliveries eventHandlersMap events ++ deliveries eventHandlersMap events' :=
  List.filterMap_append

/-- Only one call at a time is in the lock. -/
theorem caller_moves (h : Sound eventHandlersMap q os) (hm : Moves eventHandlersMap q a q' os')
    (caller : Option T) : q'.evMtx = some (.addEvent caller) ↔
      (∃ event, q'.calls caller = some (.pushBack event)) ∨ q'.calls caller = some .unlock := by
  have hc := h.caller caller
  cases hm with
  | @addEvent other event hm hc' _ | @unlock other hc' =>
    have ho := h.caller other
    by_cases he : caller = other
    · subst he
      simp_all
    · have he' : other ≠ caller := fun h => he h.symm
      simp_all [Function.update_of_ne]
  | @pushBack other event hc' | @post other hc' =>
    have ho := h.caller other
    by_cases he : caller = other
    · subst he
      simp_all
    · simp_all [Function.update_of_ne]
  | lock _ hm => simp_all
  | unlockRun hr =>
    have hd := h.dispatcher.mpr (.inr hr)
    simp_all
  | _ => exact hc

theorem dispatcher_moves (h : Sound eventHandlersMap q os)
    (hm : Moves eventHandlersMap q a q' os') :
    q'.evMtx = some .dispatcher ↔ q'.run = some .popFront ∨ q'.run = some .unlock := by
  have hd := h.dispatcher
  cases hm with
  | @unlock caller hc =>
    have hcaller := (h.caller caller).mpr (.inr hc)
    simp_all
  | _ => simp_all

/-- Only the run takes events off the list. -/
theorem front_moves (h : Sound eventHandlersMap q os) (hm : Moves eventHandlersMap q a q' os') :
    ∀ run, q'.run = some run → run.AtFront → q'.eventList ≠ [] := by
  have hf := h.front
  cases hm with
  | _ => simp_all [Dispatcher.AtFront]

theorem handler_moves (h : Sound eventHandlersMap q os) (hm : Moves eventHandlersMap q a q' os') :
    ∀ handler, q'.run = some (.call handler) →
      ∀ event ∈ q'.eventList.head?, eventHandlersMap event.1 = some handler := by
  have hh := h.handler
  cases hm with
  | @pushBack caller event _ =>
    intro handler hr
    have hl := h.front _ hr trivial
    simpa [List.head?_append_of_ne_nil _ hl] using hh handler hr
  | _ => simp_all

theorem Queue.pushing_goto {caller : Option T} (h : q.evMtx ≠ some (.addEvent caller))
    (call : Option (AddEvent K D)) : (q.goto caller call).pushing = q.pushing := by
  unfold pushing
  rw [goto_evMtx]
  split
  · next other hm =>
    have hne : other ≠ caller := fun he => h (he ▸ hm)
    rw [goto_calls, Function.update_of_ne hne]
  · rfl

/-- An event in a call is not lost between the lock and the list, and not on the list. -/
theorem added_moves (h : Sound eventHandlersMap q os) (hm : Moves eventHandlersMap q a q' os') :
    added (os ++ os') = popped (os ++ os') ++ q'.eventList ++ q'.pushing := by
  have ha := h.added_eq
  cases hm with
  | @pushBack caller event hc =>
    have hmtx := (h.caller caller).mpr (.inl ⟨event, hc⟩)
    simp_all [Queue.pushing, added, popped]
  | @unlock caller hc =>
    have hmtx := (h.caller caller).mpr (.inr hc)
    simp_all [Queue.pushing, added, popped]
  | @post caller hc =>
    have hmtx : q.evMtx ≠ some (.addEvent caller) := by simp [h.caller, hc]
    have hpush : (({ q with posted := q.posted + 1 }).goto caller none).pushing = q.pushing :=
      Queue.pushing_goto (q := { q with posted := q.posted + 1 }) hmtx none
    rw [hpush, List.append_nil]
    exact ha
  | unlockRun hr =>
    have hmtx := h.dispatcher.mpr (.inr hr)
    simp_all [Queue.pushing, added, popped]
  | _ => simp_all [Queue.pushing, added, popped]

omit [DecidableEq T] in
/-- What is appended while the front is handled comes after it. -/
theorem Queue.passed_pushBack (event : K × D)
    (h : ∀ run, q.run = some run → run.AtFront → q.eventList ≠ []) :
    ({ q with eventList := q.eventList ++ [event] } : Queue T K D H).passed = q.passed := by
  have htake (hl : q.eventList ≠ []) : (q.eventList ++ [event]).take 1 = q.eventList.take 1 :=
    List.take_append_of_le_length (List.length_pos_of_ne_nil hl)
  cases hr : q.run with
  | none => simp [passed, hr]
  | some run =>
    cases run with
    | handler | lock | popFront => simp [passed, hr, htake (h _ hr trivial)]
    | _ => simp [passed, hr]

theorem handled_moves (h : Sound eventHandlersMap q os) (hm : Moves eventHandlersMap q a q' os') :
    handled (os ++ os') = deliveries eventHandlersMap (popped (os ++ os') ++ q'.passed) := by
  have hh := h.handled_eq
  cases hm with
  | @pushBack caller event hc =>
    rw [List.append_nil, hh, ← Queue.passed_pushBack event h.front]
    rfl
  | call hr hl =>
    have hhandler := h.handler _ hr
    simp_all [Queue.passed, handled, popped, deliveries]
  | _ => simp_all [Queue.passed, handled, popped, deliveries]

theorem waiting_moves (h : Sound eventHandlersMap q os) (hm : Moves eventHandlersMap q a q' os') :
    q'.eventList ≠ [] → q'.run ≠ none ∨ 0 < q'.posted ∨
      ∃ caller, q'.calls caller = some .unlock ∨ q'.calls caller = some .post := by
  have hw := h.waiting
  intro hl
  cases hm with
  | @addEvent caller event _ hc _ =>
    refine (hw hl).imp_right (Or.imp_right ?_)
    rintro ⟨other, ho⟩
    have hne : other ≠ caller := fun he => by simp [he, hc] at ho
    exact ⟨other, by simpa [Function.update_of_ne hne] using ho⟩
  | @pushBack caller _ _ => exact .inr (.inr ⟨caller, .inl (by simp)⟩)
  | @unlock caller _ => exact .inr (.inr ⟨caller, .inr (by simp)⟩)
  | post _ => exact .inr (.inl (Nat.succ_pos _))
  | _ => simp_all

theorem sound_moves (h : Sound eventHandlersMap q os) (hm : Moves eventHandlersMap q a q' os') :
    Sound eventHandlersMap q' (os ++ os') where
  caller := caller_moves h hm
  dispatcher := dispatcher_moves h hm
  front := front_moves h hm
  handler := handler_moves h hm
  added_eq := added_moves h hm
  handled_eq := handled_moves h hm
  waiting := waiting_moves h hm

omit [DecidableEq T] in
theorem sound_init : Sound eventHandlersMap ({} : Queue T K D H) [] where
  caller caller := by simp
  dispatcher := by simp
  front run h := by simp at h
  handler handler h := by simp at h
  added_eq := rfl
  handled_eq := rfl
  waiting h := absurd rfl h

theorem sound_next (h : Sound eventHandlersMap q os) (a : Action T K D) :
    Sound eventHandlersMap ((eventQueue eventHandlersMap).next q a)
      (os ++ (eventQueue eventHandlersMap).emit q a) := by
  rcases moves_or_stays eventHandlersMap q a with hm | ⟨hq, ho⟩
  · exact sound_moves h hm
  · rw [hq, ho, List.append_nil]
    exact h

theorem sound_run (es : List (Action T K D)) :
    Sound eventHandlersMap ((eventQueue eventHandlersMap).run {} es)
      ((eventQueue eventHandlersMap).emitted {} es) :=
  Machine.run_history (M := eventQueue eventHandlersMap) (P := fun _ _ => True)
    (Sound eventHandlersMap) (fun _ _ a h _ => sound_next h a) sound_init
    (Machine.along_of_forall _ (fun _ _ => trivial) _ es)

/-! ### What was seen -/

omit [DecidableEq T] in
/-- Nothing is taken off the list that was not added, and nothing out of turn. -/
theorem Sound.popped_isPrefix (h : Sound eventHandlersMap q os) : popped os <+: added os := by
  rw [h.added_eq, List.append_assoc]
  exact List.prefix_append _ _

omit [DecidableEq T] in
theorem Sound.passed_isPrefix (h : Sound eventHandlersMap q os) :
    popped os ++ q.passed <+: added os := by
  have hpassed : q.passed <+: q.eventList := by
    unfold Queue.passed
    split
    all_goals first | exact List.take_prefix _ _ | exact List.nil_prefix
  rw [h.added_eq, List.append_assoc]
  exact (List.prefix_append_right_inj _).mpr (hpassed.trans (List.prefix_append _ _))

omit [DecidableEq T] in
theorem Sound.handled_isPrefix (h : Sound eventHandlersMap q os) :
    handled os <+: deliveries eventHandlersMap (added os) := by
  rw [h.handled_eq]
  exact h.passed_isPrefix.filterMap _

omit [DecidableEq T] in
/-- What was taken off the list was handled before. -/
theorem Sound.prefix_handled (h : Sound eventHandlersMap q os) :
    deliveries eventHandlersMap (popped os) <+: handled os := by
  rw [h.handled_eq]
  exact (List.prefix_append _ _).filterMap _

/-- Nothing is in a call, posted or running. -/
structure Queue.Rests (q : Queue T K D H) : Prop where
  calls : ∀ caller, q.calls caller = none
  posted : q.posted = 0
  run : q.run = none

omit [DecidableEq T] in
theorem Sound.handled_of_rests (h : Sound eventHandlersMap q os) (hr : q.Rests) :
    handled os = deliveries eventHandlersMap (added os) := by
  have hlist : q.eventList = [] := by
    by_contra hl
    rcases h.waiting hl with hrun | hp | ⟨caller, hc | hc⟩
    · exact hrun hr.run
    · exact hp.ne' hr.posted
    · cases (hr.calls caller).symm.trans hc
    · cases (hr.calls caller).symm.trans hc
  have hpush : q.pushing = [] := by
    unfold Queue.pushing
    split
    · rw [hr.calls]
    · rfl
  have hpassed : q.passed = [] := by
    unfold Queue.passed
    rw [hr.run]
  rw [h.handled_eq, h.added_eq, hlist, hpush, hpassed, List.append_nil, List.append_nil]

end

end BotTrader.Application
