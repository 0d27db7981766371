import Mathlib.Data.List.Nodup
import BotTrader.Application.Delivery

/-! The streams that the trading script adds and deletes. A call passes through the table of
the Python binding, the strategy server and the callbacks of the application to the event
queue, and its handler creates or deletes a WSS client. -/

namespace BotTrader.Application

open Automata

variable {K D H : Type}

/-! ### From the script to the event queue -/

inductive Events (K : Type) where
  | EVENT_SCR_ADD_STREAM
  | EVENT_SCR_DEL_STREAM
  | other (kind : K)
  deriving DecidableEq

/-- `event_data_t` -/
inductive EventData (D : Type) where
  | string (data : String)
  | other (data : D)
  deriving DecidableEq

/-- What of `ss_callbacks_t` is about streams; a callback adds an event. -/
structure Callbacks (E : Type) where
  onAddStream : String → E
  onDelStream : String → E

def onScriptAddStream (stream : String) : Events K × EventData D :=
  (.EVENT_SCR_ADD_STREAM, .string stream)

def onScriptDelStream (stream : String) : Events K × EventData D :=
  (.EVENT_SCR_DEL_STREAM, .string stream)

def scriptCallbacks : Callbacks (Events K × EventData D) where
  onAddStream := onScriptAddStream
  onDelStream := onScriptDelStream

namespace StrategyServer

def addStream {E : Type} (callbacks : Callbacks E) (stream : String) : E :=
  callbacks.onAddStream stream

def delStream {E : Type} (callbacks : Callbacks E) (stream : String) : E :=
  callbacks.onDelStream stream

end StrategyServer

namespace StrategyInstance

def addStream {E : Type} (callbacks : Callbacks E) (stream : String) : E :=
  StrategyServer.addStream callbacks stream

def delStream {E : Type} (callbacks : Callbacks E) (stream : String) : E :=
  StrategyServer.delStream callbacks stream

/-- The methods that the class has in Python; `del_stream` is bound to `addStream`. -/
def class_ {E : Type} (callbacks : Callbacks E) (name : String) : Option (String → E) :=
  if name = "add_stream" then some (addStream callbacks)
  else if name = "del_stream" then some (addStream callbacks)
  else none

end StrategyInstance

/-- A call of the script. -/
inductive StreamCall where
  | addStream (stream : String)
  | delStream (stream : String)
  deriving DecidableEq

namespace StreamCall

def method : StreamCall → String
  | addStream _ => "add_stream"
  | delStream _ => "del_stream"

def stream : StreamCall → String
  | addStream stream | delStream stream => stream

/-- The event that the call adds. -/
def event (c : StreamCall) : Option (Events K × EventData D) :=
  (StrategyInstance.class_ scriptCallbacks c.method).map fun method => method c.stream

end StreamCall

/-! ### From the event queue to the clients -/

inductive EventHandler (H : Type) where
  | onEventScrAddStream
  | onEventScrDelStream
  | other (handler : H)
  deriving DecidableEq

/-- `event_handlers_map` -/
def eventHandlersMap (others : K → Option H) : Events K → Option (EventHandler H)
  | .EVENT_SCR_ADD_STREAM => some .onEventScrAddStream
  | .EVENT_SCR_DEL_STREAM => some .onEventScrDelStream
  | .other kind => (others kind).map .other

/-- The WSS clients that have been created and not deleted, each with its stream, and
`m_wss_clients`. -/
structure Streams where
  created : ℕ := 0
  live : List (ℕ × String) := []
  wssClients : String → Option ℕ := fun _ => none

namespace Streams

/-- `emplace` changes nothing for a name that is there. -/
def addWssStream (stream : String) (s : Streams) : Streams :=
  let wssClient := s.created
  { created := s.created + 1
    live := s.live ++ [(wssClient, stream)]
    wssClients :=
      if (s.wssClients stream).isSome then s.wssClients
      else Function.update s.wssClients stream (some wssClient) }

def delWssStream (stream : String) (s : Streams) : Streams :=
  match s.wssClients stream with
  | some wssClient =>
    { s with
      live := s.live.filter (·.1 ≠ wssClient)
      wssClients := Function.update s.wssClients stream none }
  | none => s

/-- The handlers; for data of another type `boost::get` raises. -/
def handle (s : Streams) : EventHandler H × EventData D → Streams
  | (.onEventScrAddStream, .string stream) => s.addWssStream stream
  | (.onEventScrDelStream, .string stream) => s.delWssStream stream
  | _ => s

/-- The streams of the live clients. -/
def names (s : Streams) : List String := s.live.map Prod.snd

end Streams

/-- The clients after the handlers of a run. -/
def streams {K : Type} (os : List (Output (Events K) (EventData D) (EventHandler H))) : Streams :=
  (handled os).foldl Streams.handle {}

def Events.isStream : Events K → Bool
  | .other _ => false
  | _ => true

/-! ### Whether the clients follow the calls -/

/-- The last call that named the stream. -/
def lastCall (stream : String) (calls : List StreamCall) : Option StreamCall :=
  (calls.filter (·.stream = stream)).getLast?

structure Follows (calls : List StreamCall) (s : Streams) : Prop where
  nodup : s.names.Nodup
  last : ∀ stream, stream ∈ s.names ↔ lastCall stream calls = some (.addStream stream)

variable {others : K → Option H}

/-- Either call adds an event for a new client. -/
theorem event_eq (c : StreamCall) :
    c.event = some ((.EVENT_SCR_ADD_STREAM, .string c.stream) : Events K × EventData D) := by
  cases c <;> simp [StreamCall.event, StrategyInstance.class_, StreamCall.method] <;> rfl

/-- The handlers of other events leave the clients alone. -/
theorem foldl_filter (events : List (Events K × EventData D)) (s : Streams) :
    (deliveries (eventHandlersMap others) events).foldl Streams.handle s =
      (deliveries (eventHandlersMap others) (events.filter (·.1.isStream))).foldl
        Streams.handle s := by
  induction events generalizing s with
  | nil => rfl
  | cons event events ih =>
    obtain ⟨kind, data⟩ := event
    unfold deliveries at ih ⊢
    cases kind with
    | EVENT_SCR_ADD_STREAM => simpa [Events.isStream, eventHandlersMap] using ih _
    | EVENT_SCR_DEL_STREAM => simpa [Events.isStream, eventHandlersMap] using ih _
    | other kind =>
      cases hk : others kind with
      | none => simpa [Events.isStream, eventHandlersMap, hk] using ih s
      | some handler => simpa [Events.isStream, eventHandlersMap, hk, Streams.handle] using ih s

/-- Every call leaves one more client. -/
theorem names_foldl (calls : List StreamCall) (s : Streams) :
    ((deliveries (eventHandlersMap others)
      (calls.filterMap (StreamCall.event (D := D)))).foldl Streams.handle s).names =
      s.names ++ calls.map StreamCall.stream := by
  induction calls generalizing s with
  | nil => simp [deliveries]
  | cons c calls ih =>
    have hc : ∀ es : List (Events K × EventData D), deliveries (eventHandlersMap others)
        ((.EVENT_SCR_ADD_STREAM, .string c.stream) :: es) =
          (.onEventScrAddStream, .string c.stream) :: deliveries (eventHandlersMap others) es :=
      fun _ => rfl
    have hn : (s.handle ((.onEventScrAddStream, .string c.stream) :
        EventHandler H × EventData D)).names = s.names ++ [c.stream] := by
      simp [Streams.handle, Streams.addWssStream, Streams.names]
    rw [List.filterMap_cons, event_eq]
    simp only [hc, List.foldl_cons, ih, hn, List.map_cons, List.append_assoc,
      List.singleton_append]

theorem lastCall_mem {stream : String} {calls : List StreamCall} {c : StreamCall}
    (h : lastCall stream calls = some c) : c ∈ calls ∧ c.stream = stream := by
  have hm := List.mem_of_getLast? h
  simpa using hm

theorem lastCall_of_nodup {calls : List StreamCall} (h : (calls.map StreamCall.stream).Nodup)
    {c : StreamCall} (hc : c ∈ calls) : lastCall c.stream calls = some c := by
  cases hl : lastCall c.stream calls with
  | none =>
    rw [lastCall, List.getLast?_eq_none_iff, List.filter_eq_nil_iff] at hl
    exact absurd (decide_eq_true rfl) (hl c hc)
  | some c' =>
    obtain ⟨hm, hs⟩ := lastCall_mem hl
    rw [List.inj_on_of_nodup_map h hm hc hs]

/-- Clients for all calls follow the calls if every call adds a stream of its own. -/
theorem follows_iff_of_names {calls : List StreamCall} {s : Streams}
    (hs : s.names = calls.map StreamCall.stream) :
    Follows calls s ↔
      (∀ stream, .delStream stream ∉ calls) ∧ (calls.map StreamCall.stream).Nodup := by
  constructor
  · intro h
    have hn := h.nodup
    rw [hs] at hn
    refine ⟨fun stream hc => ?_, hn⟩
    have hlive : stream ∈ s.names := hs ▸ List.mem_map_of_mem (f := StreamCall.stream) hc
    have hlast := (h.last stream).mp hlive
    cases (lastCall_of_nodup hn hc).symm.trans hlast
  · rintro ⟨hd, hn⟩
    constructor
    case nodup => exact hs ▸ hn
    case last =>
      intro stream
      rw [hs]
      constructor
      · intro hm
        obtain ⟨c, hc, rfl⟩ := List.mem_map.mp hm
        cases c with
        | addStream stream => exact lastCall_of_nodup hn hc
        | delStream stream => exact absurd hc (hd stream)
      · intro hl
        obtain ⟨hm, hstream⟩ := lastCall_mem hl
        exact hstream ▸ List.mem_map_of_mem (f := StreamCall.stream) hm

section Runs

variable {T : Type} [DecidableEq T]

/-- When the queue has come to rest, a client lives for every call. -/
theorem names_of_rests (others : K → Option H)
    {es : List (Action T (Events K) (EventData D))} {calls : List StreamCall}
    (hr : ((eventQueue (eventHandlersMap others)).run {} es).Rests)
    (ha : (added ((eventQueue (eventHandlersMap others)).emitted {} es)).filter (·.1.isStream) =
      calls.filterMap StreamCall.event) :
    (streams ((eventQueue (eventHandlersMap others)).emitted {} es)).names =
      calls.map StreamCall.stream := by
  have hsound : Sound (eventHandlersMap others)
      ((eventQueue (eventHandlersMap others)).run {} es)
      ((eventQueue (eventHandlersMap others)).emitted {} es) := sound_run es
  have hs := hsound.handled_of_rests hr
  rw [streams, hs, foldl_filter, ha, names_foldl]
  rfl

/-- The script calls and the queue comes to rest, whatever else it has handled. Then the live
clients follow the calls exactly when no stream was deleted and none was added twice. -/
theorem follows_iff (others : K → Option H) (es : List (Action T (Events K) (EventData D)))
    (calls : List StreamCall)
    (hr : ((eventQueue (eventHandlersMap others)).run {} es).Rests)
    (ha : (added ((eventQueue (eventHandlersMap others)).emitted {} es)).filter (·.1.isStream) =
      calls.filterMap StreamCall.event) :
    Follows calls (streams ((eventQueue (eventHandlersMap others)).emitted {} es)) ↔
      (∀ stream, .delStream stream ∉ calls) ∧ (calls.map StreamCall.stream).Nodup :=
  follows_iff_of_names (names_of_rests others hr ha)

end Runs

/-- One thread calls, and the queue comes to rest. -/
def schedule (calls : List StreamCall) : List (Action Unit (Events Empty) (EventData Empty)) :=
  calls.flatMap fun c =>
    (c.event.map (.addEvent (some ()))).toList ++ List.replicate 3 (.goOn (some ())) ++
      .strand :: List.replicate 8 .dispatcher

theorem follows_addTwo :
    Follows [.addStream "btcusdt@trade", .addStream "ethusdt@trade"]
        (streams ((eventQueue (eventHandlersMap fun _ => (none : Option Empty))).emitted {}
          (schedule [.addStream "btcusdt@trade", .addStream "ethusdt@trade"]))) ↔
      (∀ stream, .delStream stream ∉
        [StreamCall.addStream "btcusdt@trade", .addStream "ethusdt@trade"]) ∧
        ([StreamCall.addStream "btcusdt@trade", .addStream "ethusdt@trade"].map
          StreamCall.stream).Nodup :=
  follows_iff (fun _ => (none : Option Empty)) _ _
    ⟨fun caller => by cases caller <;> rfl, rfl, rfl⟩ (by decide)

/-- A stream that was added and deleted again has two live clients. -/
theorem not_follows_deleted :
    ¬Follows [.addStream "btcusdt@trade", .delStream "btcusdt@trade"]
        (streams ((eventQueue (eventHandlersMap fun _ => (none : Option Empty))).emitted {}
          (schedule [.addStream "btcusdt@trade", .delStream "btcusdt@trade"]))) := by
  intro h
  have hn := h.nodup
  revert hn
  decide

end BotTrader.Application
