import Mathlib.Tactic.Cases
import BotTrader.Automata.Machine
import BotTrader.Web.Base64

/-! The writer of a web session, from when its websocket is open. The handlers run on the
strand of the session, one after the other. A write can complete at any time, with or
without an error, and the websocket can close at any time; it is not opened again. -/

namespace BotTrader.Web

open Automata

/-- What of a `session` its writer uses. -/
structure Writer where
  wQueue : List Bytes := []
  isOpen : Bool := true
  /-- The calls of `async_write` that have not completed. -/
  writes : List Bytes := []

namespace Writer

inductive Event where
  | onSend (ss : Bytes)
  /-- The completion of the `i`-th outstanding write. -/
  | onWrite (i : ℕ) (ok : Bool)
  | closed

inductive Out where
  | asyncWrite (data : Bytes)
  | asyncClose

/-- `m_ws.async_write(m_w_queue.front().data(), ..)`; the queue is never empty there. -/
def writeFront (s : Writer) : Writer × List Out :=
  match s.wQueue with
  | [] => (s, [])
  | data :: _ => ({ s with writes := s.writes ++ [data] }, [.asyncWrite data])

def onSend (s : Writer) (ss : Bytes) : Writer × List Out :=
  let s := { s with wQueue := s.wQueue ++ [ss] }
  if s.isOpen = false then (s, [])
  else if 1 < s.wQueue.length then (s, [])
  else s.writeFront

/-- After an error the handler goes on. -/
def onWrite (s : Writer) (ok : Bool) : Writer × List Out :=
  let calls := if ok then [] else [.asyncClose]
  let s := { s with wQueue := s.wQueue.tail }
  if s.wQueue = [] then (s, calls)
  else (s.writeFront.1, calls ++ s.writeFront.2)

def handle (s : Writer) : Event → Writer × List Out
  | .onSend ss => s.onSend ss
  | .onWrite i ok =>
    if i < s.writes.length then ({ s with writes := s.writes.eraseIdx i } : Writer).onWrite ok
    else (s, [])
  | .closed => ({ s with isOpen := false }, [])

end Writer

def writer : Machine Writer Writer.Event Writer.Out where
  next s e := (s.handle e).1
  emit s e := (s.handle e).2

namespace Writer

def Event.sent : Event → List Bytes
  | .onSend ss => [ss]
  | _ => []

def Out.written : Out → List Bytes
  | .asyncWrite data => [data]
  | .asyncClose => []

/-- What is queued behind the outstanding write. -/
def pending (s : Writer) : List Bytes := s.wQueue.drop s.writes.length

/-- The writer is idle, or it writes the front of its queue. -/
inductive Fifo (s : Writer) : Prop where
  | idle (hw : s.writes = []) (hq : s.isOpen = true → s.wQueue = [])
  | busy (data : Bytes) (rest : List Bytes) (hw : s.writes = [data]) (hq : s.wQueue = data :: rest)

variable {s : Writer}

theorem Fifo.length_le (h : s.Fifo) : s.writes.length ≤ 1 := by
  cases h with
  | idle hw => simp [hw]
  | busy data rest hw => simp [hw]

theorem Fifo.head? (h : s.Fifo) {data : Bytes} (hd : data ∈ s.writes) :
    s.wQueue.head? = some data := by
  cases h with
  | idle hw =>
    rw [hw] at hd
    exact absurd hd List.not_mem_nil
  | busy data' rest hw hq =>
    rw [hw, List.mem_singleton] at hd
    rw [hq, hd, List.head?_cons]

theorem Fifo.ne_nil_iff (h : s.Fifo) (ho : s.isOpen = true) : s.wQueue ≠ [] ↔ s.writes ≠ [] := by
  cases h with
  | idle hw hq => simp [hw, hq ho]
  | busy data rest hw hq => simp [hw, hq]

/-- What a step does to the two ends of the queue. -/
structure Passes (s : Writer) (ins : List Bytes) (r : Writer × List Out) : Prop where
  fifo : r.1.Fifo
  conserves : s.pending ++ ins = r.2.flatMap Out.written ++ r.1.pending

theorem Fifo.onSend (h : s.Fifo) (ss : Bytes) : s.Passes [ss] (s.onSend ss) := by
  cases h with
  | busy data rest hw hq =>
    have hr : s.onSend ss = ({ s with wQueue := data :: (rest ++ [ss]) }, []) := by
      simp [Writer.onSend, hq]
    rw [hr]
    constructor
    case fifo => exact .busy data (rest ++ [ss]) hw rfl
    case conserves => simp [pending, hw, hq]
  | idle hw hq =>
    by_cases ho : s.isOpen = true
    · have hr : s.onSend ss = ({ s with wQueue := [ss], writes := [ss] }, [.asyncWrite ss]) := by
        simp [Writer.onSend, writeFront, ho, hq ho, hw]
      rw [hr]
      constructor
      case fifo => exact .busy ss [] rfl rfl
      case conserves => simp [pending, hw, hq ho, Out.written]
    · have hc : s.isOpen = false := by simpa using ho
      have hr : s.onSend ss = ({ s with wQueue := s.wQueue ++ [ss] }, []) := by
        simp [Writer.onSend, hc]
      rw [hr]
      constructor
      case fifo => exact .idle hw fun h => absurd h ho
      case conserves => simp [pending, hw]

/-- Only the front of the queue can complete, and the next message follows it. -/
theorem Fifo.onWrite (h : s.Fifo) {i : ℕ} (hi : i < s.writes.length) (ok : Bool) :
    s.Passes [] (({ s with writes := s.writes.eraseIdx i } : Writer).onWrite ok) := by
  cases h with
  | idle hw => simp [hw] at hi
  | busy data rest hw hq =>
    have hi' : i = 0 := by simpa [hw] using hi
    subst hi'
    cases rest with
    | nil =>
      have hr : ({ s with writes := s.writes.eraseIdx 0 } : Writer).onWrite ok =
          ({ s with wQueue := [], writes := [] }, if ok then [] else [.asyncClose]) := by
        simp [Writer.onWrite, hw, hq]
      rw [hr]
      constructor
      case fifo => exact .idle rfl fun _ => rfl
      case conserves => cases ok <;> simp [pending, hw, hq, Out.written]
    | cons next rest =>
      have hr : ({ s with writes := s.writes.eraseIdx 0 } : Writer).onWrite ok =
          ({ s with wQueue := next :: rest, writes := [next] },
            (if ok then [] else [.asyncClose]) ++ [.asyncWrite next]) := by
        simp [Writer.onWrite, writeFront, hw, hq]
      rw [hr]
      constructor
      case fifo => exact .busy next rest rfl rfl
      case conserves => cases ok <;> simp [pending, hw, hq, Out.written]

theorem Fifo.handle (h : s.Fifo) (e : Event) : s.Passes e.sent (s.handle e) := by
  cases e with
  | onSend ss => exact h.onSend ss
  | onWrite i ok =>
    by_cases hi : i < s.writes.length
    · simpa only [Writer.handle, if_pos hi, Event.sent] using h.onWrite hi ok
    · simp only [Writer.handle, if_neg hi, Event.sent]
      exact ⟨h, by simp⟩
  | closed =>
    constructor
    case conserves => simp [Writer.handle, pending, Event.sent]
    case fifo =>
      cases h with
      | idle hw => exact .idle hw fun ho => by simp [Writer.handle] at ho
      | busy data rest hw hq => exact .busy data rest hw hq

theorem fifo_init : ({} : Writer).Fifo := .idle rfl fun _ => rfl

theorem fifo_run (es : List Event) : (writer.run {} es).Fifo :=
  writer.run_invariant (P := fun _ _ => True) Fifo (fun _ e h _ => (h.handle e).fifo) fifo_init
    (writer.along_of_forall (fun _ _ => trivial) _ _)

/-- What was sent is what was written and what is still pending. -/
theorem sent_run (es : List Event) :
    es.flatMap Event.sent =
      (writer.emitted {} es).flatMap Out.written ++ (writer.run {} es).pending :=
  writer.run_conserves (P := fun _ _ => True) Fifo pending Event.sent Out.written
    (fun _ e h _ => (h.handle e).fifo) (fun _ e h _ => (h.handle e).conserves) fifo_init
    (writer.along_of_forall (fun _ _ => trivial) _ _)

/-- The writer is a lossless FIFO: whatever the order of sends and completions, it has at
most one write under way, of the front of its queue; the messages that were sent are those
written, in the order in which they were sent, and those that wait in the queue behind the
write; and as long as the websocket is open it does not stall. -/
theorem writes_inOrder (es : List Event) :
    (writer.run {} es).writes.length ≤ 1 ∧
      (∀ data ∈ (writer.run {} es).writes, (writer.run {} es).wQueue.head? = some data) ∧
      (writer.emitted {} es).flatMap Out.written <+: es.flatMap Event.sent ∧
      es.flatMap Event.sent =
        (writer.emitted {} es).flatMap Out.written ++ (writer.run {} es).pending ∧
      ((writer.run {} es).isOpen = true →
        ((writer.run {} es).wQueue ≠ [] ↔ (writer.run {} es).writes ≠ [])) := by
  have hf := fifo_run es
  have hs := sent_run es
  exact ⟨hf.length_le, fun _ hd => hf.head? hd, ⟨_, hs.symm⟩, hs, hf.ne_nil_iff⟩

end Writer

end BotTrader.Web
