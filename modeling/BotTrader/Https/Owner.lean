import Mathlib.Logic.Function.Basic
import BotTrader.Automata.Handler
import BotTrader.Https.Request
import BotTrader.Https.Resubmission

/-! The HTTPS client in the hands of its owner, who makes the requests and gets the
callbacks. A handler of the client is one step here: what it does before it takes the
lock, the callback of the owner, and what it does under the lock. -/

namespace BotTrader.Https

open Automata Handler Boost

/-- The client with its requests, by their numbers, what was last read in answer to each,
and the rest of the owner. -/
structure Owner (ρ α : Type) where
  http : Client
  request : ℕ → ρ
  answer : ℕ → Response
  own : α

/-- A method of the owner that calls out `ω`. -/
abbrev Method (ρ α ω : Type) := Handler (Owner ρ α) ω Exc

variable {ρ α ω : Type}

namespace Owner

/-- The client after one of its own events. -/
def perform (e : Event) (s : Owner ρ α) : Owner ρ α := { s with http := (s.http.step e).1 }

/-- A change of the rest. -/
def modify (f : α → α) (s : Owner ρ α) : Owner ρ α := { s with own := f s.own }

/-- `request` of the client -/
def push (r : ρ) (now : UInt64) (time : UInt32) (s : Owner ρ α) : Owner ρ α :=
  { s with request := Function.update s.request s.http.created r }.perform (.request now time)

/-- The response that the read operation waits for. -/
def receive (i : ℕ) (resp : Response) (s : Owner ρ α) : Owner ρ α :=
  match s.http.ops[i]? with
  | some (.read sent _) => { s with answer := Function.update s.answer sent resp }
  | _ => s

/-- What the message handler gets when the read operation is complete: the front of the
queue, with what was read into it. -/
def handed (i : ℕ) (resp : Response) (s : Owner ρ α) : Option (ρ × Response) :=
  match (s.http.step (.onRead i true)).2 with
  | [.message uid (some sent)] => some (s.request uid, (s.receive i resp).answer sent)
  | [.message uid none] => some (s.request uid, {})
  | _ => none

end Owner

/-! ### The handlers of the client -/

section Callbacks

variable (connectHandler : Bool → Method ρ α ω Unit) (msgHandler : ρ → Response → Method ρ α ω Unit)

/-- `on_read` without an error -/
def onRead (i : ℕ) (resp : Response) (time : UInt32) : Method ρ α ω Unit := do
  let s ← self
  update fun s => (s.receive i resp).perform (.onRead i true)
  match s.handed i resp with
  | some (req, resp) => do
    msgHandler req resp
    update (Owner.perform (.onReadLocked 0 time))
  | none => pure ()

/-- A connection that is not set up: one of the handlers from `on_resolve_host` to
`on_handshake` with an error. -/
def connectFailed : Method ρ α ω Unit := do
  if 0 < (← self).http.connecting then
    connectHandler false
    update (Owner.perform .connectFailed)

/-- `on_handshake` without an error -/
def onHandshake (time : UInt32) : Method ρ α ω Unit := do
  if 0 < (← self).http.connecting then
    connectHandler true
    update (Owner.perform .onHandshake)
    update (Owner.perform (.onHandshakeLocked time))

end Callbacks

/-! ### What they leave -/

@[simp] theorem Client.ready_doWrite (s : Client) (time : UInt32) :
    (s.doWrite time).1.ready = s.ready := by
  unfold Client.doWrite
  split <;> rfl

@[simp] theorem Client.ready_onReadLocked (s : Client) (i : ℕ) (time : UInt32) :
    (s.step (.onReadLocked i time)).1.ready = s.ready := by
  simp only [Client.step]
  split
  · simp
  · rfl

theorem Client.ready_onRead (s : Client) (i : ℕ) (ok : Bool) :
    (s.step (.onRead i ok)).1.ready = s.ready := by
  simp only [Client.step, Client.onRead]
  grind [Client.fail]

/-- Only a handshake makes the client ready. -/
theorem Client.ready_step {s : Client} {e : Event} (he : e ≠ .onHandshake)
    (h : (s.step e).1.ready = true) : s.ready = true := by
  cases e with
  | request now time =>
    simp only [Client.step, Client.request] at h
    split at h
    · simpa using h
    · exact h
  | onWrite i ok =>
    simp only [Client.step, Client.onWrite] at h
    grind [Client.fail]
  | onRead i ok => rwa [Client.ready_onRead] at h
  | onReadLocked i time => rwa [Client.ready_onReadLocked] at h
  | onHandshake => exact absurd rfl he
  | onHandshakeLocked time =>
    simp only [Client.step] at h
    split at h
    · simpa using h
    · exact h
  | onReconnect | connectFailed =>
    simp only [Client.step] at h
    split at h
    · simp_all
    · exact h
  | resetRequests | cleanupRequests => exact h

/-- Completions and connections leave the requests in the queue alone. -/
def Event.Quiet : Event → Prop
  | .onWrite .. | .onRead .. | .onReconnect | .connectFailed | .onHandshake
  | .onHandshakeLocked .. => True
  | _ => False

theorem Client.uids_onWrite (s : Client) (sent : ℕ) (ok : Bool) :
    (s.onWrite sent ok).1.uids = s.uids := by
  cases ok with
  | false => exact Client.uids_fail s
  | true =>
    simp only [Client.onWrite, if_true]
    split <;> rfl

theorem Client.uids_onRead (s : Client) (sent uid : ℕ) (ok : Bool) :
    (s.onRead sent uid ok).1.uids = s.uids := by
  cases ok with
  | false => exact Client.uids_fail s
  | true =>
    have h := Client.uids_store sent uid s.reqRespList
    simp only [Client.onRead, if_true]
    split <;> exact h

theorem Client.uids_quiet {s : Client} {e : Event} (he : e.Quiet) : (s.step e).1.uids = s.uids := by
  cases e with
  | request | resetRequests | cleanupRequests | onReadLocked => exact he.elim
  | onWrite i ok =>
    simp only [Client.step]
    split
    · exact Client.uids_onWrite _ _ ok
    · rfl
  | onRead i ok =>
    simp only [Client.step]
    split
    · exact Client.uids_onRead _ _ _ ok
    · rfl
  | onHandshakeLocked time =>
    simp only [Client.step]
    split
    · exact Client.uids_doWrite _ time
    · rfl
  | onReconnect | connectFailed | onHandshake =>
    simp only [Client.step]
    split <;> rfl

theorem Client.uids_request (s : Client) (now : UInt64) (time : UInt32) :
    (s.step (.request now time)).1.uids = s.uids ++ [s.created] := by
  simp only [Client.step, Client.request]
  split
  · rw [Client.uids_doWrite]
    simp [Client.uids]
  · simp [Client.uids]

theorem Client.uids_onReadLocked {s : Client} {i : ℕ} (h : i < s.answered.length)
    (time : UInt32) : (s.step (.onReadLocked i time)).1.uids = s.uids.tail := by
  simp only [Client.step, h, if_true]
  rw [Client.uids_doWrite]
  simp [Client.uids]

namespace Owner

variable {s : Owner ρ α} {i : ℕ} {resp : Response}

theorem http_receive : (s.receive i resp).http = s.http := by
  unfold receive
  split <;> rfl

theorem request_receive : (s.receive i resp).request = s.request := by
  unfold receive
  split <;> rfl

theorem own_receive : (s.receive i resp).own = s.own := by
  unfold receive
  split <;> rfl

/-- The object when the message handler is called. -/
def read (i : ℕ) (resp : Response) (s : Owner ρ α) : Owner ρ α :=
  (s.receive i resp).perform (.onRead i true)

theorem http_read : (s.read i resp).http = (s.http.step (.onRead i true)).1 := by
  simp [read, perform, http_receive]

theorem request_read : (s.read i resp).request = s.request := request_receive

theorem own_read : (s.read i resp).own = s.own := own_receive

/-- What a message tells of the client: the read operation has completed, and it was the
front of the queue that was handed over. -/
theorem handed_eq_some {p : ρ × Response} (h : s.handed i resp = some p) :
    ∃ sent uid r rs, s.http.ops[i]? = some (.read sent uid) ∧ s.http.reqRespList = r :: rs ∧
      (s.read i resp).http = { s.http with
        ops := s.http.ops.eraseIdx i
        reqRespList := Client.store sent uid (r :: rs)
        answered := s.http.answered ++ [sent] } ∧
      p.1 = s.request r.uid ∧ (r.uid = uid → p.2 = resp) ∧
      (r.uid ≠ uid → r.response = none → p.2 = {}) := by
  rw [http_read]
  cases ho : s.http.ops[i]? with
  | none => simp [handed, Client.step, ho] at h
  | some op =>
    cases op with
    | write uid => simp [handed, Client.step, ho] at h
    | read sent uid =>
      cases hl : s.http.reqRespList with
      | nil => simp [handed, Client.step, Client.onRead, Client.store, ho, hl] at h
      | cons r rs =>
        refine ⟨sent, uid, r, rs, rfl, rfl, ?_⟩
        simp only [handed, Client.step, Client.onRead, Client.store, ho, hl, List.map_cons,
          if_true] at h ⊢
        by_cases hu : r.uid = uid
        · simp only [hu, if_true, Option.some.injEq] at h
          subst h
          simp [receive, ho, hu]
        · simp only [hu, if_false] at h
          cases hr : r.response with
          | none =>
            simp only [hr, Option.some.injEq] at h
            subst h
            simp [hu]
          | some sent' =>
            simp only [hr, Option.some.injEq] at h
            subst h
            simp [hu]

theorem answered_of_handed {p : ρ × Response} (h : s.handed i resp = some p) :
    0 < (s.read i resp).http.answered.length := by
  obtain ⟨sent, uid, r, rs, -, -, hs, -⟩ := handed_eq_some h
  rw [hs]
  simp

end Owner

section Runs

variable {msgHandler : ρ → Response → Method ρ α ω Unit} {s t : Owner ρ α} {i : ℕ}
  {req : ρ} {resp got : Response} {o : List ω}

theorem run_onRead_none (h : s.handed i resp = none) (time : UInt32) :
    (onRead msgHandler i resp time).run s = .done () (s.read i resp) [] := by
  rw [onRead, run_bind_done (run_self s), Outcome.after_nil, run_bind_done (run_update _ s),
    Outcome.after_nil, h]
  rfl

theorem run_onRead_some (h : s.handed i resp = some (req, got)) (time : UInt32) :
    (onRead msgHandler i resp time).run s = (do
      msgHandler req got
      update (Owner.perform (.onReadLocked 0 time)) : Method ρ α ω Unit).run (s.read i resp) := by
  rw [onRead, run_bind_done (run_self s), Outcome.after_nil, run_bind_done (run_update _ s),
    Outcome.after_nil, h]
  rfl

theorem run_onRead_done (h : s.handed i resp = some (req, got))
    (hm : (msgHandler req got).run (s.read i resp) = .done () t o) (time : UInt32) :
    (onRead msgHandler i resp time).run s = .done () (t.perform (.onReadLocked 0 time)) o := by
  rw [run_onRead_some h, run_bind_done hm, run_update, Outcome.after_done, List.append_nil]

theorem run_onRead_raised {x : Exc} (h : s.handed i resp = some (req, got))
    (hm : (msgHandler req got).run (s.read i resp) = .raised x t o) (time : UInt32) :
    (onRead msgHandler i resp time).run s = .raised x t o := by
  rw [run_onRead_some h, run_bind_raised hm]

end Runs

end BotTrader.Https
