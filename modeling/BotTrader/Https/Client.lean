import Mathlib.Data.List.Basic
import BotTrader.Automata.Machine

/-! The queue of the HTTPS client. Its methods and handlers run on several
threads; each is one step here, except that the handlers of a read and of a
handshake are two, before and after they take the lock of the queue. A request is
known by the number of its creation, and a response by the request that it
answers. -/

namespace BotTrader.Https

open Automata

/-- `http_req_resp_t` -/
structure ReqResp where
  uid : ℕ
  pushTime : UInt64
  sendTime : UInt32
  /-- The request that the stored response answers. -/
  response : Option ℕ

/-- An operation on the stream that has not completed. -/
inductive Op where
  | write (uid : ℕ)
  /-- The response to `sent` is read into the object of `uid`. -/
  | read (sent uid : ℕ)
  deriving DecidableEq

/-- The request of the exchange that the operation is part of. -/
def Op.sent : Op → ℕ
  | write uid => uid
  | read sent _ => sent

/-- The request in whose object the operation works. -/
def Op.object : Op → ℕ
  | write uid => uid
  | read _ uid => uid

structure Client where
  reqRespList : List ReqResp
  ready : Bool
  created : ℕ
  ops : List Op
  /-- Read handlers that have passed on the response to a request, and not yet
  taken the lock. -/
  answered : List ℕ
  /-- Handshake handlers that have set `m_ready`, and not yet taken the lock. -/
  greeted : ℕ
  /-- Calls of `on_reconnect` that are posted. -/
  reconnects : ℕ
  /-- Connections that are being set up. -/
  connecting : ℕ

/-- Completions are given by the position of the operation. -/
inductive Event where
  | request (now : UInt64) (time : UInt32)
  | resetRequests
  | cleanupRequests (interval now : UInt64)
  | onWrite (i : ℕ) (ok : Bool)
  | onRead (i : ℕ) (ok : Bool)
  | onReadLocked (i : ℕ) (time : UInt32)
  | onReconnect
  | connectFailed
  | onHandshake
  | onHandshakeLocked (time : UInt32)

/-- What the client does to the stream and its owner. -/
inductive Io where
  | asyncWrite (uid : ℕ)
  | asyncRead (uid : ℕ)
  /-- The message handler gets a request with the response to another, or none. -/
  | message (uid : ℕ) (response : Option ℕ)

namespace Client

/-- `connect` was called. -/
def init : Client where
  reqRespList := []
  ready := false
  created := 0
  ops := []
  answered := []
  greeted := 0
  reconnects := 0
  connecting := 1

/-- `while (size() > 1) pop_front()` -/
def keepLast : List ReqResp → List ReqResp
  | _ :: r :: rs => keepLast (r :: rs)
  | rs => rs

/-- The loop of `cleanup_requests`: sent requests are passed over, old ones
erased, and the first young one ends it. The times are unsigned. Erasing the
first element steps the iterator back to the end, and the loop goes on with what
is then the first. -/
def cleanup (interval now : UInt64) : List ReqResp → List ReqResp
  | [] => []
  | r :: rs =>
    if r.sendTime ≠ 0 then r :: cleanup interval now rs
    else if interval ≤ now - r.pushTime then cleanup interval now rs
    else r :: rs

theorem cleanup_sublist (interval now : UInt64) (rs : List ReqResp) :
    (cleanup interval now rs).Sublist rs := by
  induction rs with
  | nil => exact List.Sublist.slnil
  | cons r rs ih =>
    simp only [cleanup]
    split
    · exact ih.cons_cons r
    · split
      · exact ih.cons r
      · exact List.Sublist.refl _

/-- `do_write`; its callers have checked that the list is not empty. -/
def doWrite (time : UInt32) (s : Client) : Client × List Io :=
  match s.reqRespList with
  | [] => (s, [])
  | r :: rs =>
    ({ s with reqRespList := { r with sendTime := time } :: rs, ops := s.ops ++ [.write r.uid] },
      [.asyncWrite r.uid])

/-- The end of an operation that failed: the front is unsent again. -/
def fail (s : Client) : Client :=
  { s with
    reqRespList := match s.reqRespList with
      | [] => []
      | r :: rs => { r with sendTime := 0 } :: rs
    reconnects := s.reconnects + 1 }

/-- The response to `sent` arrives in the object of `uid`, if that is still there. -/
def store (sent uid : ℕ) (rs : List ReqResp) : List ReqResp :=
  rs.map fun r => if r.uid = uid then { r with response := some sent } else r

/-- `request`, from the lock on. -/
def request (now : UInt64) (time : UInt32) (s : Client) : Client × List Io :=
  let s' := { s with
    reqRespList := s.reqRespList ++ [⟨s.created, now, 0, none⟩]
    created := s.created + 1 }
  if s.ready ∧ s'.reqRespList.length ≤ 1 then s'.doWrite time else (s', [])

/-- `on_write`; `front` of an empty list is undefined, and then nothing is read. -/
def onWrite (sent : ℕ) (ok : Bool) (s : Client) : Client × List Io :=
  if ok then
    match s.reqRespList with
    | [] => (s, [])
    | r :: _ => ({ s with ops := s.ops ++ [.read sent r.uid] }, [.asyncRead r.uid])
  else (s.fail, [])

/-- `on_read`, up to the lock. -/
def onRead (sent uid : ℕ) (ok : Bool) (s : Client) : Client × List Io :=
  if ok then
    let s' := { s with reqRespList := store sent uid s.reqRespList }
    match s'.reqRespList with
    | [] => (s', [])
    | r :: _ => ({ s' with answered := s'.answered ++ [sent] }, [.message r.uid r.response])
  else (s.fail, [])

def step (s : Client) : Event → Client × List Io
  | .request now time => s.request now time
  | .resetRequests => ({ s with reqRespList := keepLast s.reqRespList }, [])
  | .cleanupRequests interval now =>
    ({ s with reqRespList := cleanup interval now s.reqRespList }, [])
  | .onWrite i ok => match s.ops[i]? with
    | some (.write uid) => { s with ops := s.ops.eraseIdx i }.onWrite uid ok
    | _ => (s, [])
  | .onRead i ok => match s.ops[i]? with
    | some (.read sent uid) => { s with ops := s.ops.eraseIdx i }.onRead sent uid ok
    | _ => (s, [])
  | .onReadLocked i time =>
    if i < s.answered.length then
      { s with
        answered := s.answered.eraseIdx i
        reqRespList := s.reqRespList.tail }.doWrite time
    else (s, [])
  | .onReconnect =>
    if 0 < s.reconnects then
      ({ s with
        ready := false
        reconnects := s.reconnects - 1
        connecting := s.connecting + 1 }, [])
    else (s, [])
  | .connectFailed =>
    if 0 < s.connecting then
      ({ s with connecting := s.connecting - 1, reconnects := s.reconnects + 1 }, [])
    else (s, [])
  | .onHandshake =>
    if 0 < s.connecting then
      ({ s with ready := true, connecting := s.connecting - 1, greeted := s.greeted + 1 }, [])
    else (s, [])
  | .onHandshakeLocked time =>
    if 0 < s.greeted then { s with greeted := s.greeted - 1 }.doWrite time else (s, [])

end Client

/-- The client under calls, completions and handlers in any order. -/
def client : Machine Client Event Io where
  next s e := (s.step e).1
  emit s e := (s.step e).2

end BotTrader.Https
