import BotTrader.Automata.Balance
import BotTrader.Automata.Expansion
import BotTrader.Https.Client

/-! How the HTTPS client sets up its connection: it resolves and connects to the host, or to a
proxy that it then asks for the host, and makes the TLS handshake. Each of these operations
calls its own handler. The client of the requests sees of them only that a connection is being
set up, has failed, or is there. -/

namespace BotTrader.Https

open Automata

/-- `ProxyMode` -/
inductive ProxyMode where
  | noproxy | http | socks4a
  deriving DecidableEq

/-- A posted call of `connect`, or an operation by the handler that it calls. -/
inductive Stage where
  | connect
  | onResolveHost | onConnectHost
  | onResolveProxy | onConnectProxy | onRequestProxy | onReplayProxy
  | onHandshake
  deriving DecidableEq

/-- The operation that a handler starts when there is no error; what the proxy replied is not
looked at. -/
def Stage.follower : Stage → Stage
  | .onResolveHost => .onConnectHost
  | .onResolveProxy => .onConnectProxy
  | .onConnectProxy => .onRequestProxy
  | .onRequestProxy => .onReplayProxy
  | .connect | .onConnectHost | .onReplayProxy | .onHandshake => .onHandshake

/-- The client, with what is under way to connect it. -/
structure Connection where
  mode : ProxyMode
  stages : List Stage
  http : Client

namespace Connection

/-- A step of the client with its stream, a posted `on_reconnect`, or the end of a stage. -/
inductive Event where
  | stream (e : Https.Event)
  | onReconnect
  | complete (i : ℕ) (ok : Bool)

inductive Out where
  | io (o : Io)
  | start (s : Stage)
  /-- The handler of the owner is called. -/
  | connectHandler (ok : Bool)
  /-- An operation on the stream has failed. -/
  | broken

/-- `connect` was called. -/
def init (mode : ProxyMode) : Connection where
  mode := mode
  stages := [.connect]
  http := { Client.init with connecting := 0 }

/-- Steps that do not set up the connection. -/
def isStream : Https.Event → Bool
  | .onReconnect | .connectFailed | .onHandshake => false
  | _ => true

/-- An operation on the stream ends with an error. -/
def loses (s : Client) : Https.Event → Bool
  | .onWrite i false => match s.ops[i]? with
    | some (.write _) => true
    | _ => false
  | .onRead i false => match s.ops[i]? with
    | some (.read _ _) => true
    | _ => false
  | _ => false

def start (s : Stage) (c : Connection) : Connection × List Out :=
  ({ c with stages := c.stages ++ [s] }, [.start s])

/-- `connect` -/
def connect (c : Connection) : Connection × List Out :=
  match c.mode with
  | .socks4a => c.start .onResolveProxy
  | .noproxy => c.start .onResolveHost
  | .http => (c, [])

/-- A stage that failed: the owner is told, and `on_reconnect` posted. -/
def fail (c : Connection) : Connection × List Out :=
  ({ c with http := { c.http with reconnects := c.http.reconnects + 1 } }, [.connectHandler false])

/-- `on_handshake` without an error, up to the lock -/
def onHandshake (c : Connection) : Connection × List Out :=
  ({ c with http := { c.http with ready := true, greeted := c.http.greeted + 1 } },
    [.connectHandler true])

def onComplete (s : Stage) (ok : Bool) (c : Connection) : Connection × List Out :=
  match s, ok with
  | .connect, _ => c.connect
  | _, false => c.fail
  | .onHandshake, true => c.onHandshake
  | s, true => c.start s.follower

def step (c : Connection) : Event → Connection × List Out
  | .stream e =>
    if isStream e then
      let (http, os) := c.http.step e
      ({ c with http := http }, os.map .io ++ if loses c.http e then [.broken] else [])
    else (c, [])
  | .onReconnect =>
    if 0 < c.http.reconnects then
      ({ c with
        http := { c.http with ready := false, reconnects := c.http.reconnects - 1 }
        stages := c.stages ++ [.connect] }, [])
    else (c, [])
  | .complete i ok => match c.stages[i]? with
    | some s => { c with stages := c.stages.eraseIdx i }.onComplete s ok
    | none => (c, [])

end Connection

/-- The connection under steps, handlers and completions in any order. -/
def connection : Machine Connection Connection.Event Connection.Out where
  next c e := (c.step e).1
  emit c e := (c.step e).2

namespace Connection

/-! ### The client of the requests -/

/-- All that is under way to connect is a connection that is being set up. -/
def toClient (c : Connection) : Client := { c.http with connecting := c.stages.length }

/-- What a step is for the client. -/
def label (c : Connection) : Event → List Https.Event
  | .stream e => if isStream e then [e] else []
  | .onReconnect => [.onReconnect]
  | .complete i ok => match c.stages[i]?, ok with
    | none, _ | some .connect, _ => []
    | some _, false => [.connectFailed]
    | some .onHandshake, true => [.onHandshake]
    | some _, true => []

def Out.io? : Out → Option Io
  | .io o => some o
  | _ => none

theorem doWrite_connecting (time : UInt32) (s : Client) (n : ℕ) :
    ({ s with connecting := n } : Client).doWrite time =
      ({ (s.doWrite time).1 with connecting := n }, (s.doWrite time).2) := by
  obtain ⟨rs, ready, created, ops, answered, greeted, reconnects, connecting⟩ := s
  cases rs <;> rfl

/-- Steps with the stream have no part in setting up a connection. -/
theorem step_connecting {e : Https.Event} (he : isStream e = true) (s : Client) (n : ℕ) :
    ({ s with connecting := n } : Client).step e =
      ({ (s.step e).1 with connecting := n }, (s.step e).2) := by
  cases e with
  | request now time =>
    simp only [Client.step, Client.request]
    split
    · exact doWrite_connecting time
        { s with
          reqRespList := s.reqRespList ++ [⟨s.created, now, 0, none⟩]
          created := s.created + 1 } n
    · rfl
  | resetRequests | cleanupRequests => rfl
  | onWrite i ok =>
    obtain ⟨rs, ready, created, ops, answered, greeted, reconnects, connecting⟩ := s
    simp only [Client.step]
    split
    · cases ok
      · rfl
      · cases rs <;> rfl
    · rfl
  | onRead i ok =>
    obtain ⟨rs, ready, created, ops, answered, greeted, reconnects, connecting⟩ := s
    simp only [Client.step]
    split
    · cases ok
      · rfl
      · cases rs <;> rfl
    · rfl
  | onReadLocked i time =>
    simp only [Client.step]
    split
    · exact doWrite_connecting time
        { s with answered := s.answered.eraseIdx i, reqRespList := s.reqRespList.tail } n
    · rfl
  | onHandshakeLocked time =>
    simp only [Client.step]
    split
    · exact doWrite_connecting time { s with greeted := s.greeted - 1 } n
    · rfl
  | onReconnect | connectFailed | onHandshake => cases he

variable {c : Connection}

theorem mode_step (c : Connection) (e : Event) : (c.step e).1.mode = c.mode := by
  cases e with
  | stream e =>
    simp only [step]
    split <;> rfl
  | onReconnect =>
    simp only [step]
    split <;> rfl
  | complete i ok =>
    simp only [step]
    split
    · unfold onComplete
      split
      · unfold connect
        split <;> rfl
      · rfl
      · rfl
      · rfl
    · rfl

theorem toClient_stream {e : Https.Event} (he : isStream e = true) (c : Connection) :
    c.toClient.step e = ((c.step (.stream e)).1.toClient, (c.http.step e).2) := by
  rw [toClient, step_connecting he]
  simp [step, he, toClient]

theorem connect_eq (hm : c.mode ≠ .http) : ∃ s, c.connect = c.start s := by
  unfold connect
  split
  · exact ⟨_, rfl⟩
  · exact ⟨_, rfl⟩
  · next h => exact absurd h hm

/-- A stage ends: another one begins, or the connection has failed, or is there. -/
theorem onComplete_cases (s : Stage) (ok : Bool) (hm : c.mode ≠ .http) :
    (∃ s', c.onComplete s ok = c.start s' ∧
      (s = .connect ∨ s ≠ .onHandshake ∧ ok = true)) ∨
    (c.onComplete s ok = c.fail ∧ s ≠ .connect ∧ ok = false) ∨
    (c.onComplete s ok = c.onHandshake ∧ s = .onHandshake ∧ ok = true) := by
  by_cases hs : s = .connect
  · subst hs
    obtain ⟨s', hs'⟩ := connect_eq hm
    exact .inl ⟨s', hs', .inl rfl⟩
  · cases ok with
    | false => exact .inr (.inl ⟨by cases s <;> first | rfl | exact absurd rfl hs, hs, rfl⟩)
    | true =>
      by_cases hh : s = .onHandshake
      · subst hh
        exact .inr (.inr ⟨rfl, rfl, rfl⟩)
      · refine .inl ⟨s.follower, ?_, .inr ⟨hh, rfl⟩⟩
        cases s <;> first | rfl | exact absurd rfl hs | exact absurd rfl hh

theorem filterMap_io (os : List Io) (broken : Bool) :
    (os.map .io ++ if broken then [.broken] else [] : List Out).filterMap Out.io? = os := by
  induction os with
  | nil => cases broken <;> rfl
  | cons o os ih => exact congrArg (o :: ·) ih

/-- Every step is one of the client of the requests, or none. -/
theorem follows_client (hm : c.mode ≠ .http) (e : Event) :
    (c.step e).1.toClient = client.run c.toClient (c.label e) ∧
      (c.step e).2.filterMap Out.io? = client.emitted c.toClient (c.label e) := by
  cases e with
  | stream e =>
    by_cases he : isStream e = true
    · have hs := toClient_stream he c
      have hlabel : c.label (.stream e) = [e] := if_pos he
      rw [hlabel, Machine.run_cons, Machine.run_nil, Machine.emitted_cons, Machine.emitted_nil,
        List.append_nil]
      refine ⟨(congrArg Prod.fst hs).symm, ?_⟩
      show _ = (c.toClient.step e).2
      rw [hs]
      simp only [step, if_pos he]
      exact filterMap_io _ _
    · simp [step, label, he]
  | onReconnect =>
    simp only [step, label, Machine.run_cons, Machine.run_nil, Machine.emitted_cons,
      Machine.emitted_nil, client, Client.step, toClient]
    split <;> simp
  | complete i ok =>
    cases hs : c.stages[i]? with
    | none => simp [step, label, hs]
    | some s =>
      obtain ⟨hi, -⟩ := List.getElem?_eq_some_iff.mp hs
      have hpos : 0 < c.stages.length := Nat.zero_lt_of_lt hi
      have hlength := List.length_eraseIdx_of_lt hi
      have hcases := onComplete_cases s ok (c := { c with stages := c.stages.eraseIdx i }) hm
      have hstep : c.step (.complete i ok) =
          ({ c with stages := c.stages.eraseIdx i } : Connection).onComplete s ok := by
        simp only [step, hs]
      rw [hstep]
      rcases hcases with ⟨s', he, hlabel⟩ | ⟨he, hne, rfl⟩ | ⟨he, rfl, rfl⟩
      · have hnone : c.label (.complete i ok) = [] := by
          rcases hlabel with rfl | ⟨hh, rfl⟩
          · simp [label, hs]
          · cases s <;> simp_all [label]
        rw [he, hnone]
        refine ⟨?_, rfl⟩
        simp only [start, toClient, Machine.run_nil, List.length_append, List.length_singleton,
          hlength, Nat.sub_add_cancel hpos]
      · have hone : c.label (.complete i false) = [.connectFailed] := by
          cases s <;> simp_all [label]
        rw [he, hone]
        simp [fail, toClient, client, Client.step, hlength, hpos, Out.io?]
      · have hone : c.label (.complete i true) = [.onHandshake] := by simp [label, hs]
        rw [he, hone]
        simp [onHandshake, toClient, client, Client.step, hlength, hpos, Out.io?]

/-- Through a proxy or not, whatever the order of steps and completions, the client of the
requests goes through a run of its own, and does the same with the stream and its owner. -/
theorem runs_as_client {mode : ProxyMode} (hm : mode ≠ .http) (es : List Event) :
    (connection.run (init mode) es).toClient =
        client.run Client.init (connection.expanded label (init mode) es) ∧
      (connection.emitted (init mode) es).filterMap Out.io? =
        client.emitted Client.init (connection.expanded label (init mode) es) := by
  have hnext (c : Connection) (s : Client) (e : Event) (h : c.mode ≠ .http ∧ s = c.toClient) :
      (connection.next c e).mode ≠ .http ∧
        client.run s (c.label e) = (connection.next c e).toClient := by
    obtain ⟨hm, rfl⟩ := h
    exact ⟨(mode_step c e).symm ▸ hm, (follows_client hm e).1.symm⟩
  have hinit : (init mode).mode ≠ .http ∧ Client.init = (init mode).toClient := ⟨hm, rfl⟩
  constructor
  · exact (Machine.state_expanded (R := fun (c : Connection) s => c.mode ≠ .http ∧ s = c.toClient) hnext
      hinit es).2.symm
  · refine Machine.emitted_expanded (R := fun (c : Connection) s => c.mode ≠ .http ∧ s = c.toClient) hnext
      (fun c s e h => ?_) hinit es
    obtain ⟨hm, rfl⟩ := h
    exact (follows_client hm e).2

/-- A proxy that is reached, and a request made meanwhile. -/
def proxied : List Event :=
  [.complete 0 true, .complete 0 true, .complete 0 true, .stream (.request 1 1), .complete 0 true,
    .complete 0 true, .complete 0 true, .stream (.onHandshakeLocked 2)]

theorem runs_as_client_proxied : ProxyMode.socks4a ≠ .http ∧
    (connection.emitted (init .socks4a) proxied).filterMap Out.io? =
      client.emitted Client.init [.request 1 1, .onHandshake, .onHandshakeLocked 2] := by
  have hlabels : connection.expanded label (init .socks4a) proxied =
      [.request 1 1, .onHandshake, .onHandshakeLocked 2] := rfl
  exact ⟨by decide, hlabels ▸ (runs_as_client (by decide) proxied).2⟩

/-! ### Attempts to connect -/

def Out.connected : Out → ℕ
  | .connectHandler true => 1
  | _ => 0

def Out.failed : Out → ℕ
  | .broken => 1
  | _ => 0

/-- Attempts that are under way or posted. -/
def attempts (c : Connection) : ℕ := c.stages.length + c.http.reconnects

theorem reconnects_doWrite (time : UInt32) (s : Client) :
    (s.doWrite time).1.reconnects = s.reconnects := by
  unfold Client.doWrite
  cases s.reqRespList <;> rfl

/-- An operation that ends with an error posts a call of `on_reconnect`; nothing else does. -/
theorem reconnects_stream {e : Https.Event} (he : isStream e = true) (s : Client) :
    (s.step e).1.reconnects = s.reconnects + if loses s e then 1 else 0 := by
  cases e with
  | request now time =>
    simp only [Client.step, Client.request]
    split
    · rw [reconnects_doWrite]
      rfl
    · rfl
  | resetRequests | cleanupRequests => rfl
  | onWrite i ok =>
    cases ok with
    | false =>
      rcases hop : s.ops[i]? with _ | (uid | ⟨sent, uid⟩) <;>
        simp [Client.step, loses, hop, Client.onWrite, Client.fail]
    | true =>
      simp only [Client.step]
      split
      · simp only [Client.onWrite, if_true]
        split <;> rfl
      · rfl
  | onRead i ok =>
    cases ok with
    | false =>
      rcases hop : s.ops[i]? with _ | (uid | ⟨sent, uid⟩) <;>
        simp [Client.step, loses, hop, Client.onRead, Client.fail]
    | true =>
      simp only [Client.step]
      split
      · simp only [Client.onRead, if_true]
        split <;> rfl
      · rfl
  | onReadLocked | onHandshakeLocked =>
    simp only [Client.step]
    split
    · rw [reconnects_doWrite]
      rfl
    · rfl
  | onReconnect | connectFailed | onHandshake => cases he

theorem loses_of_idle {s : Client} (h : s.ops = []) (e : Https.Event) : loses s e = false := by
  unfold loses
  split <;> simp [h]

theorem total_io (f : Out → ℕ) (hf : ∀ o, f (.io o) = 0) (os : List Io) :
    total f (os.map .io) = 0 := by
  rw [total_eq_zero]
  intro o ho
  obtain ⟨o, -, rfl⟩ := List.mem_map.mp ho
  exact hf o

/-- A failed operation begins an attempt, and a connection ends one. -/
theorem attempts_step (hm : c.mode ≠ .http) (e : Event) :
    c.attempts + total Out.failed (c.step e).2 =
      total Out.connected (c.step e).2 + (c.step e).1.attempts := by
  cases e with
  | stream e =>
    by_cases he : isStream e = true
    · have hr := reconnects_stream he c.http
      simp only [step, if_pos he, attempts, total_append, total_io Out.failed (fun _ => rfl),
        total_io Out.connected (fun _ => rfl), hr]
      cases loses c.http e
      · simp
      · simp only [if_true, total_cons, total_nil, Out.failed, Out.connected]
        omega
    · simp [step, he]
  | onReconnect =>
    simp only [step]
    split
    · simp only [attempts, total_nil, List.length_append, List.length_singleton]
      omega
    · simp
  | complete i ok =>
    cases hs : c.stages[i]? with
    | none => simp [step, hs]
    | some s =>
      obtain ⟨hi, -⟩ := List.getElem?_eq_some_iff.mp hs
      have hlength := List.length_eraseIdx_of_lt hi
      have hcases := onComplete_cases s ok (c := { c with stages := c.stages.eraseIdx i }) hm
      have hstep : c.step (.complete i ok) =
          ({ c with stages := c.stages.eraseIdx i } : Connection).onComplete s ok := by
        simp only [step, hs]
      rw [hstep]
      rcases hcases with ⟨s', he, -⟩ | ⟨he, -⟩ | ⟨he, -⟩
      · simp only [he, start, attempts, total_cons, total_nil, Out.failed, Out.connected,
          List.length_append, List.length_singleton]
        omega
      · simp only [he, fail, attempts, total_cons, total_nil, Out.failed, Out.connected]
        omega
      · simp only [he, onHandshake, attempts, total_cons, total_nil, Out.failed, Out.connected]
        omega

/-- Nothing is under way, or only the call that does nothing. -/
structure Dead (c : Connection) : Prop where
  mode : c.mode = .http
  stages : ∀ s ∈ c.stages, s = .connect
  ready : c.http.ready = false
  ops : c.http.ops = []
  answered : c.http.answered = []
  greeted : c.http.greeted = 0
  reconnects : c.http.reconnects = 0

theorem dead_step (h : c.Dead) (e : Event) : (c.step e).1.Dead ∧ (c.step e).2 = [] := by
  cases e with
  | stream e =>
    cases e with
    | request | resetRequests | cleanupRequests | onWrite | onRead | onReadLocked
    | onHandshakeLocked =>
      refine ⟨⟨h.mode, h.stages, ?_, ?_, ?_, ?_, ?_⟩, ?_⟩ <;>
        simp [step, isStream, Client.step, Client.request, h.ready, h.ops, h.answered, h.greeted,
          h.reconnects, loses_of_idle h.ops]
    | onReconnect | connectFailed | onHandshake => exact ⟨h, rfl⟩
  | onReconnect => simp [step, h.reconnects, h]
  | complete i ok =>
    cases hs : c.stages[i]? with
    | none => simp [step, hs, h]
    | some s =>
      have hconnect := h.stages s (List.mem_of_getElem? hs)
      have hnone : ({ c with stages := c.stages.eraseIdx i } : Connection).connect =
          ({ c with stages := c.stages.eraseIdx i }, []) := by simp only [connect, h.mode]
      simp only [step, hs, hconnect, onComplete, hnone]
      exact ⟨{ h with stages := fun s hs => h.stages s (List.mem_of_mem_eraseIdx hs) }, trivial⟩

/-- Every loss of the connection is followed by one attempt after the other until it is there
again, and there are no other attempts; but with an HTTP proxy there is none at all, and the
owner is never told. -/
theorem attempts_continue (mode : ProxyMode) (es : List Event) :
    let c := connection.run (init mode) es
    let os := connection.emitted (init mode) es
    if mode = .http then os = [] ∧ c.http.ready = false
    else 1 + total Out.failed os = total Out.connected os + c.attempts := by
  intro c os
  split
  · next h =>
    have hdead : (init mode).Dead := ⟨h, by simp [init], rfl, rfl, rfl, rfl, rfl⟩
    have hrun := Machine.run_history (M := connection) (P := fun _ _ => True)
      (fun c os => c.Dead ∧ os = []) (fun c os e h _ => by
        obtain ⟨hc, rfl⟩ := h
        exact dead_step hc e) ⟨hdead, rfl⟩ (Machine.along_of_forall _ (fun _ _ => trivial) _ es)
    exact ⟨hrun.2, hrun.1.ready⟩
  · next h =>
    have hm : (init mode).mode ≠ .http := h
    exact Machine.run_balance (M := connection) (P := fun _ _ => True) (fun c => c.mode ≠ .http)
      attempts Out.failed Out.connected (fun c e hm _ => (mode_step c e).symm ▸ hm)
      (fun c e hm _ => attempts_step hm e) hm (Machine.along_of_forall _ (fun _ _ => trivial) _ es)

end Connection

end BotTrader.Https
