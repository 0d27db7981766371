import Mathlib.Data.List.Basic

/-! The client of a websocket stream. Connecting and reading is a chain of operations,
each started by the handler of the one before; after a failure the owner is told, and
connects anew when it wants to. -/

namespace BotTrader.Wss

/-- `connect_state` -/
inductive ConnectState where
  | closed | waitClosed | connecting | connected
  deriving DecidableEq, Repr

/-- The operations of the resolver and the stream, by the names of their handlers. -/
inductive Op where
  | resolve | connect | sslHandshake | handshake | read | close
  deriving DecidableEq, Repr

structure Client where
  connectState : ConnectState := .closed
  stream : String := ""
  /-- Operations that have not completed. -/
  ops : List Op := []
  /-- `connect` was called before; the code has no such field. -/
  attempted : Bool := false

/-- Calls of the owner's callbacks. -/
inductive Io where
  | connectHandler (connect : Bool)
  | dataHandler
  deriving DecidableEq

namespace Client

def start (op : Op) (s : Client) : Client := { s with ops := s.ops ++ [op] }

def connect (s : Client) : Client :=
  { s with connectState := .connecting, attempted := true }.start .resolve

def close (s : Client) : Client := { s with connectState := .waitClosed }.start .close

/-- A name that is not resolved is tried again at once. -/
def onResolve (ok : Bool) (s : Client) : Client × List Io :=
  if ok then (s.start .connect, []) else (s.start .resolve, [.connectHandler false])

def onConnect (ok : Bool) (s : Client) : Client × List Io :=
  if ok then (s.start .sslHandshake, [])
  else ({ s with connectState := .closed }, [.connectHandler false])

def onSslHandshake (ok : Bool) (s : Client) : Client × List Io :=
  if ok then (s.start .handshake, []) else (s.close, [.connectHandler false])

def onHandshake (ok : Bool) (s : Client) : Client × List Io :=
  if ok then ({ s with connectState := .connected }.start .read, [.connectHandler true])
  else (s.close, [.connectHandler false])

def onRead (ok : Bool) (s : Client) : Client × List Io :=
  if ok then (s.start .read, [.dataHandler]) else (s.close, [.connectHandler false])

def onClose (s : Client) : Client × List Io := ({ s with connectState := .closed }, [])

/-- The operation at a position completes. -/
def step (i : ℕ) (ok : Bool) (s : Client) : Client × List Io :=
  let s' := { s with ops := s.ops.eraseIdx i }
  match s.ops[i]? with
  | some .resolve => s'.onResolve ok
  | some .connect => s'.onConnect ok
  | some .sslHandshake => s'.onSslHandshake ok
  | some .handshake => s'.onHandshake ok
  | some .read => s'.onRead ok
  | some .close => s'.onClose
  | none => (s, [])

/-! ### One operation at a time -/

end Client

/-- The state while the operation is outstanding. -/
def Op.during : Op → ConnectState
  | read => .connected
  | close => .waitClosed
  | _ => .connecting

namespace Client

/-- The state tells which operation is outstanding: none of a closed stream, else one. -/
def Paired (s : Client) : Prop :=
  s.connectState = .closed ∧ s.ops = [] ∨ ∃ op, s.ops = [op] ∧ s.connectState = op.during

/-- Neither connected nor about to be. -/
def Down (s : Client) : Prop := s.connectState = .closed ∨ s.connectState = .waitClosed

instance (s : Client) : Decidable s.Down :=
  inferInstanceAs (Decidable (s.connectState = .closed ∨ s.connectState = .waitClosed))

variable {s : Client}

theorem Paired.connect (h : s.Paired) (hc : s.connectState = .closed) : s.connect.Paired := by
  rcases h with ⟨-, ho⟩ | ⟨op, -, hs⟩
  · exact .inr ⟨.resolve, by simp [Client.connect, start, ho], rfl⟩
  · rw [hc] at hs
    cases op <;> exact absurd hs (by decide)

/-- A completion leaves the stream paired. It keeps it up, finds it down already, or
reports that it is down. -/
theorem Paired.step (h : s.Paired) (i : ℕ) (ok : Bool) :
    (s.step i ok).1.Paired ∧ (s.step i ok).1.attempted = s.attempted ∧
      ((s.step i ok).1.Down → s.Down ∨ .connectHandler false ∈ (s.step i ok).2) := by
  rcases h with ⟨hc, ho⟩ | ⟨op, ho, hs⟩
  · have hn : s.step i ok = (s, []) := by simp [Client.step, ho]
    rw [hn]
    exact ⟨.inl ⟨hc, ho⟩, rfl, .inl⟩
  · cases i with
    | succ i =>
      have hn : s.step (i + 1) ok = (s, []) := by simp [Client.step, ho]
      rw [hn]
      exact ⟨.inr ⟨op, ho, hs⟩, rfl, .inl⟩
    | zero =>
      have hd : op = .close → s.Down := fun hop => .inr (by rw [hs, hop]; rfl)
      cases op <;> cases ok <;>
        simp_all [Client.step, onResolve, onConnect, onSslHandshake, onHandshake, onRead, onClose,
          Client.close, start, Paired, Down, Op.during]

end Client

end BotTrader.Wss
