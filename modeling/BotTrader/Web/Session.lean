import BotTrader.Web.Sessions
import BotTrader.Web.Writer

/-! A web session at work: its handshakes, its reads, its writer, and the pings by which it finds
out that its client has gone. Everything runs on the strand of the session; what was begun
completes in any order, the websocket can close at any time, and pongs come when they like. -/

namespace BotTrader.Web

open Automata

/-- The rest of a `session`, with what it has begun and what has not completed. -/
structure SessionIo where
  handshaking : Bool := true
  accepting : Bool := false
  reading : Bool := false
  /-- The callback for control frames is set. -/
  opened : Bool := false
  pingCounter : ℤ := 3
  pings : ℕ := 0
  waits : ℕ := 0
  /-- Handlers of the timer that are queued. One whose wait was cancelled does what the others
  do. -/
  due : ℕ := 0
  closing : ℕ := 0
  closed : Bool := false
  writer : Writer := { isOpen := false }

namespace SessionIo

inductive Event where
  | onHandshake (ok : Bool)
  | onAccept (ok : Bool)
  /-- A message, or a failed read. -/
  | onRead (msg : Option Bytes)
  | onSend (ss : Bytes)
  | onWrite (i : ℕ) (ok : Bool)
  | onClose
  | onPing (ok : Bool)
  | expire
  | onPingTimer
  /-- A control frame, by which the client answers. -/
  | control
  /-- The websocket is not open any more. -/
  | lost

inductive Out where
  | asyncAccept
  | controlCallback
  | asyncRead
  | receive (msg : Bytes)
  | writer (o : Writer.Out)
  | asyncClose
  | disconnect
  | asyncPing
  | asyncWait
  /-- `shutdown` and `close` of the socket. -/
  | shutdown

/-- `m_ping_timer.cancel()` -/
def cancel (s : SessionIo) : SessionIo := { s with waits := 0, due := s.due + s.waits }

/-- `on_ping_timer` -/
def pingTimer (s : SessionIo) : SessionIo × List Out :=
  if s.writer.isOpen then
    let s := { s with pingCounter := s.pingCounter - 1 }
    if 0 < s.pingCounter then ({ s with pings := s.pings + 1 }, [.asyncPing]) else (s, [.shutdown])
  else (s, [.shutdown])

/-- `on_ping`, which cancels the wait before -/
def ping (s : SessionIo) (ok : Bool) : SessionIo × List Out :=
  if ok then ({ s.cancel with waits := 1 }, [.asyncWait]) else (s, [])

/-- `on_accept`, which calls the handler of the timer itself -/
def accept (s : SessionIo) (ok : Bool) : SessionIo × List Out :=
  if ok then
    let s := { s with opened := true, writer := { s.writer with isOpen := true }, pingCounter := 4 }
    let r := s.pingTimer
    ({ r.1 with reading := true }, .controlCallback :: r.2 ++ [.asyncRead])
  else (s, [])

def read (s : SessionIo) : Option Bytes → SessionIo × List Out
  | some msg => ({ s with reading := true }, [.receive msg, .asyncRead])
  | none => ({ s.cancel with closing := s.closing + 1 }, [.asyncClose])

/-- What the writer asks for; it closes the websocket after an error. -/
def write (s : SessionIo) (ok : Bool) : SessionIo × List Out :=
  let s := if ok then s else { s.cancel with closing := s.closing + 1 }
  let r := s.writer.onWrite ok
  ({ s with writer := r.1 }, r.2.map .writer)

def handle (s : SessionIo) : Event → SessionIo × List Out
  | .onHandshake ok =>
    if s.handshaking then
      if ok then ({ s with handshaking := false, accepting := true }, [.asyncAccept])
      else ({ s with handshaking := false }, [])
    else (s, [])
  | .onAccept ok => if s.accepting then { s with accepting := false }.accept ok else (s, [])
  | .onRead msg => if s.reading then { s with reading := false }.read msg else (s, [])
  | .onSend ss =>
    let r := s.writer.onSend ss
    ({ s with writer := r.1 }, r.2.map .writer)
  | .onWrite i ok =>
    if i < s.writer.writes.length then
      { s with writer := { s.writer with writes := s.writer.writes.eraseIdx i } }.write ok
    else (s, [])
  | .onClose =>
    if 0 < s.closing then ({ s with closing := s.closing - 1, closed := true }, [.disconnect])
    else (s, [])
  | .onPing ok => if 0 < s.pings then { s with pings := s.pings - 1 }.ping ok else (s, [])
  | .expire => ({ s with waits := 0, due := s.due + s.waits }, [])
  | .onPingTimer => if 0 < s.due then { s with due := s.due - 1 }.pingTimer else (s, [])
  | .control => if s.opened then ({ s with pingCounter := 3 }, []) else (s, [])
  | .lost => ({ s with writer := { s.writer with isOpen := false } }, [])

end SessionIo

/-- A session, from `run` on. -/
def session : Machine SessionIo SessionIo.Event SessionIo.Out where
  next s e := (s.handle e).1
  emit s e := (s.handle e).2

namespace SessionIo

/-! ### One round at a time -/

/-- Pings, waits and handlers of the timer under way. -/
def rounds (s : SessionIo) : ℕ := s.pings + s.waits + s.due

/-- The pings since the client last answered, if it has. -/
structure Count where
  pings : ℕ := 0
  answered : Bool := false

def Count.after (c : Count) : Event ⊕ Out → Count
  | .inl .control => ⟨0, true⟩
  | .inr .controlCallback => ⟨0, false⟩
  | .inr .asyncPing => { c with pings := c.pings + 1 }
  | _ => c

def counted (h : List (Event ⊕ Out)) : Count := h.foldl Count.after {}

/-- How many pings a client may leave without an answer: the first time one more. -/
def Count.patience (c : Count) : ℕ := if c.answered then 2 else 3

variable {s : SessionIo} {c : Count}

/-- The handshakes come one after the other, and before the callback is set. -/
def Staged (s : SessionIo) : Prop :=
  (s.handshaking = true → s.accepting = false ∧ s.opened = false) ∧
    (s.accepting = true → s.opened = false)

theorem Staged.not_handshaking (h : s.Staged) (ha : s.accepting = true) : s.handshaking = false := by
  cases hh : s.handshaking with
  | false => rfl
  | true => exact absurd (ha.symm.trans (h.1 hh).1) (by decide)

theorem Staged.over (h : s.Staged) (ho : s.opened = true) :
    s.handshaking = false ∧ s.accepting = false := by
  constructor
  · cases hh : s.handshaking with
    | false => rfl
    | true => exact absurd (ho.symm.trans (h.1 hh).2) (by decide)
  · cases ha : s.accepting with
    | false => rfl
    | true => exact absurd (ho.symm.trans (h.2 ha)) (by decide)

/-- One round at most is under way, once the websocket is open, and the counter has what is left
of the patience. -/
structure Beats (s : SessionIo) (c : Count) : Prop where
  staged : s.Staged
  before : s.opened = false → s.rounds = 0
  one : s.rounds ≤ 1
  counter : s.rounds = 1 → s.pingCounter = c.patience + 1 - c.pings
  within : s.rounds = 1 → c.pings ≤ c.patience

theorem beats_of_over (h : s.Staged) (hr : s.rounds = 0) : Beats s c where
  staged := h
  before := fun _ => hr
  one := by omega
  counter := by omega
  within := by omega

/-- What leaves the rounds and the counter alone. -/
theorem Beats.congr (h : Beats s c) {s' : SessionIo} (hst : s'.Staged) (ho : s'.opened = s.opened)
    (hr : s'.rounds = s.rounds) (hp : s'.pingCounter = s.pingCounter) : Beats s' c where
  staged := hst
  before := fun h' => hr ▸ h.before (ho ▸ h')
  one := hr ▸ h.one
  counter := fun h' => hp ▸ h.counter (hr ▸ h')
  within := fun h' => h.within (hr ▸ h')

/-- The next round, when the last one is over. -/
theorem beats_pingTimer (hst : s.Staged) (ho : s.opened = true) (hr : s.rounds = 0)
    (hc : s.pingCounter = c.patience + 1 - c.pings) :
    Beats s.pingTimer.1 ((s.pingTimer.2.map .inr).foldl Count.after c) := by
  unfold pingTimer
  split
  · simp only
    split
    · next hpos =>
      have hpatience : ({ c with pings := c.pings + 1 } : Count).patience = c.patience := rfl
      have hleft : c.pings < c.patience := by omega
      constructor
      case staged => exact hst
      case before => exact fun h => absurd (ho.symm.trans h) (by decide)
      case one =>
        simp only [rounds] at hr ⊢
        omega
      case counter =>
        intro _
        simp only [List.map_cons, List.map_nil, List.foldl_cons, List.foldl_nil, Count.after]
        rw [hpatience]
        omega
      case within => exact fun _ => hleft
    · exact beats_of_over hst hr
  · exact beats_of_over hst hr

/-- A cancelled wait still has its handler called. -/
theorem rounds_cancel (s : SessionIo) : s.cancel.rounds = s.rounds := by
  simp only [cancel, rounds]
  omega

/-- What the writer does counts for nothing. -/
theorem foldl_writer (c : Count) (os : List Writer.Out) :
    ((os.map Out.writer).map .inr).foldl Count.after c = c := by
  induction os with
  | nil => rfl
  | cons o os ih => exact ih

/-- The first round begins when the handshakes are over. -/
theorem beats_accept (h : Beats s c) (ha : s.accepting = true) :
    Beats (s.handle (.onAccept true)).1
      ((.inl (.onAccept true) :: (s.handle (.onAccept true)).2.map .inr).foldl Count.after c) := by
  have hh := h.staged.not_handshaking ha
  let s₀ : SessionIo := { s with
    accepting := false, opened := true, writer := { s.writer with isOpen := true }, pingCounter := 4 }
  have hnext : Beats s₀.pingTimer.1 ((s₀.pingTimer.2.map .inr).foldl Count.after ⟨0, false⟩) :=
    beats_pingTimer ⟨fun h' => absurd (hh.symm.trans h') (by decide), by simp [s₀]⟩ rfl
      (h.before (h.staged.2 ha)) rfl
  have hstep : s.handle (.onAccept true) =
      ({ s₀.pingTimer.1 with reading := true },
        .controlCallback :: s₀.pingTimer.2 ++ [.asyncRead]) := by
    simp [handle, ha, accept, s₀]
  have hcount (os : List Out) : (.inl (.onAccept true) ::
      (Out.controlCallback :: os ++ [Out.asyncRead]).map .inr).foldl Count.after c =
        (os.map .inr).foldl Count.after ⟨0, false⟩ := by
    simp [List.foldl_append, Count.after]
  rw [hstep, hcount]
  exact hnext.congr hnext.staged rfl rfl rfl

theorem beats_handle (h : Beats s c) (e : Event) :
    Beats (s.handle e).1 ((.inl e :: (s.handle e).2.map .inr).foldl Count.after c) := by
  have hst := h.staged
  have hone := h.one
  cases e with
  | onHandshake ok =>
    simp only [handle]
    split
    · next hh =>
      obtain ⟨-, ho⟩ := hst.1 hh
      split
      · exact h.congr ⟨by simp, fun _ => ho⟩ rfl rfl rfl
      · exact h.congr ⟨by simp, hst.2⟩ rfl rfl rfl
    · exact h
  | onAccept ok =>
    by_cases ha : s.accepting = true
    · cases ok with
      | true => exact beats_accept h ha
      | false =>
        simp only [handle, ha, if_true]
        exact h.congr ⟨fun hh => ⟨rfl, (hst.1 hh).2⟩, by simp [accept]⟩ rfl rfl rfl
    · simp only [handle, if_neg ha]
      exact h
  | onRead msg =>
    simp only [handle]
    split
    · cases msg with
      | some msg => exact h.congr hst rfl rfl rfl
      | none => exact h.congr hst rfl (rounds_cancel s) rfl
    · exact h
  | onSend ss =>
    simp only [handle, List.foldl_cons, foldl_writer]
    exact h.congr hst rfl rfl rfl
  | onWrite i ok =>
    simp only [handle]
    split
    · simp only [write, List.foldl_cons, foldl_writer]
      cases ok with
      | true => exact h.congr hst rfl rfl rfl
      | false => exact h.congr hst rfl (rounds_cancel s) rfl
    · exact h
  | onClose =>
    simp only [handle]
    split <;> exact h.congr hst rfl rfl rfl
  | onPing ok =>
    simp only [handle]
    split
    · next hp =>
      simp only [rounds] at hone
      cases ok with
      | true =>
        refine h.congr hst rfl ?_ rfl
        simp only [ping, cancel, rounds, if_true]
        omega
      | false =>
        refine beats_of_over hst ?_
        simp only [ping, rounds, Bool.false_eq_true, if_false]
        omega
    · exact h
  | expire => exact h.congr hst rfl (rounds_cancel s) rfl
  | onPingTimer =>
    by_cases hd : 0 < s.due
    · have hr : s.rounds = 1 := by
        simp only [rounds] at hone ⊢
        omega
      have ho : s.opened = true := by
        cases ho : s.opened with
        | true => rfl
        | false =>
          have hzero := h.before ho
          omega
      have hover : ({ s with due := s.due - 1 } : SessionIo).rounds = 0 := by
        simp only [rounds] at hone ⊢
        omega
      have hnext : Beats _ _ := beats_pingTimer (c := c) (s := { s with due := s.due - 1 }) hst ho
        hover (h.counter hr)
      simp only [handle, if_pos hd]
      exact hnext
    · simp only [handle, if_neg hd]
      exact h
  | control =>
    simp only [handle]
    split
    · exact ⟨hst, h.before, hone, fun _ => rfl, fun _ => Nat.zero_le _⟩
    · next ho =>
      exact beats_of_over hst (h.before (by simpa using ho))
  | lost => exact h.congr hst rfl rfl rfl

theorem beats_run (es : List Event) :
    Beats (session.run {} es) (counted (session.trace {} es)) := by
  have hinit : Beats {} (counted []) := beats_of_over ⟨fun _ => ⟨rfl, rfl⟩, by decide⟩ rfl
  have hrun := Machine.run_trace (M := session) (P := fun _ _ => True)
    (fun s h => Beats s (counted h)) (fun s h e hb _ => by
      rw [counted, List.foldl_append]
      exact beats_handle hb e) hinit (Machine.along_of_forall _ (fun _ _ => trivial) _ es)
  rwa [List.nil_append] at hrun

/-! ### The end of a silent client -/

theorem shutdown_mem_pingTimer :
    .shutdown ∈ s.pingTimer.2 ↔ s.writer.isOpen = false ∨ s.pingCounter ≤ 1 := by
  unfold pingTimer
  split
  · next ho =>
    simp only [ho, Bool.true_eq_false, false_or]
    split
    · simp only [List.mem_singleton, reduceCtorEq, false_iff]
      omega
    · simp only [List.mem_singleton, true_iff]
      omega
  · next ho =>
    simp only [List.mem_singleton, true_iff]
    exact .inl (by simpa using ho)

/-- Only the handler of the timer shuts the socket down. -/
theorem shutdown_notMem {e : Event} (he : e ≠ .onPingTimer) : .shutdown ∉ (s.handle e).2 := by
  cases e with
  | onPingTimer => exact absurd rfl he
  | onHandshake ok =>
    simp only [handle]
    split
    · cases ok <;> simp
    · simp
  | onAccept ok =>
    simp only [handle]
    split
    · unfold accept
      cases ok with
      | true => simp [shutdown_mem_pingTimer]
      | false => simp
    · simp
  | onRead msg =>
    simp only [handle]
    split
    · cases msg <;> simp [read]
    · simp
  | onSend ss => simp [handle]
  | onWrite i ok =>
    simp only [handle]
    split <;> simp [write]
  | onClose =>
    simp only [handle]
    split <;> simp
  | onPing ok =>
    simp only [handle]
    split
    · cases ok <;> simp [ping]
    · simp
  | expire => simp [handle]
  | control =>
    simp only [handle]
    split <;> simp
  | lost => simp [handle]

/-- In every run, the handler of the timer shuts the socket down if and only if the websocket is
not open, or the client has left the third ping without an answer, or the second one if it had
answered before. Nothing else shuts it down. -/
theorem shutdown_iff (es : List Event) (e : Event) :
    let s := session.run {} es
    .shutdown ∈ (s.handle e).2 ↔ e = .onPingTimer ∧ 0 < s.due ∧
      (s.writer.isOpen = false ∨
        (counted (session.trace {} es)).pings = (counted (session.trace {} es)).patience) := by
  intro s
  have hb : Beats s (counted (session.trace {} es)) := beats_run es
  generalize counted (session.trace {} es) = c at hb ⊢
  by_cases he : e = .onPingTimer
  · subst he
    simp only [handle, true_and]
    split
    · next hd =>
      have hone := hb.one
      have hr : s.rounds = 1 := by
        simp only [rounds] at hone ⊢
        omega
      have hcounter := hb.counter hr
      have hwithin := hb.within hr
      have hmem := shutdown_mem_pingTimer (s := { s with due := s.due - 1 })
      rw [hmem]
      simp only [hd, true_and]
      refine or_congr_right ?_
      omega
    · next hd => simp [hd]
  · simp [he, shutdown_notMem he]

/-- The ping succeeds, and the socket is not shut down. -/
def Lives (s : SessionIo) (e : Event) : Prop := e ≠ .onPing false ∧ .shutdown ∉ (s.handle e).2

theorem rounds_pingTimer (h : .shutdown ∉ s.pingTimer.2) :
    s.pingTimer.1.rounds = s.rounds + 1 := by
  unfold pingTimer at h ⊢
  split at h
  · next ho =>
    simp only [ho, if_true] at h ⊢
    split at h
    · next hp =>
      rw [if_pos hp]
      simp only [rounds]
      omega
    · simp at h
  · simp at h

/-- Only the beginning, a failed ping and the handler of the timer change the number of rounds. -/
theorem rounds_frame {e : Event} (ha : e ≠ .onAccept true) (hp : e ≠ .onPing false)
    (ht : e ≠ .onPingTimer) :
    (s.handle e).1.rounds = s.rounds ∧ (s.handle e).1.opened = s.opened := by
  cases e with
  | onHandshake ok =>
    simp only [handle]
    split
    · cases ok <;> exact ⟨rfl, rfl⟩
    · exact ⟨rfl, rfl⟩
  | onAccept ok =>
    cases ok with
    | true => exact absurd rfl ha
    | false =>
      simp only [handle]
      split <;> exact ⟨rfl, rfl⟩
  | onRead msg =>
    simp only [handle]
    split
    · cases msg with
      | some msg => exact ⟨rfl, rfl⟩
      | none => exact ⟨rounds_cancel s, rfl⟩
    · exact ⟨rfl, rfl⟩
  | onSend ss => exact ⟨rfl, rfl⟩
  | onWrite i ok =>
    simp only [handle]
    split
    · cases ok with
      | true => exact ⟨rfl, rfl⟩
      | false => exact ⟨rounds_cancel s, rfl⟩
    · exact ⟨rfl, rfl⟩
  | onClose =>
    simp only [handle]
    split <;> exact ⟨rfl, rfl⟩
  | onPing ok =>
    cases ok with
    | false => exact absurd rfl hp
    | true =>
      simp only [handle]
      split
      · next hpings =>
        refine ⟨?_, rfl⟩
        simp only [ping, cancel, rounds, if_true]
        omega
      · exact ⟨rfl, rfl⟩
  | expire => exact ⟨rounds_cancel s, rfl⟩
  | onPingTimer => exact absurd rfl ht
  | control =>
    simp only [handle]
    split <;> exact ⟨rfl, rfl⟩
  | lost => exact ⟨rfl, rfl⟩

/-- A round that is over is followed by the next one. -/
theorem rounds_handle (hb : Beats s c) (h : s.opened = true → s.rounds = 1) {e : Event}
    (hl : Lives s e) (ho : (s.handle e).1.opened = true) : (s.handle e).1.rounds = 1 := by
  by_cases ha : e = .onAccept true
  · subst ha
    simp only [handle] at ho ⊢
    split at ho
    · next hacc =>
      have hr := hb.before (hb.staged.2 hacc)
      have hshut : .shutdown ∉ (s.handle (.onAccept true)).2 := hl.2
      simp only [handle, hacc, if_true, accept, List.cons_append, List.mem_cons, reduceCtorEq,
        false_or, List.mem_append, List.not_mem_nil, or_false] at hshut
      rw [if_pos hacc]
      exact (rounds_pingTimer hshut).trans (congrArg (· + 1) hr)
    · next hacc =>
      rw [if_neg hacc]
      exact h ho
  · by_cases ht : e = .onPingTimer
    · subst ht
      simp only [handle] at ho ⊢
      split at ho
      · next hd =>
        have hone := hb.one
        have hshut : .shutdown ∉ (s.handle .onPingTimer).2 := hl.2
        simp only [handle, hd, if_true] at hshut
        rw [if_pos hd, rounds_pingTimer hshut]
        simp only [rounds] at hone ⊢
        omega
      · next hd =>
        rw [if_neg hd]
        exact h ho
    · obtain ⟨hrounds, hopened⟩ := rounds_frame (s := s) ha hl.1 ht
      rw [hrounds]
      exact h (hopened ▸ ho)

/-- In every run in which pings succeed and the socket is not shut down, exactly one ping, wait or
handler of the timer is under way from when the websocket is open. -/
theorem one_round (es : List Event) :
    (session.run {} es).rounds ≤ 1 ∧ (session.Along Lives {} es →
      (session.run {} es).opened = true → (session.run {} es).rounds = 1) := by
  refine ⟨(beats_run es).one, fun hl => ?_⟩
  have hrun := Machine.run_invariant (M := session)
    (fun s => (∃ c, Beats s c) ∧ (s.opened = true → s.rounds = 1))
    (fun s e hs hl => ⟨hs.1.elim fun c hb => ⟨_, beats_handle hb e⟩,
      hs.1.elim fun c hb => rounds_handle hb hs.2 hl⟩)
    ⟨⟨_, beats_run []⟩, by decide⟩ hl
  exact hrun.2

end SessionIo

end BotTrader.Web
