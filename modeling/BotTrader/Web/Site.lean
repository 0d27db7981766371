import BotTrader.Automata.Balance
import BotTrader.Automata.Expansion
import BotTrader.Web.Access
import BotTrader.Web.Encode
import BotTrader.Web.Session

/-! The web server with its sessions at work. What the server sends to a session is encoded and
posted to the strand of the session, where the handlers run in the order in which they were
posted; everything else comes in any order. A session calls back the server for a message and
when it is closed. `write_json` is a parameter. -/

namespace BotTrader.Web

open Automata Boost

/-- The methods that the owner of the server calls. -/
inductive Method where
  | send (data : Payload) (client : ℤ)
  | onPrice (data : Bytes)
  | onBinanceError (data : Bytes)
  | onAccount (data : Bytes)
  | onOrdersList (data : Bytes)
  | onTradeSteps (symbol : String) (posList : List String)

def Method.body (lib : Library) : Method → Srv Unit
  | .send data client => Web.send data client
  | .onPrice data => Web.onPrice lib data
  | .onBinanceError data => Web.onBinanceError lib data
  | .onAccount data => Web.onAccount lib data
  | .onOrdersList data => Web.onOrdersList lib data
  | .onTradeSteps symbol posList => Web.onTradeSteps symbol posList

/-- The server and its sessions, numbered in the order in which they are accepted. -/
structure Site where
  server : Server
  io : ℕ → SessionIo := fun _ => {}
  /-- Arguments of the calls of `on_send` that wait on the strand of a session. -/
  posted : ℕ → List Bytes := fun _ => []
  accepted : ℕ := 0
  alive : Bool := true

namespace SessionIo

def Event.sent : Event → List Bytes
  | .onSend ss => [ss]
  | _ => []

/-- What a session does at its writer. -/
def Out.write? : Out → Option Writer.Out
  | .writer o => some o
  | _ => none

/-- What a session calls back. -/
def Out.callback (lib : Library) (k : ℕ) : Out → Srv Unit
  | .receive msg => onReceive lib k msg
  | .disconnect => onDisconnect k
  | _ => pure ()

end SessionIo

namespace Site

inductive Event where
  | accept
  | session (k : ℕ) (e : SessionIo.Event)
  /-- The next `on_send` on the strand of a session. -/
  | onSend (k : ℕ)
  | owner (m : Method)

inductive Out where
  | server (o : Web.Out)
  | session (k : ℕ) (o : SessionIo.Out)

/-- The server has just started. -/
def init (adminPassword userPassword : String) (interface : Interface)
    (symbolsList : List String) : Site where
  server := (World.init adminPassword userPassword interface symbolsList).server

variable (lib : Library) (printJson : Ptree → Bytes)

/-- The argument of `session::send` -/
def text : Payload → Bytes
  | .tree t => encode64 (printJson t)
  | .text s => encode64 s.toUTF8.data.toList

/-- What is sent to a session. -/
def Out.addressed (k : ℕ) : Out → List Bytes
  | .server (.send j data) => if j = k then [text printJson data] else []
  | _ => []

/-- What a session passes to `async_write`. -/
def Out.written (k : ℕ) : Out → List Bytes
  | .session j (.writer o) => if j = k then o.written else []
  | _ => []

/-- Run a method of the server; `session::send` posts. -/
def call (h : Srv Unit) (s : Site) : Site × List Out :=
  let r := h.run s.server
  let os := r.calls.map .server
  ({ s with
    server := r.state
    alive := r.error.isNone
    posted := fun k => s.posted k ++ os.flatMap (Out.addressed printJson k) }, os)

/-- An event of a session, with what it calls back. -/
def serve (k : ℕ) (e : SessionIo.Event) (s : Site) : Site × List Out :=
  let r := (s.io k).handle e
  let t := { s with io := Function.update s.io k r.1 }.call printJson
    (r.2.forM (SessionIo.Out.callback lib k))
  (t.1, r.2.map (.session k) ++ t.2)

def handle (s : Site) : Event → Site × List Out
  | .accept =>
    let server := { s.server with session := Function.update s.server.session s.accepted {} }
    { s with server := server, accepted := s.accepted + 1 }.call printJson (onConnect s.accepted)
  | .session k e =>
    if k < s.accepted ∧ e.sent = [] then s.serve lib printJson k e else (s, [])
  | .onSend k =>
    match s.posted k with
    | [] => (s, [])
    | ss :: rest =>
      { s with posted := Function.update s.posted k rest }.serve lib printJson k (.onSend ss)
  | .owner m => s.call printJson (m.body lib)

def step (s : Site) (e : Event) : Site × List Out :=
  if s.alive then s.handle lib printJson e else (s, [])

end Site

def site (lib : Library) (printJson : Ptree → Bytes) : Machine Site Site.Event Site.Out where
  next s e := (s.step lib printJson e).1
  emit s e := (s.step lib printJson e).2

namespace SessionIo

/-- The session without its rounds. -/
def face (s : SessionIo) : SessionIo := { s with pingCounter := 3, pings := 0, waits := 0, due := 0 }

/-- Where the session is in the eyes of the server. -/
def link (s : SessionIo) : Link where
  phase :=
    if s.handshaking then .connected else if s.accepting then .secured
    else if s.opened = false then .failed else if s.reading then .reading else .deaf
  closing := s.closing
  closed := s.closed

/-- What the server sees of an event. -/
def labels (k : ℕ) (s : SessionIo) : Event → List Web.Event
  | .onHandshake ok => if s.handshaking then [.onHandshake k ok] else []
  | .onAccept ok => if s.accepting then [.onAccept k ok] else []
  | .onRead (some msg) => if s.reading then [.receive k msg] else []
  | .onRead none => if s.reading then [.readError k] else []
  | .onWrite i ok => if i < s.writer.writes.length ∧ ok = false then [.writeError k] else []
  | .onClose => if 0 < s.closing then [.onClose k] else []
  | _ => []

/-- Neither the writer nor the server has to do with it. -/
def Out.Quiet : Out → Prop
  | .receive _ | .writer _ | .disconnect => False
  | _ => True

/-- What an event can make of a session, but for its rounds. -/
inductive Move (s : SessionIo) : Event → SessionIo → List Out → Prop where
  | quiet {e : Event} {os : List Out} (he : e.sent = []) (hl : ∀ k, s.labels k e = [])
      (hq : ∀ o ∈ os, o.Quiet) : Move s e s os
  | handshake (h : s.handshaking = true) :
      Move s (.onHandshake true) { s with handshaking := false, accepting := true } [.asyncAccept]
  | handshakeFails (h : s.handshaking = true) :
      Move s (.onHandshake false) { s with handshaking := false } []
  | accept {os : List Out} (h : s.accepting = true) (hq : ∀ o ∈ os, o.Quiet) :
      Move s (.onAccept true) { s with
        accepting := false, opened := true, reading := true,
        writer := { s.writer with isOpen := true } } os
  | acceptFails (h : s.accepting = true) : Move s (.onAccept false) { s with accepting := false } []
  | read (h : s.reading = true) (msg : Bytes) :
      Move s (.onRead (some msg)) s [.receive msg, .asyncRead]
  | readFails (h : s.reading = true) :
      Move s (.onRead none) { s with reading := false, closing := s.closing + 1 } [.asyncClose]
  | send (ss : Bytes) :
      Move s (.onSend ss) { s with writer := (s.writer.handle (.onSend ss)).1 }
        ((s.writer.handle (.onSend ss)).2.map .writer)
  | write {i : ℕ} (h : i < s.writer.writes.length) :
      Move s (.onWrite i true) { s with writer := (s.writer.handle (.onWrite i true)).1 }
        ((s.writer.handle (.onWrite i true)).2.map .writer)
  | writeFails {i : ℕ} (h : i < s.writer.writes.length) :
      Move s (.onWrite i false)
        { s with writer := (s.writer.handle (.onWrite i false)).1, closing := s.closing + 1 }
        ((s.writer.handle (.onWrite i false)).2.map .writer)
  | close (h : 0 < s.closing) :
      Move s .onClose { s with closing := s.closing - 1, closed := true } [.disconnect]
  | lost : Move s .lost { s with writer := (s.writer.handle .closed).1 } []

variable {s t : SessionIo} {lib : Library} {k : ℕ} {e : Event} {os : List Out}

theorem face_pingTimer (s : SessionIo) : s.pingTimer.1.face = s.face := by
  unfold pingTimer
  split
  · simp only
    split <;> rfl
  · rfl

theorem quiet_pingTimer (s : SessionIo) : ∀ o ∈ s.pingTimer.2, o.Quiet := by
  unfold pingTimer
  split
  · simp only
    split <;> simp [Out.Quiet]
  · simp [Out.Quiet]

/-- An event that cannot happen. -/
theorem Move.stay (he : e.sent = []) (hl : ∀ k, s.labels k e = []) : s.Move e s [] :=
  .quiet he hl (by simp)

theorem move_handle (s : SessionIo) (e : Event) :
    s.face.Move e (s.handle e).1.face (s.handle e).2 := by
  cases e with
  | onHandshake ok =>
    by_cases h : s.handshaking = true
    · simp only [handle, h, if_true]
      cases ok with
      | true => exact .handshake h
      | false => exact .handshakeFails h
    · simp only [handle, if_neg h]
      exact .stay rfl fun k => if_neg h
  | onAccept ok =>
    by_cases h : s.accepting = true
    · simp only [handle, h, if_true]
      cases ok with
      | true =>
        simp only [accept, if_true]
        have hf := face_pingTimer { s with
          accepting := false, opened := true, writer := { s.writer with isOpen := true },
          pingCounter := 4 }
        have hq := quiet_pingTimer { s with
          accepting := false, opened := true, writer := { s.writer with isOpen := true },
          pingCounter := 4 }
        generalize pingTimer _ = r at hf hq ⊢
        have hr : ({ r.1 with reading := true } : SessionIo).face =
            { r.1.face with reading := true } := rfl
        rw [hr, hf]
        refine .accept h fun o ho => ?_
        simp only [List.cons_append, List.mem_cons, List.mem_append, List.not_mem_nil, or_false] at ho
        obtain rfl | ho | rfl := ho
        · trivial
        · exact hq o ho
        · trivial
      | false => exact .acceptFails h
    · simp only [handle, if_neg h]
      exact .stay rfl fun k => if_neg h
  | onRead msg =>
    by_cases h : s.reading = true
    · simp only [handle, h, if_true]
      cases msg with
      | some msg =>
        have hs : ({ s.face with reading := true } : SessionIo) = s.face := by
          rw [← h]
          rfl
        have hm := Move.read (s := s.face) h msg
        nth_rewrite 2 [← hs] at hm
        exact hm
      | none => exact .readFails h
    · simp only [handle, if_neg h]
      cases msg <;> exact .stay rfl fun k => if_neg h
  | onSend ss => exact .send ss
  | onWrite i ok =>
    by_cases h : i < s.writer.writes.length
    · have hw : s.writer.handle (.onWrite i ok) =
          ({ s.writer with writes := s.writer.writes.eraseIdx i } : Writer).onWrite ok := by
        simp only [Writer.handle, if_pos h]
      simp only [handle, if_pos h]
      cases ok with
      | true =>
        simp only [write, if_true, ← hw]
        exact .write h
      | false =>
        simp only [write, Bool.false_eq_true, if_false, cancel, ← hw]
        exact .writeFails h
    · simp only [handle, if_neg h]
      exact .stay rfl fun k => if_neg fun hi => h hi.1
  | onClose =>
    by_cases h : 0 < s.closing
    · simp only [handle, if_pos h]
      exact .close h
    · simp only [handle, if_neg h]
      exact .stay rfl fun k => if_neg h
  | onPing ok =>
    simp only [handle]
    split
    · cases ok with
      | true => exact .quiet rfl (fun _ => rfl) (by simp [ping, Out.Quiet])
      | false => exact .stay rfl fun _ => rfl
    · exact .stay rfl fun _ => rfl
  | expire => exact .stay rfl fun _ => rfl
  | onPingTimer =>
    simp only [handle]
    split
    · rw [face_pingTimer]
      exact .quiet rfl (fun _ => rfl) (quiet_pingTimer _)
    · exact .stay rfl fun _ => rfl
  | control =>
    simp only [handle]
    split <;> exact .stay rfl fun _ => rfl
  | lost => exact .lost

/-- Nothing is read or written before the websocket is open. -/
structure Ready (s : SessionIo) : Prop where
  staged : s.Staged
  reading : s.reading = true → s.opened = true
  silent : s.opened = false → s.writer = { isOpen := false }
  fifo : s.writer.Fifo

theorem ready_init : Ready {} where
  staged := ⟨fun _ => ⟨rfl, rfl⟩, by decide⟩
  reading := by decide
  silent _ := rfl
  fifo := .idle rfl (by decide)

theorem ready_face : s.face.Ready ↔ s.Ready :=
  ⟨fun h => ⟨h.staged, h.reading, h.silent, h.fifo⟩, fun h => ⟨h.staged, h.reading, h.silent, h.fifo⟩⟩

theorem Ready.writing (hr : s.Ready) {i : ℕ} (hi : i < s.writer.writes.length) :
    s.opened = true := by
  cases ho : s.opened with
  | true => rfl
  | false => simp [hr.silent ho] at hi

theorem Move.opened (h : s.Move e t os) (ho : s.opened = true) : t.opened = true := by
  cases h <;> first | exact ho | rfl

/-- The messages of a session pass through its writer. -/
theorem Move.passes (h : s.Move e t os) (hr : s.Ready) :
    s.writer.Passes e.sent (t.writer, os.filterMap Out.write?) := by
  have still {e : Event} {t : SessionIo} {os : List Out} (he : e.sent = []) (ht : t.writer = s.writer)
      (ho : os.filterMap Out.write? = []) :
      s.writer.Passes e.sent (t.writer, os.filterMap Out.write?) := by
    rw [he, ht, ho]
    exact ⟨hr.fifo, by simp⟩
  have quiet {os : List Out} (hq : ∀ o ∈ os, o.Quiet) : os.filterMap Out.write? = [] := by
    refine List.filterMap_eq_nil_iff.mpr fun o ho => ?_
    have hone := hq o ho
    cases o <;> first | rfl | exact hone.elim
  have writes (os : List Writer.Out) : (os.map Out.writer).filterMap Out.write? = os := by
    rw [List.filterMap_map]
    exact List.filterMap_some
  cases h with
  | quiet he hl hq => exact still he rfl (quiet hq)
  | handshake | handshakeFails | acceptFails | read | readFails | close => exact still rfl rfl rfl
  | accept h hq =>
    rw [hr.silent (hr.staged.2 h), quiet hq]
    exact ⟨Writer.fifo_init, rfl⟩
  | send ss =>
    rw [writes]
    exact hr.fifo.handle (.onSend ss)
  | write h =>
    rw [writes]
    exact hr.fifo.handle (.onWrite _ true)
  | writeFails h =>
    rw [writes]
    exact hr.fifo.handle (.onWrite _ false)
  | lost => exact hr.fifo.handle .closed

theorem Move.ready (h : s.Move e t os) (hr : s.Ready) (hs : e.sent ≠ [] → s.opened = true) :
    t.Ready := by
  have hf := (h.passes hr).fifo
  cases h with
  | quiet => exact hr
  | handshake h => exact ⟨⟨by simp, fun _ => (hr.staged.1 h).2⟩, hr.reading, hr.silent, hf⟩
  | handshakeFails h => exact ⟨⟨by simp, hr.staged.2⟩, hr.reading, hr.silent, hf⟩
  | accept h =>
    have hh := hr.staged.not_handshaking h
    exact ⟨⟨fun h' => absurd (hh.symm.trans h') (by decide), by simp⟩, fun _ => rfl, by simp, hf⟩
  | acceptFails h =>
    exact ⟨⟨fun hh => ⟨rfl, (hr.staged.1 hh).2⟩, by simp⟩, hr.reading, hr.silent, hf⟩
  | read => exact hr
  | readFails => exact ⟨hr.staged, by simp, hr.silent, hf⟩
  | send ss =>
    have ho := hs (List.cons_ne_nil _ _)
    exact ⟨hr.staged, hr.reading, fun h => absurd (ho.symm.trans h) (by decide), hf⟩
  | write h | writeFails h =>
    exact ⟨hr.staged, hr.reading, fun h' => absurd ((hr.writing h).symm.trans h') (by decide), hf⟩
  | close => exact ⟨hr.staged, hr.reading, hr.silent, hf⟩
  | lost =>
    refine ⟨hr.staged, hr.reading, fun h => ?_, hf⟩
    show ({ s.writer with isOpen := false } : Writer) = _
    rw [hr.silent h]

/-! ### In the eyes of the server -/

theorem run_callbacks (h : ∀ o ∈ os, o.callback lib k = pure ()) (v : Server) :
    (os.forM (Out.callback lib k)).run v = .done () v [] := by
  induction os with
  | nil => rfl
  | cons o os ih =>
    obtain ⟨ho, hos⟩ := List.forall_mem_cons.mp h
    show (o.callback lib k >>= fun _ => os.forM (Out.callback lib k)).run v = _
    rw [ho, Handler.run_bind_done (Handler.run_pure () v), ih hos]
    rfl

/-- One callback is all there is. -/
theorem run_callback (o : Out) (h : ∀ o ∈ os, o.callback lib k = pure ()) (v : Server) :
    ((o :: os).forM (Out.callback lib k)).run v = (o.callback lib k).run v := by
  show (o.callback lib k >>= fun _ => os.forM (Out.callback lib k)).run v = _
  rw [Handler.run_bind]
  rcases (o.callback lib k).run v with ⟨_, t, calls⟩ | ⟨x, t, calls⟩
  · simp only [run_callbacks h, Outcome.after_done, List.append_nil]
  · rfl

theorem Out.Quiet.callback {o : Out} (h : o.Quiet) : o.callback lib k = pure () := by
  cases o <;> first | rfl | exact h.elim

/-- What an event makes a session call back. -/
theorem Move.callbacks (h : s.Move e t os) (hr : s.Ready) (lib : Library) (k : ℕ) :
    (∀ v, (os.forM (Out.callback lib k)).run v = .done () v []) ∨
      (∃ msg, s.opened = true ∧
        ∀ v, (os.forM (Out.callback lib k)).run v = (onReceive lib k msg).run v) ∨
      ∀ v, (os.forM (Out.callback lib k)).run v = (onDisconnect k).run v := by
  cases h with
  | quiet he hl hq => exact .inl (run_callbacks fun o ho => (hq o ho).callback)
  | accept h hq => exact .inl (run_callbacks fun o ho => (hq o ho).callback)
  | read h msg =>
    exact .inr (.inl ⟨msg, hr.reading h, run_callback _ (by simp [Out.callback])⟩)
  | close => exact .inr (.inr (run_callback _ (by simp)))
  | handshake | handshakeFails | acceptFails | readFails | send | write | writeFails | lost =>
    exact .inl (run_callbacks (by simp [Out.callback]))

variable {w : World}

theorem call_callbacks (ha : w.alive = true) (h : ∀ o ∈ os, o.callback lib k = pure ()) :
    w.call (os.forM (Out.callback lib k)) = (w, []) := by
  simp only [World.call, run_callbacks h, Outcome.state_done, Outcome.error_done, Option.isNone_none,
    Outcome.calls_done, ← ha]

theorem call_callback (w : World) (o : Out) (h : ∀ o ∈ os, o.callback lib k = pure ()) :
    w.call ((o :: os).forM (Out.callback lib k)) = w.call (o.callback lib k) := by
  simp only [World.call, run_callback o h]

/-- The server takes the step that it sees. -/
theorem Move.follows (lib : Library) (h : s.Move e t os) (hr : s.Ready) (ha : w.alive = true)
    (hk : k < w.accepted) (hl : w.link k = s.link) :
    (webServer lib).run w (s.labels k e) =
        ((w.setLink k t.link).call (os.forM (Out.callback lib k))).1 ∧
      (webServer lib).emitted w (s.labels k e) =
        ((w.setLink k t.link).call (os.forM (Out.callback lib k))).2 := by
  have one {e : Web.Event} {r : World × List Web.Out} (he : w.handle lib e = r) :
      (webServer lib).run w [e] = r.1 ∧ (webServer lib).emitted w [e] = r.2 := by
    simp [webServer, World.step, ha, he]
  have none_of {e : Event} (he : s.labels k e = []) (ht : t.link = s.link)
      (hq : ∀ o ∈ os, o.callback lib k = pure ()) :
      (webServer lib).run w (s.labels k e) =
          ((w.setLink k t.link).call (os.forM (Out.callback lib k))).1 ∧
        (webServer lib).emitted w (s.labels k e) =
          ((w.setLink k t.link).call (os.forM (Out.callback lib k))).2 := by
    have hw : w.setLink k t.link = w := by
      rw [ht, ← hl, World.setLink, Function.update_eq_self]
    rw [he, hw, call_callbacks ha hq]
    exact ⟨rfl, rfl⟩
  have change {e : Event} {e' : Web.Event} {l : Link} (he : s.labels k e = [e'])
      (hstep : w.handle lib e' = (w.setLink k l, [])) (ht : t.link = l)
      (hq : ∀ o ∈ os, o.callback lib k = pure ()) :
      (webServer lib).run w (s.labels k e) =
          ((w.setLink k t.link).call (os.forM (Out.callback lib k))).1 ∧
        (webServer lib).emitted w (s.labels k e) =
          ((w.setLink k t.link).call (os.forM (Out.callback lib k))).2 := by
    have halive : (w.setLink k l).alive = true := ha
    rw [he, ht, call_callbacks halive hq]
    exact one hstep
  have hphase : w.phase k = s.link.phase := congrArg Link.phase hl
  cases h with
  | quiet he hl hq => exact none_of (hl k) rfl fun o ho => (hq o ho).callback
  | handshake h =>
    have hp : w.phase k = .connected := hphase.trans (if_pos h)
    refine change (if_pos h) (if_pos ⟨hk, hp⟩) ?_ (by simp [Out.callback])
    rw [hl]
    rfl
  | handshakeFails h =>
    obtain ⟨hacc, ho⟩ := hr.staged.1 h
    have hp : w.phase k = .connected := hphase.trans (if_pos h)
    refine change (if_pos h) (if_pos ⟨hk, hp⟩) ?_ (by simp)
    rw [hl]
    simp [link, hacc, ho]
  | accept h hq =>
    have hh := hr.staged.not_handshaking h
    have hp : w.phase k = .secured := by simp [hphase, link, hh, h]
    refine change (if_pos h) (if_pos hp) ?_ fun o ho => (hq o ho).callback
    rw [hl]
    simp [link, hh]
  | acceptFails h =>
    have hh := hr.staged.not_handshaking h
    have hp : w.phase k = .secured := by simp [hphase, link, hh, h]
    refine change (if_pos h) (if_pos hp) ?_ (by simp)
    rw [hl]
    simp [link, hh, hr.staged.2 h]
  | read h msg =>
    obtain ⟨hh, ha'⟩ := hr.staged.over (hr.reading h)
    have hp : w.phase k = .reading := by simp [hphase, link, hh, ha', hr.reading h, h]
    have hw : w.setLink k s.link = w := by rw [← hl, World.setLink, Function.update_eq_self]
    have hlabel : s.labels k (.onRead (some msg)) = [.receive k msg] := if_pos h
    rw [hw, hlabel, call_callback w _ (by simp [Out.callback])]
    exact one (if_pos hp)
  | readFails h =>
    obtain ⟨hh, ha'⟩ := hr.staged.over (hr.reading h)
    have hp : w.phase k = .reading := by simp [hphase, link, hh, ha', hr.reading h, h]
    refine change (if_pos h) (if_pos hp) ?_ (by simp [Out.callback])
    rw [hl]
    simp [link, hh, ha', hr.reading h]
  | send ss => exact none_of rfl rfl (by simp [Out.callback])
  | write h => exact none_of (if_neg (by simp)) rfl (by simp [Out.callback])
  | writeFails h =>
    obtain ⟨hh, ha'⟩ := hr.staged.over (hr.writing h)
    have hp : w.phase k = .reading ∨ w.phase k = .deaf := by
      rw [hphase]
      cases hreading : s.reading <;> simp [link, hh, ha', hr.writing h, hreading]
    refine change (if_pos ⟨h, rfl⟩) (if_pos hp) ?_ (by simp [Out.callback])
    rw [hl]
    rfl
  | close h =>
    have hc : 0 < (w.link k).closing := by
      rw [hl]
      exact h
    have hlabel : s.labels k .onClose = [.onClose k] := if_pos h
    rw [hlabel, call_callback _ _ (by simp)]
    refine one ((if_pos hc).trans ?_)
    rw [hl]
    rfl
  | lost => exact none_of rfl rfl (by simp)

end SessionIo

namespace Method

/-- The step of the server that the call is. -/
def event : Method → Web.Event
  | .send data client => .send data client
  | .onPrice data => .onPrice data
  | .onBinanceError data => .onBinanceError data
  | .onAccount data => .onAccount data
  | .onOrdersList data => .onOrdersList data
  | .onTradeSteps symbol posList => .onTradeSteps symbol posList

theorem handle_event (lib : Library) (m : Method) (w : World) :
    w.handle lib m.event = w.call (m.body lib) := by
  cases m <;> rfl

theorem tells_body (lib : Library) (m : Method) (v : Server) : Tells (m.body lib) v := by
  cases m with
  | send data client => exact tells_send data client v
  | onPrice data => exact tells_onPrice lib data v
  | onBinanceError data => exact tells_onBinanceError lib data v
  | onAccount data => exact tells_onAccount lib data v
  | onOrdersList data => exact tells_onOrdersList lib data v
  | onTradeSteps symbol posList => exact tells_onTradeSteps symbol posList v

end Method

namespace Site

variable {s : Site} {lib : Library} {printJson : Ptree → Bytes} {k j : ℕ}

/-- The server with what it sees of its sessions. -/
def world (s : Site) : World where
  server := s.server
  link k := (s.io k).link
  accepted := s.accepted
  alive := s.alive

/-- What the server sees of an event. -/
def labels (s : Site) : Event → List Web.Event
  | .accept => [.accept]
  | .session k e => if k < s.accepted ∧ e.sent = [] then (s.io k).labels k e else []
  | .onSend _ => []
  | .owner m => [m.event]

def label (s : Site) (e : Event) : List Web.Event := if s.alive then s.labels e else []

def Out.server? : Out → Option Web.Out
  | .server o => some o
  | .session _ _ => none

/-- Only sessions whose websocket has been opened are known to be clients, or have messages
posted to them. -/
structure Sound (s : Site) : Prop where
  ready : ∀ k, (s.io k).Ready
  fresh : ∀ k, s.accepted ≤ k → s.io k = {}
  ids : ∀ k, 0 ≤ s.server.id k → (s.io k).opened = true
  posted : ∀ k, s.posted k ≠ [] → (s.io k).opened = true

theorem sound_init (adminPassword userPassword : String) (interface : Interface)
    (symbolsList : List String) :
    (init adminPassword userPassword interface symbolsList).Sound where
  ready _ := SessionIo.ready_init
  fresh _ _ := rfl
  ids _ h := absurd h (by show ¬(0 : ℤ) ≤ -1; decide)
  posted _ h := absurd rfl h

/-- A method that gives an id, or sends, to opened sessions only. -/
theorem Sound.call (h : s.Sound) {m : Srv Unit}
    (hid : ∀ j, 0 ≤ (m.run s.server).state.id j → (s.io j).opened = true)
    (hsend : ∀ j data, .send j data ∈ (m.run s.server).calls → (s.io j).opened = true) :
    (s.call printJson m).1.Sound where
  ready := h.ready
  fresh := h.fresh
  ids := hid
  posted k hk := by
    by_cases hp : s.posted k = []
    · simp only [Site.call, hp, List.nil_append, ne_eq, List.flatMap_eq_nil_iff, not_forall] at hk
      obtain ⟨o, ho, hne⟩ := hk
      obtain ⟨o, hmem, rfl⟩ := List.mem_map.mp ho
      cases o with
      | send j data =>
        by_cases hj : j = k
        · subst hj
          exact hsend j data hmem
        · simp [Out.addressed, hj] at hne
      | event => simp [Out.addressed] at hne
    · exact h.posted k hp

theorem Sound.tells (h : s.Sound) {m : Srv Unit} (hm : Tells m s.server) :
    (s.call printJson m).1.Sound := by
  refine h.call (fun j hj => ?_) fun j data hj => ?_
  · rw [hm.1] at hj
    exact h.ids j hj
  · obtain ⟨_, _, he, hid⟩ := hm.2 _ hj
    obtain ⟨rfl, -⟩ := Web.Out.send.inj he
    exact h.ids j hid

/-- A message gives an id to its session only. -/
theorem id_onReceive (lib : Library) (msg : Bytes) (v : Server) (h : j ≠ k) :
    ((onReceive lib k msg).run v).state.id j = v.id j := by
  suffices hs : ∀ v', Received lib v k msg v' → v'.id j = v.id j from
    hs _ (state_onReceive lib k msg v)
  intro v' hr
  cases hr with
  | same => rfl
  | logIn _ _ hl => exact hl.id_of_ne h
  | ready => rw [Server.id_setReady]

theorem Sound.serve (h : s.Sound) (hk : k < s.accepted) {e : SessionIo.Event}
    (hs : e.sent ≠ [] → (s.io k).opened = true) : (s.serve lib printJson k e).1.Sound := by
  have hm := SessionIo.move_handle (s.io k) e
  have hr := SessionIo.ready_face.mpr (h.ready k)
  have hopen (j : ℕ) (ho : (s.io j).opened = true) :
      (Function.update s.io k ((s.io k).handle e).1 j).opened = true := by
    by_cases hj : j = k
    · subst hj
      rw [Function.update_self]
      exact hm.opened ho
    · rwa [Function.update_of_ne hj]
  have hio : ({ s with io := Function.update s.io k ((s.io k).handle e).1 } : Site).Sound := by
    constructor
    case ready =>
      intro j
      by_cases hj : j = k
      · subst hj
        simp only [Function.update_self]
        exact SessionIo.ready_face.mp (hm.ready hr hs)
      · simp only [Function.update_of_ne hj]
        exact h.ready j
    case fresh =>
      intro j hj
      have hne : j ≠ k := fun he => by
        rw [he] at hj
        exact absurd hk (not_lt.mpr hj)
      simp only [Function.update_of_ne hne]
      exact h.fresh j hj
    case ids => exact fun j hj => hopen j (h.ids j hj)
    case posted => exact fun j hj => hopen j (h.posted j hj)
  rcases hm.callbacks hr lib k with hc | ⟨msg, ho, hc⟩ | hc
  · refine hio.call (fun j hj => ?_) fun j data hj => ?_
    · rw [hc] at hj
      exact hio.ids j hj
    · rw [hc] at hj
      exact absurd hj List.not_mem_nil
  · refine hio.call (fun j hj => ?_) fun j data hj => ?_
    · rw [hc] at hj
      by_cases hjk : j = k
      · subst hjk
        exact hopen j ho
      · rw [id_onReceive lib msg _ hjk] at hj
        exact hio.ids j hj
    · rw [hc] at hj
      obtain rfl := World.eq_of_send hj
      exact hopen j ho
  · refine hio.call (fun j hj => ?_) fun j data hj => ?_
    · rw [hc] at hj
      exact hio.ids j hj
    · rw [hc] at hj
      exact absurd hj List.not_mem_nil

theorem Sound.lt (h : s.Sound) (ho : (s.io k).opened = true) : k < s.accepted := by
  by_contra hk
  rw [h.fresh k (not_lt.mp hk)] at ho
  exact absurd ho (by decide)

theorem Sound.accept (h : s.Sound) : (s.handle lib printJson .accept).1.Sound where
  ready := h.ready
  fresh k hk := h.fresh k (Nat.le_of_succ_le hk)
  ids k hk := by
    have hid : (s.handle lib printJson .accept).1.server.id k =
        if k = s.accepted then -1 else s.server.id k := by
      by_cases hj : k = s.accepted <;>
        simp [Site.handle, Site.call, onConnect, Server.id, Server.emplace, hj]
    rw [hid] at hk
    split at hk
    · exact absurd hk (by decide)
    · exact h.ids k hk
  posted k hk := h.posted k (by simpa [Site.handle, Site.call, onConnect] using hk)

/-- The next message is taken from the strand. -/
theorem Sound.pop (h : s.Sound) {ss : Bytes} {rest : List Bytes} (hp : s.posted k = ss :: rest) :
    ({ s with posted := Function.update s.posted k rest } : Site).Sound where
  ready := h.ready
  fresh := h.fresh
  ids := h.ids
  posted j hj := by
    by_cases hjk : j = k
    · subst hjk
      exact h.posted j (by simp [hp])
    · simp only [Function.update_of_ne hjk] at hj
      exact h.posted j hj

theorem Sound.step (h : s.Sound) (e : Event) : (s.step lib printJson e).1.Sound := by
  unfold Site.step
  split
  · cases e with
    | accept => exact h.accept
    | session k e =>
      simp only [Site.handle]
      split
      · next hk => exact h.serve hk.1 fun hs => absurd hk.2 hs
      · exact h
    | onSend k =>
      simp only [Site.handle]
      split
      · exact h
      · next hp =>
        have ho : (s.io k).opened = true := h.posted k (by simp [hp])
        exact (h.pop hp).serve (h.lt ho) fun _ => ho
    | owner m => exact h.tells (m.tells_body lib s.server)
  · exact h

/-! ### The server of the abstract connections -/

theorem world_call (m : Srv Unit) : (s.call printJson m).1.world = (s.world.call m).1 := rfl

theorem outs_call (m : Srv Unit) :
    (s.call printJson m).2.filterMap Out.server? = (s.world.call m).2 := by
  show (List.map Out.server _).filterMap Out.server? = _
  rw [List.filterMap_map]
  exact List.filterMap_some

theorem world_update (k : ℕ) (io : SessionIo) :
    ({ s with io := Function.update s.io k io } : Site).world = s.world.setLink k io.link := by
  simp only [world, World.setLink, World.mk.injEq, true_and, and_true]
  funext j
  by_cases hj : j = k
  · subst hj
    simp
  · simp [hj]

theorem world_serve (h : s.Sound) (ha : s.alive = true) (hk : k < s.accepted)
    (e : SessionIo.Event) :
    (s.serve lib printJson k e).1.world =
        (webServer lib).run s.world ((s.io k).labels k e) ∧
      (s.serve lib printJson k e).2.filterMap Out.server? =
        (webServer lib).emitted s.world ((s.io k).labels k e) := by
  have hm := SessionIo.move_handle (s.io k) e
  obtain ⟨hrun, hout⟩ := hm.follows (w := s.world) lib (SessionIo.ready_face.mpr (h.ready k)) ha hk rfl
  have hsilent (os : List SessionIo.Out) :
      (os.map (Out.session k)).filterMap Out.server? = [] := by
    rw [List.filterMap_map]
    exact List.filterMap_eq_nil_iff.mpr fun _ _ => rfl
  constructor
  · refine (Eq.trans ?_ hrun.symm)
    rw [Site.serve, world_call, world_update]
    rfl
  · rw [Site.serve, List.filterMap_append, hsilent, List.nil_append, outs_call, world_update]
    exact hout.symm

theorem world_step (h : s.Sound) (e : Event) :
    (s.step lib printJson e).1.world = (webServer lib).run s.world (s.label e) ∧
      (s.step lib printJson e).2.filterMap Out.server? =
        (webServer lib).emitted s.world (s.label e) := by
  have one {e : Web.Event} {r : World × List Web.Out} (ha : s.alive = true)
      (he : s.world.handle lib e = r) :
      (webServer lib).run s.world [e] = r.1 ∧ (webServer lib).emitted s.world [e] = r.2 := by
    have hw : s.world.alive = true := ha
    simp [webServer, World.step, hw, he]
  unfold Site.step label
  split
  · next ha =>
    cases e with
    | accept =>
      have hlink : s.world.link = Function.update s.world.link s.accepted {} := by
        rw [eq_comm, Function.update_eq_self_iff]
        show ({} : Link) = (s.io s.accepted).link
        rw [h.fresh _ (le_refl _)]
        rfl
      have hstep : s.world.handle lib .accept = World.call (onConnect s.accepted)
          { s.world with
            server := { s.server with session := Function.update s.server.session s.accepted {} }
            accepted := s.accepted + 1 } := by
        simp only [World.handle, World.setLink]
        rw [hlink]
        simp [world]
      obtain ⟨hrun, hout⟩ := one ha hstep
      exact ⟨hrun.symm, (outs_call _).trans hout.symm⟩
    | session k e =>
      simp only [Site.handle, labels]
      split
      · next hk => exact world_serve h ha hk.1 e
      · exact ⟨rfl, rfl⟩
    | onSend k =>
      simp only [Site.handle, labels]
      split
      · exact ⟨rfl, rfl⟩
      · next hp =>
        have ho : (s.io k).opened = true := h.posted k (by simp [hp])
        exact world_serve (h.pop hp) ha (h.lt ho) _
    | owner m =>
      obtain ⟨hrun, hout⟩ := one ha (m.handle_event lib s.world)
      exact ⟨hrun.symm, (outs_call _).trans hout.symm⟩
  · exact ⟨rfl, rfl⟩

/-! ### From the server to the client -/

/-- What was sent to a session and not passed to `async_write` yet. -/
def pending (k : ℕ) (s : Site) : List Bytes := (s.io k).writer.pending ++ s.posted k

theorem written_server (k : ℕ) (os : List Web.Out) :
    (os.map Out.server).flatMap (Out.written k) = [] := by
  simp [Out.written]

theorem addressed_session (printJson : Ptree → Bytes) (j k : ℕ) (os : List SessionIo.Out) :
    (os.map (Out.session j)).flatMap (Out.addressed printJson k) = [] := by
  simp [Out.addressed]

theorem written_session (j k : ℕ) (os : List SessionIo.Out) :
    (os.map (Out.session j)).flatMap (Out.written k) =
      if j = k then (os.filterMap SessionIo.Out.write?).flatMap Writer.Out.written else [] := by
  induction os with
  | nil => simp
  | cons o os ih =>
    rw [List.map_cons, List.flatMap_cons, ih]
    cases o <;> by_cases hj : j = k <;> simp [Out.written, SessionIo.Out.write?, List.filterMap_cons, hj]

theorem pending_call (printJson : Ptree → Bytes) (s : Site) (m : Srv Unit) (k : ℕ) :
    s.pending k ++ (s.call printJson m).2.flatMap (Out.addressed printJson k) =
      (s.call printJson m).2.flatMap (Out.written k) ++ (s.call printJson m).1.pending k := by
  simp only [pending, Site.call, written_server, List.nil_append, List.append_assoc]

theorem pending_serve (lib : Library) (printJson : Ptree → Bytes) (h : s.Sound) (k j : ℕ)
    (e : SessionIo.Event) :
    (s.io j).writer.pending ++ (if k = j then e.sent else []) ++ s.posted j ++
        (s.serve lib printJson k e).2.flatMap (Out.addressed printJson j) =
      (s.serve lib printJson k e).2.flatMap (Out.written j) ++
        (s.serve lib printJson k e).1.pending j := by
  have hpass := ((SessionIo.move_handle (s.io k) e).passes
    (SessionIo.ready_face.mpr (h.ready k))).conserves
  have hcall := pending_call printJson { s with io := Function.update s.io k ((s.io k).handle e).1 }
    (((s.io k).handle e).2.forM (SessionIo.Out.callback lib k)) j
  simp only [Site.serve, List.flatMap_append, addressed_session, List.nil_append, written_session,
    List.append_assoc]
  rw [← hcall]
  by_cases hj : k = j
  · subst hj
    have hone : (s.io k).writer.pending ++ e.sent =
        (((s.io k).handle e).2.filterMap SessionIo.Out.write?).flatMap Writer.Out.written ++
          ((s.io k).handle e).1.writer.pending := hpass
    simp only [if_true, pending, Function.update_self]
    rw [← List.append_assoc, hone, List.append_assoc, List.append_assoc]
  · simp only [if_neg hj, pending, Function.update_of_ne (Ne.symm hj), List.nil_append,
      List.append_assoc]

theorem pending_step (h : s.Sound) (k : ℕ) (e : Event) :
    s.pending k ++ (s.step lib printJson e).2.flatMap (Out.addressed printJson k) =
      (s.step lib printJson e).2.flatMap (Out.written k) ++ (s.step lib printJson e).1.pending k := by
  unfold Site.step
  split
  · cases e with
    | accept => exact pending_call printJson { s with
        server := { s.server with session := Function.update s.server.session s.accepted {} }
        accepted := s.accepted + 1 } (onConnect s.accepted) k
    | session j e =>
      simp only [Site.handle]
      split
      · next hk =>
        have hserve := pending_serve lib printJson h j k e
        rwa [hk.2, ite_self, List.append_nil] at hserve
      · simp
    | onSend j =>
      simp only [Site.handle]
      split
      · simp
      · next ss rest hp =>
        have hserve := pending_serve lib printJson (h.pop hp) j k (.onSend ss)
        refine (Eq.trans ?_ hserve)
        by_cases hj : j = k
        · subst hj
          simp [pending, hp, SessionIo.Event.sent]
        · simp [pending, hj, Function.update_of_ne (Ne.symm hj)]
    | owner m => exact pending_call printJson s (m.body lib) k
  · simp

section Runs

variable (lib : Library) (printJson : Ptree → Bytes) (adminPassword userPassword : String)
  (interface : Interface) (symbolsList : List String)

theorem sound_run (es : List Event) :
    ((site lib printJson).run (init adminPassword userPassword interface symbolsList) es).Sound :=
  Machine.run_invariant (P := fun _ _ => True) Sound (fun _ e hs _ => hs.step e)
    (sound_init _ _ _ _) (Machine.along_of_forall _ (fun _ _ => trivial) _ es)

/-- In every run, the server does what it does with the abstract connections when each sees
only what its session shows of its events: it is in the same state, with the same connections, and
has put out the same. -/
theorem runs_as_server (es : List Event) :
    let s := init adminPassword userPassword interface symbolsList
    let es' := (site lib printJson).expanded label s es
    ((site lib printJson).run s es).world =
        (webServer lib).run (.init adminPassword userPassword interface symbolsList) es' ∧
      ((site lib printJson).emitted s es).filterMap Out.server? =
        (webServer lib).emitted (.init adminPassword userPassword interface symbolsList) es' := by
  intro s es'
  have hnext (s : Site) (w : World) (e : Event) (h : s.Sound ∧ s.world = w) :
      ((site lib printJson).next s e).Sound ∧
        ((site lib printJson).next s e).world = (webServer lib).run w (s.label e) := by
    obtain ⟨hs, rfl⟩ := h
    exact ⟨hs.step e, (world_step hs e).1⟩
  have hinit : s.Sound ∧ s.world = .init adminPassword userPassword interface symbolsList :=
    ⟨sound_init _ _ _ _, rfl⟩
  refine ⟨(Machine.state_expanded hnext hinit es).2, Machine.emitted_expanded hnext ?_ hinit es⟩
  rintro s w e ⟨hs, rfl⟩
  exact (world_step hs e).2

/-- In every run, what the server has sent to a session is, in this order, what the session has
passed to `async_write`, what is queued behind the outstanding write, and what waits on the
strand. At most one write is outstanding, and as long as the websocket is open it does not
stall. -/
theorem messages_arrive (es : List Event) (k : ℕ) :
    let s := init adminPassword userPassword interface symbolsList
    let os := (site lib printJson).emitted s es
    let t := (site lib printJson).run s es
    os.flatMap (Out.addressed printJson k) =
        os.flatMap (Out.written k) ++ ((t.io k).writer.pending ++ t.posted k) ∧
      (t.io k).writer.writes.length ≤ 1 ∧
      ((t.io k).writer.isOpen = true →
        ((t.io k).writer.wQueue ≠ [] ↔ (t.io k).writer.writes ≠ [])) := by
  intro s os t
  have hf : (t.io k).writer.Fifo := ((sound_run lib printJson _ _ _ _ es).ready k).fifo
  have hpass := Machine.run_passes (M := site lib printJson) (P := fun _ _ => True) Sound (pending k)
    (Out.addressed printJson k) (Out.written k) (fun _ e hs _ => hs.step e)
    (fun _ e hs _ => pending_step hs k e) (s := s) (sound_init _ _ _ _)
    (Machine.along_of_forall _ (fun _ _ => trivial) _ es)
  exact ⟨hpass, hf.length_le, hf.ne_nil_iff⟩

end Runs

end Site

end BotTrader.Web
