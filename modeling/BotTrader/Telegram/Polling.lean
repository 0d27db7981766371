import BotTrader.Https.Serial
import BotTrader.Telegram.Poll

/-! Whether an answer is followed by the next request. Between two handlers all requests
of the client carry the offset of the last update, and one that is answered gives way to a
new one; but an answer that is not JSON makes no new request, and one that cannot be
converted ends the process. -/

namespace BotTrader.Telegram

open Automata Handler Boost Https

variable {κ : Type} {s t : State κ} {i : ℕ} {resp : Response}

/-- The state between two handlers. -/
structure Steady (s : State κ) : Prop where
  offers : Offers (getUpdates s.own.lastUpdateId) s
  answered : s.http.answered = []
  greeted : s.http.greeted = 0
  list : s.own.updateList = []

theorem steady_init (lastUpdateId : ℤ) (rest : κ) : Steady (init lastUpdateId rest) where
  offers := {
    serial := Client.serial_init
    submissions := ⟨_, Client.submissions_run []⟩
    request := fun _ _ => rfl }
  answered := rfl
  greeted := rfl
  list := rfl

namespace Steady

theorem modify (h : Steady s) {f : Fields κ → Fields κ}
    (hf : (f s.own).lastUpdateId = s.own.lastUpdateId ∧ (f s.own).updateList = s.own.updateList) :
    Steady (s.modify f) where
  offers := by
    show Offers (getUpdates (f s.own).lastUpdateId) _
    rw [hf.1]
    exact h.offers.modify f
  answered := h.answered
  greeted := h.greeted
  list := hf.2.trans h.list

/-- The event is neither a request nor the beginning of a handler that takes the lock. -/
theorem perform (h : Steady s) {e : Https.Event} (he : s.http.Timely e)
    (hq : ∀ now time, e ≠ .request now time) (hr : ∀ i, e ≠ .onRead i true)
    (hh : e ≠ .onHandshake) : Steady (s.perform e) where
  offers := h.offers.perform he hq
  answered := Client.answered_step hr h.answered
  greeted := Client.greeted_step hh h.greeted
  list := h.list

theorem requested (h : Steady s) (now : UInt64) (time : UInt32) :
    Steady (requested now time s) := by
  have hr : Steady (s.perform .resetRequests) := h.perform trivial (by simp) (by simp) (by simp)
  exact {
    offers := hr.offers.push hr.greeted now time
    answered := Client.answered_step (by simp) hr.answered
    greeted := Client.greeted_step (by simp) hr.greeted
    list := hr.list }

theorem handshake (h : Steady s) (time : UInt32) :
    Steady ((s.perform .onHandshake).perform (.onHandshakeLocked time)) where
  offers := (h.offers.perform (e := .onHandshake) trivial (by simp)).perform trivial (by simp)
  answered := Client.answered_step (by simp) (Client.answered_step (by simp) h.answered)
  greeted := Client.greeted_handshake h.greeted time
  list := h.list

end Steady

/-- The handlers but that of an answer return, parse nothing and call nothing. -/
theorem run_handle (react : React κ) (h : Steady s) {e : Event}
    (he : ∀ i resp now time, e ≠ .onRead i resp now time) :
    ∃ t, (handle react e).run s = .done () t [] ∧ Steady t ∧
      t.own.lastUpdateId = s.own.lastUpdateId ∧ t.own.alive = s.own.alive := by
  cases e with
  | onWrite i ok => exact ⟨_, rfl, h.perform trivial (by simp) (by simp) (by simp), rfl, rfl⟩
  | onReadError i => exact ⟨_, rfl, h.perform trivial (by simp) (by simp) (by simp), rfl, rfl⟩
  | onRead i resp now time => exact absurd rfl (he i resp now time)
  | onReconnect => exact ⟨_, rfl, h.perform trivial (by simp) (by simp) (by simp), rfl, rfl⟩
  | connectFailed =>
    by_cases hc : 0 < s.http.connecting
    · refine ⟨s.perform .connectFailed, ?_, h.perform trivial (by simp) (by simp) (by simp), rfl,
        rfl⟩
      rw [handle, connectFailed, run_bind_done (run_self s), if_pos hc]
      rfl
    · refine ⟨s, ?_, h, rfl, rfl⟩
      rw [handle, connectFailed, run_bind_done (run_self s), if_neg hc]
      rfl
  | onHandshake time =>
    by_cases hc : 0 < s.http.connecting
    · refine ⟨_, ?_, (h.modify (f := fun b => { b with posted := b.posted + 1 })
        ⟨rfl, rfl⟩).handshake time, rfl, rfl⟩
      rw [handle, onHandshake, run_bind_done (run_self s), if_pos hc]
      rfl
    · refine ⟨s, ?_, h, rfl, rfl⟩
      rw [handle, onHandshake, run_bind_done (run_self s), if_neg hc]
      rfl
  | onInitTimer now time =>
    by_cases hp : 0 < s.own.posted
    · refine ⟨_, ?_, (h.modify (f := fun b => { b with posted := b.posted - 1 })
        ⟨rfl, rfl⟩).requested now time, rfl, rfl⟩
      rw [handle, run_bind_done (run_self s), if_pos hp]
      rfl
    · refine ⟨s, ?_, h, rfl, rfl⟩
      rw [handle, run_bind_done (run_self s), if_neg hp]
      rfl
  | setInputMode mode => exact ⟨_, rfl, h.modify ⟨rfl, rfl⟩, rfl, rfl⟩

/-! ### Answers -/

/-- The request at the front of the queue is being written. -/
def Writing (s : State κ) : Prop := ∃ uid, s.http.front = some uid ∧ .write uid ∈ s.http.ops

/-- The process runs, and a request is being written or a reconnect is posted. -/
def Continues (s : State κ) : Prop := s.own.alive = true ∧ (Writing s ∨ 0 < s.http.reconnects)

/-- A response arrives in the object of `uid`. -/
theorem exists_handed (h : Steady s) {sent uid : ℕ} (ho : s.http.ops[i]? = some (.read sent uid))
    (resp : Response) :
    ∃ r rs, s.http.reqRespList = r :: rs ∧
      s.handed i resp = some (s.request r.uid, if r.uid = uid then resp else {}) ∧
      (s.read i resp).http = { s.http with
        ops := []
        reqRespList := Client.store sent uid (r :: rs)
        answered := [sent] } := by
  obtain ⟨hi, -⟩ := List.getElem?_eq_some_iff.mp ho
  have hs := h.offers.serial
  obtain ⟨r, rs, hl⟩ := List.exists_cons_of_ne_nil (hs.queued (.inl (by omega)))
  have hr : r.response = none := hs.unanswered h.answered r (by simp [hl])
  have hops : s.http.ops.eraseIdx i = [] := (Client.idle_eraseOp hs.single ho).ops
  refine ⟨r, rs, hl, Owner.handed_of_read ho hl hr, ?_⟩
  rw [Owner.http_read]
  simp [Client.step, Client.onRead, Client.store, ho, hl, hops, h.answered]

theorem Steady.read (h : Steady s) (i : ℕ) (resp : Response) :
    Offers (getUpdates s.own.lastUpdateId) (s.read i resp) ∧ (s.read i resp).http.greeted = 0 := by
  refine ⟨h.offers.read i resp, ?_⟩
  rw [Owner.http_read]
  exact Client.greeted_step (by simp) h.greeted

/-- The front of the queue is given up, and the next request is written. -/
theorem steady_ignored (h : Steady s) {sent uid : ℕ} (ho : s.http.ops[i]? = some (.read sent uid))
    (time : UInt32) :
    Steady ((s.read i resp).perform (.onReadLocked 0 time)) := by
  obtain ⟨r, rs, -, -, hread⟩ := exists_handed h ho resp
  obtain ⟨hoff, hg⟩ := h.read i resp
  have hown : (s.read i resp).own = s.own := Owner.own_read
  constructor
  case offers =>
    show Offers (getUpdates (s.read i resp).own.lastUpdateId) _
    rw [hown]
    exact hoff.perform trivial (by simp)
  case answered =>
    show ((s.read i resp).http.step (.onReadLocked 0 time)).1.answered = []
    rw [hread]
    simp [Client.step]
  case greeted => exact Client.greeted_step (by simp) hg
  case list =>
    show (s.read i resp).own.updateList = []
    rw [hown]
    exact h.list

/-- An answer that is dispatched leaves one request in the queue, the next, which is
written. -/
theorem steady_answered (h : Steady s) {sent uid : ℕ}
    (ho : s.http.ops[i]? = some (.read sent uid)) (hf : Frame (s.read i resp) t)
    (hl : t.own.updateList = []) (now : UInt64) (time : UInt32) :
    Steady ((requested now time t).perform (.onReadLocked 0 time)) ∧
      Writing ((requested now time t).perform (.onReadLocked 0 time)) ∧
      ((requested now time t).perform (.onReadLocked 0 time)).own.alive = s.own.alive := by
  obtain ⟨r, rs, -, -, hread⟩ := exists_handed h ho resp
  obtain ⟨⟨hserial, hsub, hreq⟩, hg⟩ := h.read i resp
  rw [← hf.http] at hread hserial hsub hg hreq
  have hoff : Offers (getUpdates s.own.lastUpdateId) t :=
    ⟨hserial, hsub, fun uid hu => by rw [hf.request]; exact hreq uid hu⟩
  have hq : t.http.reqRespList ≠ [] := by
    rw [hread]
    exact List.cons_ne_nil _ _
  have hops : t.http.ops = [] := by rw [hread]
  have ha : t.http.answered = [sent] := by rw [hread]
  obtain ⟨x, hx, hu⟩ := Client.replaced hq hops ha now time time
  have hhttp : ((requested now time t).perform (.onReadLocked 0 time)).http = { t.http with
      reqRespList := [x]
      created := t.http.created + 1
      ops := [.write t.http.created]
      answered := [] } := hx
  refine ⟨⟨hoff.replace hq hops ha hg _ now time time, ?_, ?_, hl⟩, ⟨t.http.created, ?_, ?_⟩, ?_⟩
  · rw [hhttp]
  · rw [hhttp]
    exact hg
  · simp [hhttp, Client.front, hu]
  · simp [hhttp]
  · show t.own.alive = s.own.alive
    rw [hf.alive, Owner.own_read]

/-- The body in the object at the front of the queue, when a response has been read into
that of `uid`. -/
def received (s : State κ) (uid : ℕ) (resp : Response) : Option Ptree :=
  if s.http.front = some uid then resp.body else none

theorem body_of_received {uid : ℕ} {tree : Ptree} (h : received s uid resp = some tree) :
    resp.body = some tree := by
  unfold received at h
  split at h
  · exact h
  · simp at h

section Next

variable {react : React κ}

theorem next_of_done (ha : s.own.alive = true) {e : Event} {o : List Out}
    (hr : (handle react e).run s = .done () t o) :
    (telegram react).next s e = t ∧ (telegram react).emit s e = o := by
  simp only [telegram, ha, if_true, hr]
  exact ⟨rfl, rfl⟩

theorem next_of_raised (ha : s.own.alive = true) {e : Event} {x : Exc} {o : List Out}
    (hr : (handle react e).run s = .raised x t o) :
    ((telegram react).next s e).own.alive = false := by
  simp only [telegram, ha, if_true, hr]
  rfl

end Next

theorem next_of_ne_onRead (react : React κ) (h : Steady s) (ha : s.own.alive = true) {e : Event}
    (he : ∀ i resp now time, e ≠ .onRead i resp now time) :
    Steady ((telegram react).next s e) ∧ ((telegram react).next s e).own.alive = true ∧
      ((telegram react).next s e).own.lastUpdateId = s.own.lastUpdateId ∧
      (telegram react).emit s e = [] := by
  obtain ⟨t, hr, ht, hlast, halive⟩ := run_handle react h he
  obtain ⟨hn, hemit⟩ := next_of_done ha hr
  rw [hn]
  exact ⟨ht, halive.trans ha, hlast, hemit⟩

/-- Without a read operation there, nothing happens. -/
theorem onRead_none (react : React κ) (ha : s.own.alive = true)
    (ho : ∀ sent uid, s.http.ops[i]? ≠ some (.read sent uid)) (resp : Response) (now : UInt64)
    (time : UInt32) :
    (telegram react).next s (.onRead i resp now time) = s ∧
      (telegram react).emit s (.onRead i resp now time) = [] := by
  obtain ⟨hh, hread⟩ := Owner.read_of_ne resp ho
  have hr : (handle react (.onRead i resp now time)).run s = .done () (s.read i resp) [] :=
    run_onRead_none hh time
  rw [hread] at hr
  exact next_of_done ha hr

section OnRead

variable (react : React κ) (now : UInt64) (time : UInt32) (h : Steady s) {sent uid : ℕ}
  (ho : s.http.ops[i]? = some (.read sent uid)) (ha : s.own.alive = true)

include h ho

theorem exists_handed_received (resp : Response) :
    ∃ req got, s.handed i resp = some (req, got) ∧ got.body = received s uid resp := by
  obtain ⟨r, rs, hl, hh, -⟩ := exists_handed h ho resp
  refine ⟨_, _, hh, ?_⟩
  have hfront : s.http.front = some r.uid := by simp [Client.front, hl]
  by_cases hu : r.uid = uid
  · simp [received, hfront, hu]
  · simp [received, hfront, hu]

include ha

theorem onRead_ignored (hb : received s uid resp = none) :
    (telegram react).next s (.onRead i resp now time) =
        (s.read i resp).perform (.onReadLocked 0 time) ∧
      (telegram react).emit s (.onRead i resp now time) = [] := by
  obtain ⟨req, got, hh, hbody⟩ := exists_handed_received h ho resp
  exact next_of_done ha (run_onRead_done hh
    (run_updateHandler_none react req (hbody.trans hb) now time) time)

theorem onRead_answered {tree : Ptree} (hb : received s uid resp = some tree)
    (hc : Convertible tree) :
    ∃ t, (telegram react).next s (.onRead i resp now time) =
        (requested now time t).perform (.onReadLocked 0 time) ∧
      ((telegram react).emit s (.onRead i resp now time)).filterMap dispatchedId =
        updateIds tree ∧
      Frame (s.read i resp) t ∧ t.own.updateList = [] ∧
      t.own.lastUpdateId = (updateIds tree).getLastD s.own.lastUpdateId := by
  obtain ⟨req, got, hh, hbody⟩ := exists_handed_received h ho resp
  have hl : (s.read i resp).own.updateList = [] := by
    rw [Owner.own_read]
    exact h.list
  obtain ⟨t, ⟨calls, hr, hcalls⟩, hf, hlist, hlast⟩ := returns_updateHandler react req
    (hbody.trans hb) hc hl now time
  rw [Owner.own_read] at hlast
  obtain ⟨hnext, hemit⟩ := next_of_done (e := .onRead i resp now time) ha
    (run_onRead_done hh hr time)
  exact ⟨t, hnext, by rw [hemit, hcalls], hf, hlist, hlast⟩

theorem onRead_raised {tree : Ptree} (hb : received s uid resp = some tree)
    (hc : ¬Convertible tree) :
    ((telegram react).next s (.onRead i resp now time)).own.alive = false := by
  obtain ⟨req, got, hh, hbody⟩ := exists_handed_received h ho resp
  obtain ⟨x, t, o, hr⟩ := raised_updateHandler react req (hbody.trans hb) hc now time
    (s.read i resp)
  exact next_of_raised ha (run_onRead_raised hh hr time)

end OnRead

/-! ### Runs -/

/-- As long as the process runs, the state between two handlers is steady. -/
theorem steady_next (react : React κ) (h : s.own.alive = true → Steady s) (e : Event)
    (ha : ((telegram react).next s e).own.alive = true) : Steady ((telegram react).next s e) := by
  have halive : s.own.alive = true := by
    by_contra hn
    simp [telegram, hn] at ha
  have hs := h halive
  cases e with
  | onRead i resp now time =>
    by_cases ho : ∃ sent uid, s.http.ops[i]? = some (.read sent uid)
    · obtain ⟨sent, uid, ho⟩ := ho
      cases hb : received s uid resp with
      | none =>
        rw [(onRead_ignored react now time hs ho halive hb).1]
        exact steady_ignored hs ho time
      | some tree =>
        by_cases hc : Convertible tree
        · obtain ⟨t, hn, -, hf, hl, -⟩ := onRead_answered react now time hs ho halive hb hc
          rw [hn]
          exact (steady_answered hs ho hf hl now time).1
        · rw [onRead_raised react now time hs ho halive hb hc] at ha
          exact absurd ha (by simp)
    · rw [(onRead_none react halive (fun sent uid he => ho ⟨sent, uid, he⟩) resp now time).1]
      exact hs
  | _ => exact (next_of_ne_onRead react hs halive (by simp)).1

theorem steady_run (react : React κ) (lastUpdateId : ℤ) (rest : κ) (es : List Event)
    (ha : ((telegram react).run (init lastUpdateId rest) es).own.alive = true) :
    Steady ((telegram react).run (init lastUpdateId rest) es) := by
  have h := Machine.run_invariant (M := telegram react) (P := fun _ _ => True)
    (fun s => s.own.alive = true → Steady s) (fun s e hs _ => steady_next react hs e)
    (fun _ => steady_init lastUpdateId rest)
    (Machine.along_of_forall _ (fun _ _ => trivial) (init lastUpdateId rest) es)
  exact h ha

/-! ### After an answer -/

/-- What a response leads to is either convertible, or no JSON, and then another request
is queued. -/
def KeepsPolling (s : State κ) (uid : ℕ) (resp : Response) : Prop :=
  match received s uid resp with
  | some tree => Convertible tree
  | none => 2 ≤ s.http.reqRespList.length

/-- After an answer that is not JSON, the polling goes on with the request behind. -/
theorem continues_ignored (h : Steady s) (ha : s.own.alive = true) {sent uid : ℕ}
    (ho : s.http.ops[i]? = some (.read sent uid)) (time : UInt32) :
    Continues ((s.read i resp).perform (.onReadLocked 0 time)) ↔ 2 ≤ s.http.reqRespList.length := by
  obtain ⟨r, rs, hl, -, hread⟩ := exists_handed h ho resp
  have hrec : s.http.reconnects = 0 := by
    obtain ⟨hi, -⟩ := List.getElem?_eq_some_iff.mp ho
    have := h.offers.serial.single
    omega
  have halive : ((s.read i resp).perform (.onReadLocked 0 time)).own.alive = true := by
    show (s.read i resp).own.alive = true
    rw [Owner.own_read]
    exact ha
  have hhttp : ((s.read i resp).perform (.onReadLocked 0 time)).http =
      ((s.read i resp).http.step (.onReadLocked 0 time)).1 := rfl
  rw [Continues, Writing, halive, hhttp, hread, hl]
  cases rs with
  | nil => simp [Client.step, Client.store, Client.doWrite, hrec]
  | cons x xs => simp [Client.step, Client.store, Client.doWrite, Client.front]

/-- In every run, the polling goes on after a response if and only if the front of the
queue gets a body that is convertible, or no JSON while another request is queued. -/
theorem continues_iff_keepsPolling (react : React κ) (lastUpdateId : ℤ) (rest : κ)
    (es : List Event) (i sent uid : ℕ) (resp : Response) (now : UInt64) (time : UInt32)
    (ha : ((telegram react).run (init lastUpdateId rest) es).own.alive = true)
    (ho : ((telegram react).run (init lastUpdateId rest) es).http.ops[i]? =
      some (.read sent uid)) :
    Continues ((telegram react).next ((telegram react).run (init lastUpdateId rest) es)
        (.onRead i resp now time)) ↔
      KeepsPolling ((telegram react).run (init lastUpdateId rest) es) uid resp := by
  have h := steady_run react lastUpdateId rest es ha
  unfold KeepsPolling
  cases hb : received ((telegram react).run (init lastUpdateId rest) es) uid resp with
  | none =>
    rw [(onRead_ignored react now time h ho ha hb).1]
    exact continues_ignored h ha ho time
  | some tree =>
    by_cases hc : Convertible tree
    · obtain ⟨t, hn, -, hf, hl, -⟩ := onRead_answered react now time h ho ha hb hc
      rw [hn]
      obtain ⟨-, hw, halive⟩ := steady_answered h ho hf hl now time
      exact iff_of_true ⟨halive.trans ha, .inl hw⟩ hc
    · have hd := onRead_raised react now time h ho ha hb hc
      refine iff_of_false (fun hcon => ?_) hc
      rw [hcon.1] at hd
      exact absurd hd (by simp)

/-! ### The first poll -/

/-- A program that never sets the mode. -/
def idle : React Unit := fun _ rest => (rest, none)

/-- The client connects, and the first request is written. -/
def firstPoll : List Event := [.onHandshake 1, .onInitTimer 1000 1, .onWrite 0 true]

/-- An answer with one update, which has no message. -/
def answer (id : String) : Response where
  body := some (.node [("result", .node [("", .node [("update_id", .leaf id)])])])

theorem continues_firstPoll :
    Continues ((telegram idle).next ((telegram idle).run (init 0 ()) firstPoll)
        (.onRead 0 (answer "5") 2000 2)) ↔
      KeepsPolling ((telegram idle).run (init 0 ()) firstPoll) 0 (answer "5") :=
  continues_iff_keepsPolling idle 0 () firstPoll 0 0 0 (answer "5") 2000 2 rfl rfl

/-- A proxy answers the first request with a page of its own, and no other one follows. -/
theorem polling_stops : ¬∀ (es : List Event) (i sent uid : ℕ) (resp : Response) (now : UInt64)
    (time : UInt32), ((telegram idle).run (init 0 ()) es).own.alive = true →
    ((telegram idle).run (init 0 ()) es).http.ops[i]? = some (.read sent uid) →
    Continues ((telegram idle).next ((telegram idle).run (init 0 ()) es)
      (.onRead i resp now time)) := by
  intro h
  obtain ⟨-, ⟨uid, hf, -⟩ | hr⟩ := h firstPoll 0 0 0 { status := 502 } 2000 2 rfl rfl
  · cases hf
  · exact absurd hr (by decide)

end BotTrader.Telegram
