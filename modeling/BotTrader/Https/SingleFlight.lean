import BotTrader.Https.Client

/-! Whether the client has one exchange with the server at a time. It has, as
long as nothing takes the front of the queue from an exchange, and no request
finds the queue empty while the client is about to write by itself. -/

namespace BotTrader.Https

open Automata

namespace Client

variable {s s' : Client} {uid : ℕ} {time : UInt32}

/-- The request at the front of the queue. -/
def front (s : Client) : Option ℕ := s.reqRespList.head?.map ReqResp.uid

/-- At most one operation is outstanding, and until its exchange is over, the
request of the exchange is at the front. -/
structure SingleFlight (s : Client) : Prop where
  one : s.ops.length ≤ 1
  operation : ∀ o ∈ s.ops, s.front = some o.sent ∧ s.front = some o.object
  answer : ∀ uid ∈ s.answered, s.front = some uid

/-- The event leaves an exchange its place. A request that finds a ready client's
queue empty comes when no reconnect is posted and no handshake handler is about to
write, a reset comes without an exchange or without a second request, and no write
is started at the time zero that stands for an unsent request. -/
def Careful (s : Client) : Event → Prop
  | .request _ time => s.ready = true → s.reqRespList = [] →
      time ≠ 0 ∧ s.reconnects = 0 ∧ s.greeted = 0
  | .resetRequests => s.reqRespList.length ≤ 1 ∨ s.ops = [] ∧ s.answered = []
  | .onReadLocked _ time | .onHandshakeLocked time => time ≠ 0
  | _ => True

/-! ### One thread of control -/

/-- The front of the queue is the request, and it is marked as sent. -/
def Sent (s : Client) (uid : ℕ) : Prop :=
  ∃ r rs, s.reqRespList = r :: rs ∧ r.uid = uid ∧ r.sendTime ≠ 0

/-- One thing at most is under way: an exchange, a handler or a connection. -/
structure Orderly (s : Client) : Prop where
  single : s.ops.length + s.answered.length + s.greeted + s.reconnects + s.connecting ≤ 1
  operation : ∀ o ∈ s.ops, o.object = o.sent ∧ s.Sent o.sent
  answer : ∀ uid ∈ s.answered, s.Sent uid
  unready : 0 < s.connecting → s.ready = false

/-- Nothing is under way. -/
structure Idle (s : Client) : Prop where
  ops : s.ops = []
  answered : s.answered = []
  handlers : s.greeted = 0 ∧ s.reconnects = 0 ∧ s.connecting = 0

theorem front_of_sent (h : s.Sent uid) : s.front = some uid := by
  obtain ⟨r, rs, hl, rfl, -⟩ := h
  simp [front, hl]

theorem Orderly.singleFlight (h : s.Orderly) : s.SingleFlight where
  one := by
    have := h.single
    omega
  operation o ho := by
    obtain ⟨he, hs⟩ := h.operation o ho
    rw [he]
    exact ⟨front_of_sent hs, front_of_sent hs⟩
  answer uid hu := front_of_sent (h.answer uid hu)

/-- A change of the queue that leaves a sent front in place. -/
theorem Orderly.queue {rs : List ReqResp} {n : ℕ} (h : s.Orderly)
    (hs : ∀ uid, (uid ∈ s.ops.map Op.sent ∨ uid ∈ s.answered) → s.Sent uid →
      ({ s with reqRespList := rs, created := n } : Client).Sent uid) :
    ({ s with reqRespList := rs, created := n } : Client).Orderly where
  single := h.single
  operation o ho := ⟨(h.operation o ho).1,
    hs _ (.inl (List.mem_map_of_mem ho)) (h.operation o ho).2⟩
  answer uid hu := hs uid (.inr hu) (h.answer uid hu)
  unready := h.unready

theorem Idle.doWrite (h : s.Idle) (ht : time ≠ 0) : (s.doWrite time).1.Orderly := by
  obtain ⟨ho, ha, hg, hr, hc⟩ := h
  unfold Client.doWrite
  split
  · exact ⟨by simp [ho, ha, hg, hr, hc], by simp [ho], by simp [ha], by simp [hc]⟩
  · next r rs hl =>
    refine ⟨by simp [ho, ha, hg, hr, hc], ?_, by simp [ha], by simp [hc]⟩
    intro o hm
    obtain rfl : o = .write r.uid := by simpa [ho] using hm
    exact ⟨rfl, _, rs, rfl, rfl, ht⟩

/-- A client that lost its operation has only a reconnect posted. -/
theorem Idle.fail (h : s.Idle) : s.fail.Orderly := by
  obtain ⟨ho, ha, hg, hr, hc⟩ := h
  exact ⟨by simp [Client.fail, ho, ha, hg, hr, hc], by simp [Client.fail, ho],
    by simp [Client.fail, ha], by simp [Client.fail, hc]⟩

theorem idle_of_sum
    (h : s.ops.length + s.answered.length + s.greeted + s.reconnects + s.connecting = 0) :
    s.Idle where
  ops := List.length_eq_zero_iff.mp (by omega)
  answered := List.length_eq_zero_iff.mp (by omega)
  handlers := by omega

section Single

variable (h : s.ops.length + s.answered.length + s.greeted + s.reconnects + s.connecting ≤ 1)

include h

/-- Without its only operation, the client is idle. -/
theorem idle_eraseOp {i : ℕ} {o : Op} (ho : s.ops[i]? = some o) :
    ({ s with ops := s.ops.eraseIdx i } : Client).Idle := by
  obtain ⟨hi, -⟩ := List.getElem?_eq_some_iff.mp ho
  apply idle_of_sum
  show (s.ops.eraseIdx i).length + s.answered.length + s.greeted + s.reconnects + s.connecting = 0
  rw [List.length_eraseIdx_of_lt hi]
  omega

theorem idle_eraseAnswered {i : ℕ} (hi : i < s.answered.length) (rs : List ReqResp) :
    ({ s with answered := s.answered.eraseIdx i, reqRespList := rs } : Client).Idle := by
  apply idle_of_sum
  show s.ops.length + (s.answered.eraseIdx i).length + s.greeted + s.reconnects + s.connecting = 0
  rw [List.length_eraseIdx_of_lt hi]
  omega

theorem idle_eraseGreeted (hg : 0 < s.greeted) :
    ({ s with greeted := s.greeted - 1 } : Client).Idle := by
  apply idle_of_sum
  show s.ops.length + s.answered.length + (s.greeted - 1) + s.reconnects + s.connecting = 0
  omega

end Single

theorem sent_cleanup {interval now : UInt64} (h : s.Sent uid) :
    ({ s with reqRespList := cleanup interval now s.reqRespList } : Client).Sent uid := by
  obtain ⟨r, rs, hl, hu, ht⟩ := h
  exact ⟨r, cleanup interval now rs, by simp [hl, cleanup, ht], hu, ht⟩

theorem Orderly.request (h : s.Orderly) {now : UInt64} (hc : s.Careful (.request now time)) :
    (s.request now time).1.Orderly := by
  simp only [Client.request]
  split
  · next hr =>
    have hl : s.reqRespList = [] := by
      rw [← List.length_eq_zero_iff]
      have := hr.2
      simp only [List.length_append, List.length_singleton] at this
      omega
    obtain ⟨ht, hrec, hgr⟩ := hc hr.1 hl
    -- an exchange would have its request in the queue
    have nothing (uid : ℕ) : ¬s.Sent uid := by
      rintro ⟨r, rs, hl', -⟩
      simp [hl] at hl'
    apply Idle.doWrite _ ht
    refine ⟨?_, ?_, hgr, hrec, ?_⟩
    · exact List.eq_nil_iff_forall_not_mem.mpr fun o ho => nothing _ (h.operation o ho).2
    · exact List.eq_nil_iff_forall_not_mem.mpr fun u hu => nothing _ (h.answer u hu)
    · by_contra hcon
      have := h.unready (Nat.pos_of_ne_zero hcon)
      simp [hr.1] at this
  · apply h.queue
    rintro uid - ⟨r, rs, hl, hu, ht⟩
    exact ⟨r, rs ++ [⟨s.created, now, 0, none⟩], by simp [hl], hu, ht⟩

/-- After its request is written, an exchange reads. -/
theorem Idle.onWrite (h : s.Idle) (hs : s.Sent uid) (ok : Bool) :
    (s.onWrite uid ok).1.Orderly := by
  cases ok with
  | false => exact h.fail
  | true =>
    obtain ⟨ho, ha, hg, hr, hc⟩ := h
    obtain ⟨r, rs, hl, hu, ht⟩ := hs
    simp only [Client.onWrite, if_true, hl]
    refine ⟨by simp [ho, ha, hg, hr, hc], ?_, by simp [ha], by simp [hc]⟩
    intro o hm
    obtain rfl : o = .read uid r.uid := by simpa [ho] using hm
    exact ⟨hu, r, rs, rfl, hu, ht⟩

/-- After its response is read, an exchange waits for the lock. -/
theorem Idle.onRead (h : s.Idle) (hs : s.Sent uid) (ok : Bool) :
    (s.onRead uid uid ok).1.Orderly := by
  cases ok with
  | false => exact h.fail
  | true =>
    obtain ⟨ho, ha, hg, hr, hc⟩ := h
    obtain ⟨r, rs, hl, hu, ht⟩ := hs
    simp only [Client.onRead, if_true, hl, store, List.map_cons, hu]
    refine ⟨by simp [ho, ha, hg, hr, hc], by simp [ho], ?_, by simp [hc]⟩
    intro u hm
    obtain rfl : u = uid := by simpa [ha] using hm
    exact ⟨_, _, rfl, rfl, ht⟩

/-- One handler or connection gives way to another. -/
theorem Orderly.move (h : s.Orderly) {ready : Bool} {greeted reconnects connecting : ℕ}
    (hn : greeted + reconnects + connecting ≤ s.greeted + s.reconnects + s.connecting)
    (hr : 0 < connecting → ready = false) :
    ({ s with
      ready := ready
      greeted := greeted
      reconnects := reconnects
      connecting := connecting } : Client).Orderly where
  single := by
    have := h.single
    show s.ops.length + s.answered.length + greeted + reconnects + connecting ≤ 1
    omega
  operation := h.operation
  answer := h.answer
  unready := hr

theorem sent_keepLast (h : s.reqRespList.length ≤ 1) (hu : s.Sent uid) :
    ({ s with reqRespList := keepLast s.reqRespList } : Client).Sent uid := by
  obtain ⟨r, rs, hl, hu, ht⟩ := hu
  have hrs : rs = [] := by simpa [hl] using h
  subst hrs
  exact ⟨r, [], by rw [hl]; rfl, hu, ht⟩

theorem orderly_step {e : Event} (h : s.Orderly) (hc : s.Careful e) : (s.step e).1.Orderly := by
  cases e with
  | request now time => exact h.request hc
  | resetRequests =>
    refine h.queue fun uid hm hu => ?_
    rcases hc with hc | ⟨ho, ha⟩
    · exact sent_keepLast hc hu
    · simp [ho, ha] at hm
  | cleanupRequests interval now => exact h.queue fun uid _ hu => sent_cleanup hu
  | onWrite i ok =>
    simp only [Client.step]
    split
    · next uid ho =>
      exact (idle_eraseOp h.single ho).onWrite (h.operation _ (List.mem_of_getElem? ho)).2 ok
    · exact h
  | onRead i ok =>
    simp only [Client.step]
    split
    · next sent uid ho =>
      obtain ⟨he, hs⟩ := h.operation _ (List.mem_of_getElem? ho)
      obtain rfl : uid = sent := he
      exact (idle_eraseOp h.single ho).onRead hs ok
    · exact h
  | onReadLocked i time =>
    simp only [Client.step]
    split
    · next hi => exact (idle_eraseAnswered h.single hi _).doWrite hc
    · exact h
  | onReconnect =>
    simp only [Client.step]
    split
    · exact h.move (by omega) fun _ => rfl
    · exact h
  | connectFailed =>
    simp only [Client.step]
    split
    · next hp => exact h.move (by omega) fun _ => h.unready hp
    · exact h
  | onHandshake =>
    simp only [Client.step]
    split
    · have := h.single
      exact h.move (by omega) (by omega)
    · exact h
  | onHandshakeLocked time =>
    simp only [Client.step]
    split
    · next hg => exact (idle_eraseGreeted h.single hg).doWrite hc
    · exact h

/-- The message handler gets its request with the response to it. -/
def Matching : Io → Prop
  | .message uid response => response = some uid
  | _ => True

theorem matching_doWrite {io : Io} (hm : io ∈ (s.doWrite time).2) : Matching io := by
  unfold Client.doWrite at hm
  split at hm
  · simp at hm
  · obtain rfl := List.mem_singleton.mp hm
    trivial

theorem matching_onWrite {ok : Bool} {io : Io} (hm : io ∈ (s.onWrite uid ok).2) :
    Matching io := by
  unfold Client.onWrite at hm
  split at hm
  · split at hm
    · simp at hm
    · obtain rfl := List.mem_singleton.mp hm
      trivial
  · simp at hm

theorem matching_onRead (hs : s.Sent uid) {ok : Bool} {io : Io}
    (hm : io ∈ (s.onRead uid uid ok).2) : Matching io := by
  obtain ⟨r, rs, hl, hu, -⟩ := hs
  cases ok with
  | false => simp [Client.onRead] at hm
  | true =>
    have hio : io = .message uid (some uid) := by simpa [Client.onRead, hl, store, hu] using hm
    rw [hio]
    rfl

theorem matching_step {e : Event} (h : s.Orderly) {io : Io} (hm : io ∈ (s.step e).2) :
    Matching io := by
  cases e with
  | request now time =>
    simp only [Client.step, Client.request] at hm
    split at hm
    · exact matching_doWrite hm
    · simp at hm
  | onWrite i ok =>
    simp only [Client.step] at hm
    split at hm
    · exact matching_onWrite hm
    · simp at hm
  | onRead i ok =>
    simp only [Client.step] at hm
    split at hm
    · next sent uid ho =>
      obtain ⟨he, hs⟩ := h.operation _ (List.mem_of_getElem? ho)
      obtain rfl : uid = sent := he
      have hs' : ({ s with ops := s.ops.eraseIdx i } : Client).Sent uid := hs
      exact matching_onRead hs' hm
    · simp at hm
  | onReadLocked i time | onHandshakeLocked time =>
    simp only [Client.step] at hm
    split at hm
    · exact matching_doWrite hm
    · simp at hm
  | resetRequests | cleanupRequests => simp [Client.step] at hm
  | onReconnect | connectFailed | onHandshake =>
    simp only [Client.step] at hm
    split at hm <;> simp at hm

theorem orderly_init : init.Orderly := by
  constructor <;> simp [init]

/-- In every run of careful events the client has one exchange at a time, and the
message handler gets every response with the request that it answers. -/
theorem single_flight (es : List Event) (h : client.Along Careful init es) :
    (client.run init es).SingleFlight ∧ ∀ io ∈ client.emitted init es, Matching io := by
  constructor
  · exact (Machine.run_invariant Orderly (fun _ _ hs hc => orderly_step hs hc) orderly_init
      h).singleFlight
  · exact Machine.emitted_invariant Orderly Matching (fun _ _ hs hc => orderly_step hs hc)
      (fun _ _ hs _ _ hm => matching_step hs hm) orderly_init h

/-- A request waits behind another, and both are answered. -/
def answeredRequests : List Event :=
  [.onHandshake, .onHandshakeLocked 1, .request 1000 1, .request 1001 1, .onWrite 0 true,
    .onRead 0 true, .onReadLocked 0 1, .onWrite 0 true, .onRead 0 true, .onReadLocked 0 1]

theorem single_flight_answered : (client.run init answeredRequests).SingleFlight ∧
    ∀ io ∈ client.emitted init answeredRequests, Matching io := by
  have ht : (1 : UInt32) ≠ 0 := by decide
  have waits {s : Client} (hs : s.reqRespList ≠ []) : s.Careful (.request 1001 1) :=
    fun _ hl => absurd hl hs
  refine single_flight answeredRequests ⟨trivial, ht, fun _ _ => ⟨ht, rfl, rfl⟩,
    waits (List.cons_ne_nil _ _), trivial, trivial, ht, trivial, trivial, ht, trivial⟩

/-! ### A reset in flight -/

/-- A request is being written and another one is queued when the queue is reset. -/
def resetInFlight : List Event :=
  [.onHandshake, .onHandshakeLocked 1, .request 1000 1, .request 1001 1, .resetRequests]

theorem flight_lost : ¬∀ es : List Event,
    (client.run init es).SingleFlight ∧ ∀ io ∈ client.emitted init es, Matching io := by
  intro h
  have ho : (client.run init resetInFlight).ops = [.write 0] := by decide
  have hf : (client.run init resetInFlight).front = some 1 := by decide
  have hs := ((h resetInFlight).1.operation (.write 0) (by simp [ho])).1
  simp [hf, Op.sent] at hs

end Client

end BotTrader.Https
