import BotTrader.Https.Owner

/-! The client when each of its handlers is one step and its queue is reset but never
cleaned up. It has one exchange at a time, and as long as one is under way the queue is
not empty, though a reset can take the request of the exchange out of it. The responses
that are stored in the queue do not outlive their handler. An owner that makes one
request over and over has no other one queued or on the stream. -/

namespace BotTrader.Https

open Automata

namespace Client

variable {s : Client} {os : List Io} {time : UInt32}

structure Serial (s : Client) : Prop where
  single : s.ops.length + s.answered.length + s.greeted + s.reconnects + s.connecting ≤ 1
  unready : 0 < s.connecting → s.ready = false
  queued : 0 < s.ops.length + s.answered.length ∨ 0 < s.reconnects ∧ s.ready = true →
    s.reqRespList ≠ []
  /-- The request of an exchange is the front of the queue, or not in it. -/
  object : ∀ op ∈ s.ops, op.object ∉ s.uids.tail
  bound : ∀ op ∈ s.ops, op.sent < s.created ∧ op.object < s.created
  fresh : ∀ r ∈ s.reqRespList.tail, r.response = none
  unanswered : s.answered = [] → ∀ r ∈ s.reqRespList, r.response = none

/-- Handlers are not interrupted: no request comes between a handshake and the write that
follows it. -/
def Timely (s : Client) : Event → Prop
  | .request .. => s.greeted = 0
  | .cleanupRequests .. => False
  | _ => True

theorem keepLast_eq {rs : List ReqResp} (h : rs ≠ []) : ∃ r ∈ rs, keepLast rs = [r] := by
  induction rs with
  | nil => exact absurd rfl h
  | cons r rs ih =>
    cases rs with
    | nil => exact ⟨r, List.mem_singleton_self r, rfl⟩
    | cons r' rs =>
      obtain ⟨x, hx, he⟩ := ih (List.cons_ne_nil r' rs)
      exact ⟨x, List.mem_cons_of_mem r hx, he⟩

theorem tail_keepLast (rs : List ReqResp) : (keepLast rs).tail = [] := by
  cases rs with
  | nil => rfl
  | cons r rs =>
    obtain ⟨x, -, he⟩ := keepLast_eq (List.cons_ne_nil r rs)
    rw [he, List.tail_cons]

/-! ### What is under way -/

/-- The front of the queue is as unanswered under another time of sending. -/
theorem unanswered_resent {r : ReqResp} {rs : List ReqResp} (time : UInt32)
    (hf : ∀ x ∈ r :: rs, x.response = none) :
    ∀ x ∈ { r with sendTime := time } :: rs, x.response = none := by
  intro x hx
  rcases List.mem_cons.mp hx with rfl | hx
  · exact hf r List.mem_cons_self
  · exact hf x (List.mem_cons_of_mem r hx)

/-- An idle client writes the front of its queue. -/
theorem Idle.write (h : s.Idle) (hs : s.Submissions os)
    (hf : ∀ r ∈ s.reqRespList, r.response = none) (time : UInt32) :
    (s.doWrite time).1.Serial := by
  obtain ⟨ho, ha, hg, hr, hc⟩ := h
  cases hl : s.reqRespList with
  | nil =>
    have hd : (s.doWrite time).1 = s := by simp [Client.doWrite, hl]
    rw [hd]
    constructor <;> simp [ho, ha, hg, hr, hc, hl]
  | cons r rs =>
    rw [hl] at hf
    have hu : s.uids = r.uid :: rs.map ReqResp.uid := by simp [uids, hl]
    have hn : r.uid ∉ rs.map ReqResp.uid := by
      have := hs.nodup
      rw [hu, List.nodup_cons] at this
      exact this.1
    have hb : r.uid < s.created := hs.created _ (by simp [hu])
    have hd : (s.doWrite time).1 = { s with
        reqRespList := { r with sendTime := time } :: rs
        ops := [.write r.uid] } := by simp [Client.doWrite, hl, ho]
    rw [hd]
    constructor
    case single => simp [ha, hg, hr, hc]
    case unready => simp [hc]
    case queued => simp
    case object => simpa [uids, Op.object] using hn
    case bound => simpa [Op.sent, Op.object] using hb
    case fresh => exact fun x hx => hf x (List.mem_cons_of_mem r hx)
    case unanswered => exact fun _ => unanswered_resent time hf

/-- A client that lost its operation has a reconnect posted. -/
theorem Idle.failed (h : s.Idle) (hq : s.reqRespList ≠ [])
    (hf : ∀ r ∈ s.reqRespList, r.response = none) : s.fail.Serial := by
  obtain ⟨ho, ha, hg, hr, hc⟩ := h
  obtain ⟨r, rs, hl⟩ := List.exists_cons_of_ne_nil hq
  rw [hl] at hf
  have hd : s.fail = { s with
      reqRespList := { r with sendTime := 0 } :: rs, reconnects := 1 } := by
    simp [Client.fail, hl, hr]
  rw [hd]
  constructor
  case single => simp [ho, ha, hg, hc]
  case unready => simp [hc]
  case queued => simp
  case object => simp [ho]
  case bound => simp [ho]
  case fresh => exact fun x hx => hf x (List.mem_cons_of_mem r hx)
  case unanswered => exact fun _ => unanswered_resent 0 hf

/-- After its request is written, an exchange reads. -/
theorem Idle.reads (h : s.Idle) (hs : s.Submissions os) (hq : s.reqRespList ≠ [])
    (hf : ∀ r ∈ s.reqRespList, r.response = none) {sent : ℕ} (hsent : sent < s.created) :
    (s.onWrite sent true).1.Serial := by
  obtain ⟨ho, ha, hg, hr, hc⟩ := h
  obtain ⟨r, rs, hl⟩ := List.exists_cons_of_ne_nil hq
  rw [hl] at hf
  have hu : s.uids = r.uid :: rs.map ReqResp.uid := by simp [uids, hl]
  have hn := hs.nodup
  rw [hu, List.nodup_cons] at hn
  have hb : r.uid < s.created := hs.created _ (by simp [hu])
  have hd : (s.onWrite sent true).1 = { s with ops := [.read sent r.uid] } := by
    simp [Client.onWrite, hl, ho]
  rw [hd]
  constructor
  case single => simp [ha, hg, hr, hc]
  case unready => simp [hc]
  case queued => simp [hl]
  case object => simpa [uids, hl, Op.object] using hn.1
  case bound => simpa [Op.sent, Op.object] using ⟨hsent, hb⟩
  case fresh =>
    rw [hl]
    exact fun x hx => hf x (List.mem_cons_of_mem r hx)
  case unanswered =>
    rw [hl]
    exact fun _ => hf

/-- After its response is read, an exchange waits for the lock. -/
theorem Idle.answers (h : s.Idle) (hq : s.reqRespList ≠ [])
    (hf : ∀ r ∈ s.reqRespList, r.response = none) {sent uid : ℕ} (hu : uid ∉ s.uids.tail) :
    (s.onRead sent uid true).1.Serial := by
  obtain ⟨ho, ha, hg, hr, hc⟩ := h
  obtain ⟨r, rs, hl⟩ := List.exists_cons_of_ne_nil hq
  rw [hl] at hf
  rw [uids, hl] at hu
  have hrs : store sent uid rs = rs := calc
    store sent uid rs = rs.map id :=
      List.map_congr_left fun x hx => if_neg fun he => hu (List.mem_map.mpr ⟨x, hx, he⟩)
    _ = rs := List.map_id rs
  have hl' : store sent uid s.reqRespList =
      (if r.uid = uid then { r with response := some sent } else r) :: rs := by
    rw [hl, store, List.map_cons, ← store, hrs]
  have hd : (s.onRead sent uid true).1 = { s with
      reqRespList := (if r.uid = uid then { r with response := some sent } else r) :: rs
      answered := [sent] } := by
    simp [Client.onRead, hl', ha]
  rw [hd]
  constructor
  case single => simp [ho, hg, hr, hc]
  case unready => simp [hc]
  case queued => simp
  case object => simp [ho]
  case bound => simp [ho]
  case fresh => exact fun x hx => hf x (List.mem_cons_of_mem r hx)
  case unanswered => exact fun h => absurd h (List.cons_ne_nil _ _)

/-! ### Steps -/

namespace Serial

/-- One handler or connection gives way to another. -/
theorem move (h : s.Serial) {ready : Bool} {greeted reconnects connecting : ℕ}
    (hn : greeted + reconnects + connecting ≤ s.greeted + s.reconnects + s.connecting)
    (hr : 0 < connecting → ready = false)
    (hq : 0 < reconnects ∧ ready = true → s.reqRespList ≠ []) :
    ({ s with
      ready := ready
      greeted := greeted
      reconnects := reconnects
      connecting := connecting } : Client).Serial where
  single := by
    have := h.single
    show s.ops.length + s.answered.length + greeted + reconnects + connecting ≤ 1
    omega
  unready := hr
  queued hp := hp.elim (fun hp => h.queued (.inl hp)) hq
  object := h.object
  bound := h.bound
  fresh := h.fresh
  unanswered := h.unanswered

/-- A request that is not written at once waits behind the others. -/
theorem push (h : s.Serial) (now : UInt64) :
    ({ s with
      reqRespList := s.reqRespList ++ [⟨s.created, now, 0, none⟩]
      created := s.created + 1 } : Client).Serial where
  single := h.single
  unready := h.unready
  queued _ := by simp
  object op ho hm := by
    have hu : op.object ∈ (s.uids ++ [s.created]).tail := by simpa [uids] using hm
    rcases mem_tail_push hu with hm | hm
    · exact h.object op ho hm
    · exact Nat.ne_of_lt (h.bound op ho).2 hm
  bound op ho := (h.bound op ho).imp Nat.lt_succ_of_lt Nat.lt_succ_of_lt
  fresh r hr := by
    cases hl : s.reqRespList with
    | nil => simp [hl] at hr
    | cons x xs =>
      have hf := h.fresh
      simp only [hl, List.cons_append, List.tail_cons, List.mem_append, List.mem_singleton] at hr hf
      rcases hr with hr | rfl
      · exact hf r hr
      · rfl
  unanswered ha r hr := by
    rcases List.mem_append.mp hr with hr | hr
    · exact h.unanswered ha r hr
    · obtain rfl := List.mem_singleton.mp hr
      rfl

theorem reset (h : s.Serial) : ({ s with reqRespList := keepLast s.reqRespList } : Client).Serial where
  single := h.single
  unready := h.unready
  queued hp := by
    obtain ⟨r, -, he⟩ := keepLast_eq (h.queued hp)
    show keepLast s.reqRespList ≠ []
    rw [he]
    exact List.cons_ne_nil r []
  object op ho hm := by
    rw [uids, ← List.map_tail, tail_keepLast] at hm
    exact List.not_mem_nil hm
  bound := h.bound
  fresh r hr := by
    rw [tail_keepLast] at hr
    exact absurd hr List.not_mem_nil
  unanswered ha r hr := h.unanswered ha r ((keepLast_suffix s.reqRespList).subset hr)

end Serial

theorem serial_init : init.Serial := by
  constructor <;> simp [init]

theorem serial_step {e : Event} (h : s.Serial) (hs : s.Submissions os) (he : s.Timely e) :
    (s.step e).1.Serial := by
  -- an operation that completes leaves the client idle, with its queue as it was
  have completed {i : ℕ} {op : Op} (ho : s.ops[i]? = some op) :
      ({ s with ops := s.ops.eraseIdx i } : Client).Idle ∧ s.reqRespList ≠ [] ∧
        (∀ r ∈ s.reqRespList, r.response = none) ∧
        ({ s with ops := s.ops.eraseIdx i } : Client).Submissions os := by
    obtain ⟨hi, -⟩ := List.getElem?_eq_some_iff.mp ho
    have ha : s.answered = [] := by
      have := h.single
      exact List.length_eq_zero_iff.mp (by omega)
    exact ⟨idle_eraseOp h.single ho, h.queued (.inl (by omega)), h.unanswered ha,
      hs.shrink (List.Sublist.refl _) rfl fun _ => List.mem_of_mem_eraseIdx⟩
  cases e with
  | request now time =>
    simp only [Client.step, Client.request]
    split
    · next hr =>
      have hnil : s.reqRespList = [] := by simpa using hr.2
      -- nothing is under way, since the queue is empty
      have hidle : s.ops = [] ∧ s.answered = [] ∧ s.reconnects = 0 ∧ s.connecting = 0 := by
        have hq := mt h.queued (not_not_intro hnil)
        have hc : ¬0 < s.connecting := fun hp => by simp [h.unready hp] at hr
        simp only [hr.1, and_true, not_or] at hq
        exact ⟨List.length_eq_zero_iff.mp (by omega), List.length_eq_zero_iff.mp (by omega),
          by omega, by omega⟩
      obtain ⟨ho, ha, hrec, hc⟩ := hidle
      have hi : ({ s with
          reqRespList := s.reqRespList ++ [⟨s.created, now, 0, none⟩]
          created := s.created + 1 } : Client).Idle := ⟨ho, ha, he, hrec, hc⟩
      refine hi.write (hs.push now) (fun r hm => ?_) time
      simp only [hnil, List.nil_append, List.mem_singleton] at hm
      rw [hm]
    · exact h.push now
  | resetRequests => exact h.reset
  | cleanupRequests interval now => exact he.elim
  | onWrite i ok =>
    simp only [Client.step]
    split
    · next uid ho =>
      obtain ⟨hi, hq, hf, hs'⟩ := completed ho
      cases ok with
      | false => exact hi.failed hq hf
      | true => exact hi.reads hs' hq hf (h.bound _ (List.mem_of_getElem? ho)).1
    · exact h
  | onRead i ok =>
    simp only [Client.step]
    split
    · next sent uid ho =>
      obtain ⟨hi, hq, hf, -⟩ := completed ho
      cases ok with
      | false => exact hi.failed hq hf
      | true => exact hi.answers hq hf (h.object _ (List.mem_of_getElem? ho))
    · exact h
  | onReadLocked i time =>
    simp only [Client.step]
    split
    · next hi =>
      have hs' : ({ s with
          answered := s.answered.eraseIdx i
          reqRespList := s.reqRespList.tail } : Client).Submissions os :=
        hs.shrink ((List.tail_sublist s.reqRespList).map ReqResp.uid) rfl fun _ => id
      exact (idle_eraseAnswered h.single hi _).write hs' h.fresh time
    · exact h
  | onReconnect =>
    simp only [Client.step]
    split
    · exact h.move (by omega) (fun _ => rfl) (fun hp => absurd hp.2 (by simp))
    · exact h
  | connectFailed =>
    simp only [Client.step]
    split
    · next hp =>
      have hr := h.unready hp
      exact h.move (by omega) (fun _ => hr) (fun hp => absurd hp.2 (by simp [hr]))
    · exact h
  | onHandshake =>
    simp only [Client.step]
    split
    · have := h.single
      exact h.move (by omega) (by omega) (by omega)
    · exact h
  | onHandshakeLocked time =>
    simp only [Client.step]
    split
    · next hg =>
      have ha : s.answered = [] := by
        have := h.single
        exact List.length_eq_zero_iff.mp (by omega)
      have hs' : ({ s with greeted := s.greeted - 1 } : Client).Submissions os :=
        hs.shrink (List.Sublist.refl _) rfl fun _ => id
      exact (idle_eraseGreeted h.single hg).write hs' (h.unanswered ha) time
    · exact h

/-! ### Requests in the queue or on the stream -/

def Outstanding (s : Client) (uid : ℕ) : Prop := uid ∈ s.uids ∨ uid ∈ s.ops.map Op.sent

theorem ops_doWrite {op : Op} (h : op ∈ (s.doWrite time).1.ops) : op ∈ s.ops ∨ op.sent ∈ s.uids := by
  unfold Client.doWrite at h
  split at h
  · exact .inl h
  · next r rs hl =>
    rcases List.mem_append.mp h with h | h
    · exact .inl h
    · obtain rfl := List.mem_singleton.mp h
      exact .inr (by simp [uids, hl, Op.sent])

theorem outstanding_doWrite {uid : ℕ} (h : (s.doWrite time).1.Outstanding uid) :
    s.Outstanding uid := by
  rcases h with h | h
  · rw [uids_doWrite] at h
    exact .inl h
  · obtain ⟨op, ho, rfl⟩ := List.mem_map.mp h
    exact (ops_doWrite ho).elim (fun ho => .inr (List.mem_map_of_mem ho)) .inl

theorem outstanding_fail {uid : ℕ} (h : s.fail.Outstanding uid) : s.Outstanding uid :=
  h.imp_left fun h => by rwa [uids_fail] at h

theorem Outstanding.mono {s' : Client} {uid : ℕ} (h : s'.Outstanding uid) (hu : s'.uids ⊆ s.uids)
    (ho : s'.ops ⊆ s.ops) : s.Outstanding uid :=
  h.imp (fun h => hu h) fun h => List.map_subset _ ho h

/-- Nothing but a request adds to the outstanding ones. -/
theorem outstanding_step {e : Event} {uid : ℕ} (h : (s.step e).1.Outstanding uid) :
    s.Outstanding uid ∨ uid = s.created ∧ ∃ now time, e = .request now time := by
  have erased (i : ℕ) {uid : ℕ}
      (h : ({ s with ops := s.ops.eraseIdx i } : Client).Outstanding uid) : s.Outstanding uid :=
    h.mono (List.Subset.refl _) fun _ => List.mem_of_mem_eraseIdx
  cases e with
  | request now time =>
    have hp : ({ s with
        reqRespList := s.reqRespList ++ [⟨s.created, now, 0, none⟩]
        created := s.created + 1 } : Client).Outstanding uid := by
      simp only [Client.step, Client.request] at h
      split at h
      · exact outstanding_doWrite h
      · exact h
    rcases hp with hp | hp
    · have hu : uid ∈ s.uids ∨ uid = s.created := by simpa [uids] using hp
      exact hu.imp .inl fun hu => ⟨hu, now, time, rfl⟩
    · exact .inl (.inr hp)
  | resetRequests =>
    exact .inl (h.mono (List.map_subset _ (keepLast_suffix s.reqRespList).subset) fun _ => id)
  | cleanupRequests interval now =>
    exact .inl (h.mono (List.map_subset _ (cleanup_sublist interval now _).subset) fun _ => id)
  | onWrite i ok =>
    refine .inl ?_
    simp only [Client.step] at h
    split at h
    · next sent ho =>
      cases ok with
      | false => exact erased i (outstanding_fail h)
      | true =>
        simp only [Client.onWrite, if_true] at h
        split at h
        · exact erased i h
        · rcases h with h | h
          · exact .inl h
          · simp only [List.map_append, List.mem_append, List.map_cons, List.map_nil,
              List.mem_singleton] at h
            rcases h with h | rfl
            · exact erased i (.inr h)
            · exact .inr (List.mem_map_of_mem (List.mem_of_getElem? ho))
    · exact h
  | onRead i ok =>
    refine .inl ?_
    simp only [Client.step] at h
    split at h
    · next sent uid' ho =>
      cases ok with
      | false => exact erased i (outstanding_fail h)
      | true =>
        apply erased i
        rw [Outstanding, uids_onRead] at h
        refine h.imp_right fun h => ?_
        simp only [Client.onRead, if_true] at h
        split at h <;> exact h
    · exact h
  | onReadLocked i time =>
    refine .inl ?_
    simp only [Client.step] at h
    split at h
    · exact (outstanding_doWrite h).mono (List.map_subset _ (List.tail_sublist _).subset) fun _ => id
    · exact h
  | onHandshakeLocked time =>
    refine .inl ?_
    simp only [Client.step] at h
    split at h
    · have hg : ({ s with greeted := s.greeted - 1 } : Client).Outstanding uid :=
        outstanding_doWrite h
      exact hg
    · exact h
  | onReconnect | connectFailed | onHandshake =>
    refine .inl ?_
    simp only [Client.step] at h
    split at h <;> exact h

theorem Serial.lt_created (h : s.Serial) (hs : s.Submissions os) {uid : ℕ}
    (hu : s.Outstanding uid) : uid < s.created := by
  rcases hu with hu | hu
  · exact hs.created uid hu
  · obtain ⟨op, ho, rfl⟩ := List.mem_map.mp hu
    exact (h.bound op ho).1

/-! ### The handlers in between -/

/-- Only a response that is read lets a handler wait for the lock. -/
theorem answered_step {e : Event} (he : ∀ i, e ≠ .onRead i true) (h : s.answered = []) :
    (s.step e).1.answered = [] := by
  cases e with
  | request now time =>
    simp only [Client.step, Client.request]
    split
    · simpa using h
    · exact h
  | onWrite i ok =>
    simp only [Client.step, Client.onWrite]
    grind [Client.fail]
  | onRead i ok =>
    cases ok with
    | true => exact absurd rfl (he i)
    | false =>
      simp only [Client.step, Client.onRead]
      grind [Client.fail]
  | onReadLocked i time =>
    simp only [Client.step, h, List.length_nil, Nat.not_lt_zero, if_false]
  | onHandshakeLocked time =>
    simp only [Client.step]
    split
    · simpa using h
    · exact h
  | resetRequests | cleanupRequests => exact h
  | onReconnect | connectFailed | onHandshake =>
    simp only [Client.step]
    split <;> exact h

/-- Only a handshake lets a handler wait to write. -/
theorem greeted_step {e : Event} (he : e ≠ .onHandshake) (h : s.greeted = 0) :
    (s.step e).1.greeted = 0 := by
  rcases greeted_le_step s e with hle | ⟨hn, -⟩
  · exact Nat.le_zero.mp (h ▸ hle)
  · exact absurd hn he

theorem greeted_handshake (h : s.greeted = 0) (time : UInt32) :
    ((s.step .onHandshake).1.step (.onHandshakeLocked time)).1.greeted = 0 := by
  simp only [Client.step]
  split
  · simp [h]
  · simp [h]

/-- A handler that resets the queue and makes a request leaves only that: it is written. -/
theorem replaced (hq : s.reqRespList ≠ []) (ho : s.ops = []) {sent : ℕ} (ha : s.answered = [sent])
    (now : UInt64) (time : UInt32) (time' : UInt32) :
    ∃ r, (((s.step .resetRequests).1.step (.request now time)).1.step
        (.onReadLocked 0 time')).1 = { s with
      reqRespList := [r]
      created := s.created + 1
      ops := [.write s.created]
      answered := [] } ∧ r.uid = s.created := by
  obtain ⟨x, -, he⟩ := keepLast_eq hq
  simp [Client.step, Client.request, he, ha, Client.doWrite, ho]

end Client

/-! ### One request over and over -/

/-- Of the requests that are outstanding, each is `r`. -/
structure Offers {ρ α : Type} (r : ρ) (s : Owner ρ α) : Prop where
  serial : s.http.Serial
  submissions : ∃ os, s.http.Submissions os
  request : ∀ uid, s.http.Outstanding uid → s.request uid = r

namespace Offers

variable {ρ α : Type} {r : ρ} {s : Owner ρ α}

theorem modify (h : Offers r s) (f : α → α) : Offers r (s.modify f) :=
  ⟨h.serial, h.submissions, h.request⟩

theorem perform (h : Offers r s) {e : Event} (he : s.http.Timely e)
    (hn : ∀ now time, e ≠ .request now time) : Offers r (s.perform e) := by
  obtain ⟨os, hs⟩ := h.submissions
  refine ⟨Client.serial_step h.serial hs he, ⟨_, Client.submissions_step hs e⟩, fun uid hu => ?_⟩
  rcases Client.outstanding_step hu with hu | ⟨-, now, time, he⟩
  · exact h.request uid hu
  · exact absurd he (hn now time)

theorem push (h : Offers r s) (hg : s.http.greeted = 0) (now : UInt64) (time : UInt32) :
    Offers r (s.push r now time) := by
  obtain ⟨os, hs⟩ := h.submissions
  refine ⟨Client.serial_step h.serial hs hg, ⟨_, Client.submissions_step hs _⟩, fun uid hu => ?_⟩
  show Function.update s.request s.http.created r uid = r
  rcases Client.outstanding_step hu with hu | ⟨rfl, -⟩
  · rw [Function.update_of_ne (Nat.ne_of_lt (h.serial.lt_created hs hu))]
    exact h.request uid hu
  · exact Function.update_self _ _ _

theorem read (h : Offers r s) (i : ℕ) (resp : Response) : Offers r (s.read i resp) := by
  have hr : Offers r (s.receive i resp) := by
    refine ⟨?_, ?_, ?_⟩
    · rw [Owner.http_receive]
      exact h.serial
    · rw [Owner.http_receive]
      exact h.submissions
    · rw [Owner.http_receive, Owner.request_receive]
      exact h.request
  exact hr.perform trivial (by simp)

/-- A handler that resets the queue and makes another request. -/
theorem replace (h : Offers r s) (hq : s.http.reqRespList ≠ []) (ho : s.http.ops = []) {sent : ℕ}
    (ha : s.http.answered = [sent]) (hg : s.http.greeted = 0) (r' : ρ) (now : UInt64)
    (time time' : UInt32) :
    Offers r' (((s.perform .resetRequests).push r' now time).perform (.onReadLocked 0 time')) := by
  obtain ⟨x, hx, hu⟩ := Client.replaced hq ho ha now time time'
  -- the client does not depend on what is requested
  have hr : Offers r (((s.perform .resetRequests).push r now time).perform (.onReadLocked 0 time')) :=
    ((h.perform (e := .resetRequests) trivial (by simp)).push hg now time).perform trivial (by simp)
  refine ⟨hr.serial, hr.submissions, fun uid hout => ?_⟩
  have hout' : (((s.http.step .resetRequests).1.step (.request now time)).1.step
      (.onReadLocked 0 time')).1.Outstanding uid := hout
  rw [hx] at hout'
  obtain rfl : uid = s.http.created := by
    rcases hout' with hm | hm
    · simpa [Client.uids, hu] using hm
    · simpa [Op.sent] using hm
  exact Function.update_self _ _ _

end Offers

namespace Owner

variable {ρ α : Type} {s : Owner ρ α} {i : ℕ} {resp : Response}

theorem read_of_ne (resp : Response) (ho : ∀ sent uid, s.http.ops[i]? ≠ some (.read sent uid)) :
    s.handed i resp = none ∧ s.read i resp = s := by
  have hstep : s.http.step (.onRead i true) = (s.http, []) ∧ s.receive i resp = s := by
    cases hop : s.http.ops[i]? with
    | none => simp [Client.step, receive, hop]
    | some op =>
      cases op with
      | write uid => simp [Client.step, receive, hop]
      | read sent uid => exact absurd hop (ho sent uid)
  obtain ⟨hstep, hrec⟩ := hstep
  refine ⟨by simp [handed, hstep], ?_⟩
  rw [read, hrec, perform, hstep]

/-- What is handed over is the response, unless its request was taken out of the queue. -/
theorem handed_of_read {sent uid : ℕ} {r : ReqResp} {rs : List ReqResp}
    (ho : s.http.ops[i]? = some (.read sent uid)) (hl : s.http.reqRespList = r :: rs)
    (hr : r.response = none) :
    s.handed i resp = some (s.request r.uid, if r.uid = uid then resp else {}) := by
  by_cases hu : r.uid = uid
  · simp [handed, Client.step, Client.onRead, Client.store, ho, hl, hu, receive]
  · simp [handed, Client.step, Client.onRead, Client.store, ho, hl, hu, hr]

end Owner

end BotTrader.Https
