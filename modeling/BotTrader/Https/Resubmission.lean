import Mathlib.Data.List.Nodup
import BotTrader.Https.SingleFlight

/-! Which requests are written a second time. The queue serves polls and orders
alike: a failed read puts the request back to unsent, and the next connection
writes the front of the queue, whatever was written of it before. -/

namespace BotTrader.Https

open Automata

namespace Client

variable {s s' : Client} {os : List Io} {uid : ℕ} {time : UInt32}

def uids (s : Client) : List ℕ := s.reqRespList.map ReqResp.uid

/-- The event ends the write of the request without an error. -/
def Completes (s : Client) (uid : ℕ) : Event → Prop
  | .onWrite i true => s.ops[i]? = some (.write uid)
  | _ => False

/-- The queue after the outputs `os`: what was ever passed to `async_write` is
not queued behind the front. -/
structure Submissions (s : Client) (os : List Io) : Prop where
  nodup : s.uids.Nodup
  created : ∀ uid ∈ s.uids, uid < s.created
  submitted : ∀ uid, .asyncWrite uid ∈ os → uid < s.created ∧ uid ∉ s.uids.tail
  started : ∀ uid, .write uid ∈ s.ops → .asyncWrite uid ∈ os

/-! ### What the methods do to the queue -/

theorem keepLast_suffix (rs : List ReqResp) : keepLast rs <:+ rs := by
  induction rs with
  | nil => exact List.suffix_refl _
  | cons r rs ih =>
    cases rs with
    | nil => exact List.suffix_refl _
    | cons r' rs => exact ih.trans (List.suffix_cons r _)

theorem uids_store (sent uid : ℕ) (rs : List ReqResp) :
    (store sent uid rs).map ReqResp.uid = rs.map ReqResp.uid := by
  simp only [store, List.map_map]
  congr 1
  funext r
  simp only [Function.comp_apply]
  split <;> rfl

theorem uids_fail (s : Client) : s.fail.uids = s.uids := by
  unfold Client.fail uids
  cases s.reqRespList <;> rfl

theorem uids_doWrite (s : Client) (time : UInt32) : (s.doWrite time).1.uids = s.uids := by
  unfold Client.doWrite uids
  split <;> simp_all

theorem mem_tail_push {l : List ℕ} {a x : ℕ} (h : x ∈ (l ++ [a]).tail) : x ∈ l.tail ∨ x = a := by
  cases l with
  | nil => simp at h
  | cons b l => simpa using h

/-- Only the front is written. -/
theorem mem_doWrite {io : Io} (h : io ∈ (s.doWrite time).2) :
    ∃ r rs, s.reqRespList = r :: rs ∧ io = .asyncWrite r.uid := by
  unfold Client.doWrite at h
  split at h
  · simp at h
  · next r rs hl => exact ⟨r, rs, hl, List.mem_singleton.mp h⟩

/-! ### Submissions along a run -/

/-- A change that only takes requests out of the queue, and starts no write. -/
theorem Submissions.shrink (h : s.Submissions os) (hq : s'.uids.Sublist s.uids)
    (hc : s'.created = s.created) (ho : ∀ uid, .write uid ∈ s'.ops → .write uid ∈ s.ops) :
    s'.Submissions os where
  nodup := h.nodup.sublist hq
  created uid hu := by
    rw [hc]
    exact h.created uid (hq.subset hu)
  submitted uid hu := by
    rw [hc]
    exact ⟨(h.submitted uid hu).1, fun ht => (h.submitted uid hu).2 (hq.tail.subset ht)⟩
  started uid hu := h.started uid (ho uid hu)

/-- Outputs that are no writes. -/
theorem Submissions.append {os' : List Io} (h : s.Submissions os)
    (ho : ∀ uid, .asyncWrite uid ∉ os') : s.Submissions (os ++ os') where
  nodup := h.nodup
  created := h.created
  submitted uid hu := h.submitted uid ((List.mem_append.mp hu).resolve_right (ho uid))
  started uid hu := List.mem_append_left _ (h.started uid hu)

theorem Submissions.push (h : s.Submissions os) (now : UInt64) :
    ({ s with
      reqRespList := s.reqRespList ++ [⟨s.created, now, 0, none⟩]
      created := s.created + 1 } : Client).Submissions os := by
  have hu : ({ s with
      reqRespList := s.reqRespList ++ [⟨s.created, now, 0, none⟩]
      created := s.created + 1 } : Client).uids = s.uids ++ [s.created] := by
    simp [uids]
  have hnew : s.created ∉ s.uids := fun hm => Nat.lt_irrefl _ (h.created _ hm)
  refine ⟨?_, fun uid hm => ?_, fun uid hm => ?_, h.started⟩
  · rw [hu]
    exact List.nodup_append.mpr ⟨h.nodup, List.nodup_singleton _, by
      rintro a ha b hb rfl
      exact hnew (List.mem_singleton.mp hb ▸ ha)⟩
  · rw [hu, List.mem_append, List.mem_singleton] at hm
    rcases hm with hm | rfl
    · exact Nat.lt_succ_of_lt (h.created uid hm)
    · exact Nat.lt_succ_self _
  · obtain ⟨hlt, ht⟩ := h.submitted uid hm
    refine ⟨Nat.lt_succ_of_lt hlt, fun hm => ?_⟩
    rw [hu] at hm
    rcases mem_tail_push hm with hm | rfl
    · exact ht hm
    · exact Nat.lt_irrefl _ hlt

/-- The front is written, which no longer counts as queued behind it. -/
theorem Submissions.doWrite (h : s.Submissions os) (time : UInt32) :
    (s.doWrite time).1.Submissions (os ++ (s.doWrite time).2) := by
  have hu := uids_doWrite s time
  have hc : (s.doWrite time).1.created = s.created := by
    unfold Client.doWrite
    split <;> rfl
  refine ⟨?_, ?_, fun uid hm => ?_, fun uid hm => ?_⟩
  · rw [hu]
    exact h.nodup
  · rw [hu, hc]
    exact h.created
  · rw [hu, hc]
    rcases List.mem_append.mp hm with hm | hm
    · exact h.submitted uid hm
    · obtain ⟨r, rs, hl, hio⟩ := mem_doWrite hm
      obtain rfl : uid = r.uid := by simpa using hio
      have hul : s.uids = r.uid :: rs.map ReqResp.uid := by simp [uids, hl]
      have hn := h.nodup
      rw [hul, List.nodup_cons] at hn
      refine ⟨h.created _ (by simp [hul]), ?_⟩
      rw [hul]
      exact hn.1
  · unfold Client.doWrite at hm ⊢
    split at hm
    · exact List.mem_append_left _ (h.started uid hm)
    · next r rs hl =>
      rcases List.mem_append.mp hm with hm | hm
      · exact List.mem_append_left _ (h.started uid hm)
      · obtain rfl : uid = r.uid := by simpa using hm
        exact List.mem_append_right _ (by simp)

theorem submissions_request (h : s.Submissions os) (now : UInt64) (time : UInt32) :
    (s.request now time).1.Submissions (os ++ (s.request now time).2) := by
  simp only [Client.request]
  split
  · exact (h.push now).doWrite time
  · simpa using h.push now

theorem Submissions.fail (h : s.Submissions os) : s.fail.Submissions os :=
  h.shrink (by rw [uids_fail]) rfl fun _ => id

theorem submissions_onWrite (h : s.Submissions os) (sent : ℕ) (ok : Bool) :
    (s.onWrite sent ok).1.Submissions (os ++ (s.onWrite sent ok).2) := by
  unfold Client.onWrite
  split
  · split
    · simpa using h
    · refine Submissions.append (h.shrink (List.Sublist.refl _) rfl ?_) ?_ <;> simp
  · simpa using h.fail

theorem submissions_onRead (h : s.Submissions os) (sent uid : ℕ) (ok : Bool) :
    (s.onRead sent uid ok).1.Submissions (os ++ (s.onRead sent uid ok).2) := by
  have hstore : ({ s with reqRespList := store sent uid s.reqRespList } : Client).Submissions os :=
    h.shrink (by rw [uids, uids_store]; rfl) rfl fun _ => id
  unfold Client.onRead
  split
  · simp only
    split
    · simpa using hstore
    · refine Submissions.append (hstore.shrink (List.Sublist.refl _) rfl ?_) ?_ <;> simp
  · simpa using h.fail

theorem submissions_step (h : s.Submissions os) (e : Event) :
    (s.step e).1.Submissions (os ++ (s.step e).2) := by
  have quiet {s' : Client} (hq : s'.uids.Sublist s.uids) (hc : s'.created = s.created)
      (ho : ∀ uid, .write uid ∈ s'.ops → .write uid ∈ s.ops) : s'.Submissions (os ++ []) :=
    (h.shrink hq hc ho).append fun _ => List.not_mem_nil
  have same : s.Submissions (os ++ []) := quiet (List.Sublist.refl _) rfl fun _ => id
  have erased (i : ℕ) : ({ s with ops := s.ops.eraseIdx i } : Client).Submissions os :=
    h.shrink (List.Sublist.refl _) rfl fun _ => List.mem_of_mem_eraseIdx
  cases e with
  | request now time => exact submissions_request h now time
  | resetRequests =>
    exact quiet ((keepLast_suffix s.reqRespList).sublist.map _) rfl fun _ => id
  | cleanupRequests interval now =>
    exact quiet ((cleanup_sublist interval now s.reqRespList).map _) rfl fun _ => id
  | onWrite i ok =>
    simp only [Client.step]
    split
    · exact submissions_onWrite (erased i) _ ok
    · exact same
  | onRead i ok =>
    simp only [Client.step]
    split
    · exact submissions_onRead (erased i) _ _ ok
    · exact same
  | onReadLocked i time =>
    simp only [Client.step]
    split
    · refine Submissions.doWrite (s := { s with answered := _, reqRespList := _ }) ?_ time
      exact h.shrink ((List.tail_sublist s.reqRespList).map ReqResp.uid) rfl fun _ => id
    · exact same
  | onHandshakeLocked time =>
    simp only [Client.step]
    split
    · refine Submissions.doWrite (s := { s with greeted := _ }) ?_ time
      exact h.shrink (List.Sublist.refl _) rfl fun _ => id
    · exact same
  | onReconnect | connectFailed | onHandshake =>
    simp only [Client.step]
    split
    · exact quiet (List.Sublist.refl _) rfl fun _ => id
    · exact same

theorem submissions_run (es : List Event) :
    (client.run init es).Submissions (client.emitted init es) := by
  have h₀ : init.Submissions [] :=
    ⟨by simp [uids, init], by simp [uids, init], by simp, by simp [init]⟩
  have h := Machine.run_history (M := client) (P := fun _ _ => True) (fun s os => s.Submissions os)
    (fun _ _ e hs _ => submissions_step hs e) h₀
    (Machine.along_of_forall _ (fun _ _ => trivial) init es)
  simpa using h

/-- Of the requests written before, only a new connection writes one again. -/
theorem handshake_of_resubmitted (h : s.Submissions os) {e : Event}
    (hu : .asyncWrite uid ∈ os) (he : .asyncWrite uid ∈ (s.step e).2) :
    ∃ time, e = .onHandshakeLocked time := by
  obtain ⟨hlt, ht⟩ := h.submitted uid hu
  cases e with
  | onHandshakeLocked time => exact ⟨time, rfl⟩
  | request now time =>
    simp only [Client.step, Client.request] at he
    split at he
    · next hr =>
      obtain ⟨r, rs, hl, hio⟩ := mem_doWrite he
      -- the queue was empty, so its front is the new request
      have hnil : s.reqRespList = [] := by simpa using hr.2
      simp only [hnil, List.nil_append, List.cons.injEq] at hl
      obtain ⟨rfl, -⟩ := hl
      obtain rfl : uid = s.created := by simpa using hio
      exact absurd hlt (Nat.lt_irrefl _)
    · simp at he
  | onReadLocked i time =>
    simp only [Client.step] at he
    split at he
    · obtain ⟨r, rs, hl, hio⟩ := mem_doWrite he
      obtain rfl : uid = r.uid := by simpa using hio
      refine absurd ?_ ht
      rw [uids, ← List.map_tail]
      have hl' : s.reqRespList.tail = r :: rs := hl
      rw [hl']
      exact List.mem_cons_self
    · simp at he
  | onWrite i ok =>
    simp only [Client.step] at he
    split at he
    · unfold Client.onWrite at he
      split at he
      · split at he <;> simp at he
      · simp at he
    · simp at he
  | onRead i ok =>
    simp only [Client.step] at he
    split at he
    · unfold Client.onRead at he
      split at he
      · simp only at he
        split at he <;> simp at he
      · simp at he
    · simp at he
  | resetRequests | cleanupRequests => simp [Client.step] at he
  | onReconnect | connectFailed | onHandshake =>
    simp only [Client.step] at he
    split at he <;> simp at he

theorem greeted_of_handshake {io : Io} (he : io ∈ (s.step (.onHandshakeLocked time)).2) :
    0 < s.greeted := by
  simp only [Client.step] at he
  split at he
  · next hg => exact hg
  · simp at he

theorem front_of_handshake (he : .asyncWrite uid ∈ (s.step (.onHandshakeLocked time)).2) :
    s.front = some uid := by
  simp only [Client.step] at he
  split at he
  · obtain ⟨r, rs, hl, hio⟩ := mem_doWrite he
    obtain rfl : uid = r.uid := by simpa using hio
    have hl' : s.reqRespList = r :: rs := hl
    simp [front, hl']
  · simp at he

theorem mem_uids_of_front (h : s.front = some uid) : uid ∈ s.uids := by
  obtain ⟨r, hr, rfl⟩ := Option.map_eq_some_iff.mp h
  exact List.mem_map_of_mem (List.mem_of_head? hr)

/-! ### Responses along a run -/

/-- The responses after the outputs `os`: they are to what was passed to
`async_write`, and a request whose response was passed on is queued only until
the handler of the read takes the lock. -/
structure Responses (s : Client) (os : List Io) : Prop where
  read : ∀ sent uid, .read sent uid ∈ s.ops → .asyncWrite sent ∈ os
  stored : ∀ r ∈ s.reqRespList, ∀ sent, r.response = some sent → .asyncWrite sent ∈ os
  passedOn : ∀ m sent, .message m (some sent) ∈ os →
    .asyncWrite sent ∈ os ∧ (sent ∈ s.uids → s.answered ≠ [])

/-- A change without new responses. Of the requests written before, it keeps
those that were queued, and the handlers of reads that are about to take the
lock. -/
theorem Responses.change {os' : List Io} (h : s.Responses os)
    (hr : ∀ sent uid, .read sent uid ∈ s'.ops → .asyncWrite sent ∈ os)
    (hq : ∀ r' ∈ s'.reqRespList, r'.response = none ∨ ∃ r ∈ s.reqRespList, r.response = r'.response)
    (hu : ∀ sent, .asyncWrite sent ∈ os → sent ∈ s'.uids →
      sent ∈ s.uids ∧ (s.answered ≠ [] → s'.answered ≠ []))
    (ho : ∀ m sent, .message m (some sent) ∉ os') : s'.Responses (os ++ os') where
  read sent uid hm := List.mem_append_left _ (hr sent uid hm)
  stored r' hr' sent hs := by
    rcases hq r' hr' with hn | ⟨r, hm, he⟩
    · simp [hn] at hs
    · exact List.mem_append_left _ (h.stored r hm sent (he.trans hs))
  passedOn m sent hm := by
    obtain ⟨hw, ha⟩ := h.passedOn m sent ((List.mem_append.mp hm).resolve_right (ho m sent))
    refine ⟨List.mem_append_left _ hw, fun hin => ?_⟩
    obtain ⟨hin', hk⟩ := hu sent hw hin
    exact hk (ha hin')

theorem read_of_doWrite {sent : ℕ} (h : .read sent uid ∈ (s.doWrite time).1.ops) :
    .read sent uid ∈ s.ops := by
  unfold Client.doWrite at h
  split at h
  · exact h
  · simpa using h

theorem response_of_doWrite {r' : ReqResp} (h : r' ∈ (s.doWrite time).1.reqRespList) :
    ∃ r ∈ s.reqRespList, r.response = r'.response := by
  unfold Client.doWrite at h
  split at h
  · exact ⟨r', h, rfl⟩
  · next r rs hl =>
    rw [hl]
    rcases List.mem_cons.mp h with rfl | h
    · exact ⟨r, List.mem_cons_self, rfl⟩
    · exact ⟨r', List.mem_cons_of_mem _ h, rfl⟩

@[simp] theorem answered_doWrite (s : Client) (time : UInt32) :
    (s.doWrite time).1.answered = s.answered := by
  unfold Client.doWrite
  split <;> rfl

/-- Writing the front passes on no response. -/
theorem Responses.doWrite (h : s.Responses os) (time : UInt32) :
    (s.doWrite time).1.Responses (os ++ (s.doWrite time).2) := by
  refine h.change (fun sent uid hm => h.read sent uid (read_of_doWrite hm))
    (fun r' hr' => .inr (response_of_doWrite hr')) (fun sent _ hm => ?_) fun m sent hm => ?_
  · rw [uids_doWrite] at hm
    rw [answered_doWrite]
    exact ⟨hm, id⟩
  · obtain ⟨r, rs, -, hio⟩ := mem_doWrite hm
    cases hio

theorem responses_request (hs : s.Submissions os) (h : s.Responses os) (now : UInt64)
    (time : UInt32) : (s.request now time).1.Responses (os ++ (s.request now time).2) := by
  have hpush : ({ s with
      reqRespList := s.reqRespList ++ [⟨s.created, now, 0, none⟩]
      created := s.created + 1 } : Client).Responses os := by
    have h' : ({ s with
        reqRespList := s.reqRespList ++ [⟨s.created, now, 0, none⟩]
        created := s.created + 1 } : Client).Responses (os ++ []) := by
      refine h.change h.read (fun r' hr' => ?_) (fun sent hw hm => ?_) (by simp)
      · rcases List.mem_append.mp hr' with hr' | hr'
        · exact .inr ⟨r', hr', rfl⟩
        · obtain rfl := List.mem_singleton.mp hr'
          exact .inl rfl
      · simp only [uids, List.map_append, List.map_cons, List.map_nil, List.mem_append,
          List.mem_singleton] at hm
        rcases hm with hm | rfl
        · exact ⟨hm, id⟩
        · exact absurd (hs.submitted _ hw).1 (Nat.lt_irrefl _)
    simpa using h'
  simp only [Client.request]
  split
  · exact hpush.doWrite time
  · simpa using hpush

theorem Responses.fail (h : s.Responses os) : s.fail.Responses (os ++ []) := by
  refine h.change h.read (fun r' hr' => .inr ?_) (fun sent _ hm => ?_) (by simp)
  · unfold Client.fail at hr'
    cases hl : s.reqRespList with
    | nil => simp [hl] at hr'
    | cons r rs =>
      simp only [hl, List.mem_cons] at hr' ⊢
      rcases hr' with rfl | hr'
      · exact ⟨r, .inl rfl, rfl⟩
      · exact ⟨r', .inr hr', rfl⟩
  · rw [uids_fail] at hm
    exact ⟨hm, id⟩

theorem responses_onWrite (h : s.Responses os) {sent : ℕ} (hw : .asyncWrite sent ∈ os)
    (ok : Bool) : (s.onWrite sent ok).1.Responses (os ++ (s.onWrite sent ok).2) := by
  unfold Client.onWrite
  split
  · split
    · simpa using h
    · refine h.change (fun sent' uid hm => ?_) (fun r' hr' => .inr ⟨r', hr', rfl⟩)
        (fun _ _ hm => ⟨hm, id⟩) (by simp)
      rcases List.mem_append.mp hm with hm | hm
      · exact h.read sent' uid hm
      · obtain ⟨rfl, -⟩ : sent' = sent ∧ _ := by simpa using hm
        exact hw
  · exact h.fail

theorem response_of_store {sent : ℕ} {rs : List ReqResp} {r' : ReqResp}
    (h : r' ∈ store sent uid rs) :
    r'.response = some sent ∨ ∃ r ∈ rs, r.response = r'.response := by
  obtain ⟨r, hr, rfl⟩ := List.mem_map.mp h
  split
  · exact .inl rfl
  · exact .inr ⟨r, hr, rfl⟩

/-- The response that is passed on is to a request that was written, and the
handler of its read is about to take the lock. -/
theorem responses_onRead (h : s.Responses os) {sent : ℕ} (hw : .asyncWrite sent ∈ os)
    (uid : ℕ) (ok : Bool) :
    (s.onRead sent uid ok).1.Responses (os ++ (s.onRead sent uid ok).2) := by
  have hstored : ∀ r' ∈ store sent uid s.reqRespList, ∀ x, r'.response = some x →
      .asyncWrite x ∈ os := by
    intro r' hr' x hx
    rcases response_of_store hr' with he | ⟨r, hr, he⟩
    · obtain rfl : sent = x := by simpa [he] using hx
      exact hw
    · exact h.stored r hr x (he.trans hx)
  unfold Client.onRead
  split
  · simp only
    split
    · next hl =>
      exact ⟨fun x y hm => List.mem_append_left _ (h.read x y hm), by simp [hl],
        fun m x hm => ⟨List.mem_append_left _ (h.passedOn m x (by simpa using hm)).1,
          by simp [uids, hl]⟩⟩
    · next r rs hl =>
      refine ⟨fun x y hm => List.mem_append_left _ (h.read x y hm),
        fun r' hr' x hx => List.mem_append_left _ (hstored r' hr' x hx), fun m x hm => ?_⟩
      refine ⟨List.mem_append_left _ ?_, fun _ => by simp⟩
      rcases List.mem_append.mp hm with hm | hm
      · exact (h.passedOn m x hm).1
      · obtain ⟨-, he⟩ : m = r.uid ∧ some x = r.response := by simpa using hm
        exact hstored r (by simp [hl]) x he.symm
  · exact h.fail

theorem responses_step (hs : s.Submissions os) (h : s.Responses os) (e : Event) :
    (s.step e).1.Responses (os ++ (s.step e).2) := by
  have dropped {rs : List ReqResp} (hl : rs.Sublist s.reqRespList) :
      ({ s with reqRespList := rs } : Client).Responses (os ++ []) :=
    h.change h.read (fun r' hr' => .inr ⟨r', hl.subset hr', rfl⟩)
      (fun _ _ hm => ⟨(hl.map ReqResp.uid).subset hm, id⟩) (by simp)
  have same : s.Responses (os ++ []) := dropped (List.Sublist.refl _)
  have erased (i : ℕ) : ({ s with ops := s.ops.eraseIdx i } : Client).Responses os :=
    ⟨fun x y hm => h.read x y (List.mem_of_mem_eraseIdx hm), h.stored, h.passedOn⟩
  cases e with
  | request now time => exact responses_request hs h now time
  | resetRequests => exact dropped (keepLast_suffix s.reqRespList).sublist
  | cleanupRequests interval now => exact dropped (cleanup_sublist interval now s.reqRespList)
  | onWrite i ok =>
    simp only [Client.step]
    split
    · next sent ho =>
      exact responses_onWrite (erased i) (hs.started sent (List.mem_of_getElem? ho)) ok
    · exact same
  | onRead i ok =>
    simp only [Client.step]
    split
    · next sent uid ho =>
      exact responses_onRead (erased i) (h.read sent uid (List.mem_of_getElem? ho)) uid ok
    · exact same
  | onReadLocked i time =>
    simp only [Client.step]
    split
    · refine Responses.doWrite (s := { s with answered := _, reqRespList := _ }) ?_ time
      -- what was written before is not behind the front, which is popped
      have h' : ({ s with answered := s.answered.eraseIdx i, reqRespList := s.reqRespList.tail } :
          Client).Responses (os ++ []) :=
        h.change h.read (fun r' hr' => .inr ⟨r', List.mem_of_mem_tail hr', rfl⟩)
          (fun sent hw hm => absurd (by simpa [uids, List.map_tail] using hm)
            (hs.submitted sent hw).2) (by simp)
      simpa using h'
    · exact same
  | onHandshakeLocked time =>
    simp only [Client.step]
    split
    · refine Responses.doWrite (s := { s with greeted := _ }) ?_ time
      exact ⟨h.read, h.stored, h.passedOn⟩
    · exact same
  | onReconnect | connectFailed | onHandshake =>
    simp only [Client.step]
    split
    · exact h.change h.read (fun r' hr' => .inr ⟨r', hr', rfl⟩) (fun _ _ hm => ⟨hm, id⟩) (by simp)
    · exact same

theorem responses_run (es : List Event) :
    (client.run init es).Responses (client.emitted init es) := by
  have h₀ : init.Submissions [] ∧ init.Responses [] :=
    ⟨⟨by simp [uids, init], by simp [uids, init], by simp, by simp [init]⟩,
      ⟨by simp [init], by simp [init], by simp⟩⟩
  have h := Machine.run_history (M := client) (P := fun _ _ => True)
    (fun s os => s.Submissions os ∧ s.Responses os)
    (fun _ _ e hs _ => ⟨submissions_step hs.1 e, responses_step hs.1 hs.2 e⟩) h₀
    (Machine.along_of_forall _ (fun _ _ => trivial) init es)
  simpa using h.2

/-! ### One strand -/

/-- The handlers of writes, reads and handshakes are bound to `m_strand`, so none
of them starts while another one waits for the lock. -/
def Stranded (s : Client) : Event → Prop
  | .onWrite .. | .onRead .. | .onHandshake => s.answered = [] ∧ s.greeted = 0
  | .onReadLocked .. => s.greeted = 0
  | .onHandshakeLocked _ => s.answered = []
  | _ => True

@[simp] theorem greeted_doWrite (s : Client) (time : UInt32) :
    (s.doWrite time).1.greeted = s.greeted := by
  unfold Client.doWrite
  split <;> rfl

/-- Only a handshake brings a handler of one. -/
theorem greeted_le_step (s : Client) (e : Event) :
    (s.step e).1.greeted ≤ s.greeted ∨ e = .onHandshake ∧ 0 < s.connecting := by
  cases e with
  | onHandshake =>
    by_cases hc : 0 < s.connecting
    · exact .inr ⟨rfl, hc⟩
    · simp [Client.step, hc]
  | request now time =>
    simp only [Client.step, Client.request]
    split <;> simp
  | onWrite i ok =>
    simp only [Client.step]
    split
    · simp only [Client.onWrite, Client.fail]
      split
      · split <;> simp
      · simp
    · simp
  | onRead i ok =>
    simp only [Client.step]
    split
    · simp only [Client.onRead, Client.fail]
      split
      · split <;> simp
      · simp
    · simp
  | onReadLocked i time | onHandshakeLocked time =>
    simp only [Client.step]
    split <;> simp
  | resetRequests | cleanupRequests => simp [Client.step]
  | onReconnect | connectFailed =>
    simp only [Client.step]
    split <;> simp

/-- A connection is set up in the run `fs` from the state `s`. -/
def Connects (s : Client) (fs : List Event) : Prop :=
  ∃ fs₁ fs₂, fs = fs₁ ++ .onHandshake :: fs₂ ∧ 0 < (client.run s fs₁).connecting

theorem connects_of_greeted {fs : List Event} (h₀ : s.greeted = 0)
    (h : 0 < (client.run s fs).greeted) : s.Connects fs := by
  induction fs generalizing s with
  | nil => exact absurd h (by simp [h₀])
  | cons e fs ih =>
    rcases greeted_le_step s e with hle | ⟨rfl, hc⟩
    · obtain ⟨fs₁, fs₂, rfl, hc⟩ := ih (s := (s.step e).1) (by omega) h
      exact ⟨e :: fs₁, fs₂, rfl, hc⟩
    · exact ⟨[], fs, rfl, hc⟩

/-- Once it was written completely, a request is passed to `async_write` again by
nothing but the handler of a handshake of a connection set up since, which finds
it still at the front of the queue, its response not passed on. -/
theorem resubmitted_by_handshake (es fs : List Event) (e e' : Event) (uid : ℕ)
    (h : client.Along Stranded init (es ++ e :: fs ++ [e']))
    (hw : (client.run init es).Completes uid e)
    (hs : .asyncWrite uid ∈ client.emit (client.run init (es ++ e :: fs)) e') :
    (∃ time, e' = .onHandshakeLocked time) ∧
      Connects (client.run init (es ++ [e])) fs ∧
      (client.run init (es ++ e :: fs)).front = some uid ∧
      ∀ m, .message m (some uid) ∉ client.emitted init (es ++ e :: fs) := by
  obtain ⟨h₁, he', -⟩ := (client.along_append _ _ _ _).mp h
  obtain ⟨-, he, -⟩ := (client.along_append _ _ _ _).mp h₁
  obtain ⟨hu, hg⟩ : .asyncWrite uid ∈ client.emitted init es ∧
      (client.run init (es ++ [e])).greeted = 0 := by
    cases e with
    | onWrite i ok =>
      cases ok with
      | true =>
        refine ⟨(submissions_run es).started uid (List.mem_of_getElem? hw), ?_⟩
        rw [Machine.run_append]
        rcases greeted_le_step (client.run init es) (.onWrite i true) with hle | ⟨hn, -⟩
        · exact Nat.le_zero.mp (he.2 ▸ hle)
        · cases hn
      | false => exact hw.elim
    | _ => exact hw.elim
  have hu' : .asyncWrite uid ∈ client.emitted init (es ++ e :: fs) := by
    rw [Machine.emitted_append]
    exact List.mem_append_left _ hu
  obtain ⟨time, rfl⟩ := handshake_of_resubmitted (submissions_run (es ++ e :: fs)) hu' hs
  have hf := front_of_handshake hs
  refine ⟨⟨time, rfl⟩, connects_of_greeted hg ?_, hf, fun m hm => ?_⟩
  · rw [← Machine.run_append, List.append_assoc]
    exact greeted_of_handshake hs
  · exact ((responses_run (es ++ e :: fs)).passedOn m uid hm).2 (mem_uids_of_front hf) he'

/-! ### A read that fails -/

/-- The request is on the stream. -/
def written : List Event := [.onHandshake, .onHandshakeLocked 1, .request 1000 1]

/-- Its response is lost, and the client connects again. -/
def reconnected : List Event := [.onRead 0 false, .onReconnect, .onHandshake]

theorem emit_reconnected :
    .asyncWrite 0 ∈ client.emit (client.run init (written ++ .onWrite 0 true :: reconnected))
      (.onHandshakeLocked 2) :=
  List.mem_singleton.mpr rfl

theorem stranded_reconnected : client.Along Stranded init
    (written ++ .onWrite 0 true :: reconnected ++ [.onHandshakeLocked 2]) :=
  ⟨⟨rfl, rfl⟩, rfl, trivial, ⟨rfl, rfl⟩, ⟨rfl, rfl⟩, trivial, ⟨rfl, rfl⟩, rfl, trivial⟩

theorem resubmitted_after_read : (∃ time, Event.onHandshakeLocked 2 = .onHandshakeLocked time) ∧
    Connects (client.run init (written ++ [.onWrite 0 true])) reconnected ∧
    (client.run init (written ++ .onWrite 0 true :: reconnected)).front = some 0 ∧
    ∀ m, .message m (some 0) ∉
      client.emitted init (written ++ .onWrite 0 true :: reconnected) :=
  resubmitted_by_handshake written reconnected (.onWrite 0 true) (.onHandshakeLocked 2) 0
    stranded_reconnected rfl emit_reconnected

/-- The response to a written request is lost, and the request is written again. -/
theorem submitted_twice : ¬∀ (es fs : List Event) (e e' : Event) (uid : ℕ),
    client.Along Stranded init (es ++ e :: fs ++ [e']) →
    (client.run init es).Completes uid e →
    .asyncWrite uid ∉ client.emit (client.run init (es ++ e :: fs)) e' := by
  intro h
  exact h written reconnected (.onWrite 0 true) (.onHandshakeLocked 2) 0 stranded_reconnected rfl
    emit_reconnected

end Client

end BotTrader.Https
