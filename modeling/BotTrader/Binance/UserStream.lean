import BotTrader.Binance.Client

/-! Whether the user data stream comes back. A stream that fails asks for a new key, and
the answer to that connects it again: if it is an answer with a key, and if the stream is
closed by then. Any other answer is the last there is. -/

namespace BotTrader.Https.Client

/-- A request that a cleanup leaves: it is sent, or it or one before it is unsent and
young. -/
def Outlasts (interval now : UInt64) (P : ReqResp → Prop) (rs : List ReqResp) : Prop :=
  ∃ i, ∃ r ∈ rs[i]?, P r ∧
    (r.sendTime ≠ 0 ∨ ∃ q ∈ rs.take (i + 1), q.sendTime = 0 ∧ ¬interval ≤ now - q.pushTime)

variable {interval now : UInt64} {P Q : ReqResp → Prop} {a r : ReqResp} {rs rs' : List ReqResp}

theorem Outlasts.append (h : Outlasts interval now P rs) (hPQ : ∀ r ∈ rs, P r → Q r) :
    Outlasts interval now Q (rs ++ rs') := by
  obtain ⟨i, r, hr, hP, hs⟩ := h
  obtain ⟨hi, -⟩ := List.getElem?_eq_some_iff.mp hr
  refine ⟨i, r, ?_, hPQ r (List.mem_of_getElem? hr) hP, ?_⟩
  · rwa [Option.mem_def, List.getElem?_append_left hi]
  · rwa [List.take_append_of_le_length hi]

/-- A request before it that is sent or old does not count. -/
theorem outlasts_tail {i : ℕ} (hr : rs[i]? = some r) (hP : P r)
    (hs : r.sendTime ≠ 0 ∨
      ∃ q ∈ (a :: rs).take (i + 2), q.sendTime = 0 ∧ ¬interval ≤ now - q.pushTime)
    (ha : a.sendTime = 0 → interval ≤ now - a.pushTime) : Outlasts interval now P rs := by
  refine ⟨i, r, hr, hP, hs.imp_right fun ⟨q, hq, hq0, hqt⟩ => ?_⟩
  rw [List.take_succ_cons, List.mem_cons] at hq
  rcases hq with rfl | hq
  · exact absurd (ha hq0) hqt
  · exact ⟨q, hq, hq0, hqt⟩

theorem exists_mem_cleanup (h : Outlasts interval now P rs) :
    ∃ r ∈ cleanup interval now rs, P r := by
  induction rs with
  | nil =>
    obtain ⟨i, r, hr, -⟩ := h
    simp at hr
  | cons a rs ih =>
    obtain ⟨i, r, hr, hP, hs⟩ := h
    unfold cleanup
    split
    · next ha =>
      cases i with
      | zero =>
        obtain rfl : a = r := by simpa using hr
        exact ⟨a, by simp, hP⟩
      | succ i =>
        obtain ⟨r', hr', hP'⟩ := ih (outlasts_tail hr hP hs fun h0 => absurd h0 ha)
        exact ⟨r', List.mem_cons_of_mem _ hr', hP'⟩
    · split
      · next ha hold =>
        cases i with
        | zero =>
          obtain rfl : a = r := by simpa using hr
          rcases hs with hs | ⟨q, hq, -, hqt⟩
          · exact absurd hs ha
          · obtain rfl : q = a := by simpa using hq
            exact absurd hold hqt
        | succ i => exact ih (outlasts_tail hr hP hs fun _ => hold)
      · exact ⟨r, List.mem_of_getElem? hr, hP⟩

theorem reqRespList_request {s : Client} (h : s.reqRespList ≠ []) (now : UInt64) (time : UInt32) :
    (s.step (.request now time)).1.reqRespList =
      s.reqRespList ++ [⟨s.created, now, 0, none⟩] := by
  have hl : ¬(s.reqRespList ++ [(⟨s.created, now, 0, none⟩ : ReqResp)]).length ≤ 1 := by
    have := List.length_pos_iff.mpr h
    simp
    omega
  simp only [Client.step, Client.request, hl, and_false, if_false]

end BotTrader.Https.Client

namespace BotTrader.Binance

open Automata Handler Boost Https

variable {cfg : Config} {s t u : State} {r : Request} {now : UInt64} {time : UInt32}

/-- A request for a new stream is queued or in flight. -/
def KeyAsked (s : State) : Prop := ∃ uid ∈ s.http.uids, s.request uid = createUserStream

/-- A stream that was connected once and is down is being asked for. -/
def ComesBack (s : State) : Prop :=
  s.own.user.attempted = true → s.own.user.Down → KeyAsked s

instance (s : State) : Decidable (ComesBack s) :=
  inferInstanceAs (Decidable (_ → _ → ∃ uid ∈ s.http.uids, s.request uid = createUserStream))

/-- The event does not take the last request for a stream from a stream that is down. A
request is taken by its answer, unless that connects the stream or ends the process, or
by a cleanup. -/
def Kept (cfg : Config) (s : State) : Event → Prop
  | .onRead i resp _ => s.own.user.attempted = true → s.own.user.Down →
      ∀ p ∈ s.handed i resp, (∃ uid ∈ s.http.uids.tail, s.request uid = createUserStream) ∨
        Malformed p.1 p.2 ∨ s.own.user.connectState = .closed ∧ ∃ tree, KeyOf p.1 p.2 tree
  | .onHandshake isOpen now _ => s.own.user.attempted = true → s.own.user.Down →
      isOpen = true → 0 < s.http.connecting →
      Client.Outlasts cfg.window now (fun r => s.request r.uid = createUserStream)
        s.http.reqRespList
  | .onCleanupTimer now => s.own.user.attempted = true → s.own.user.Down →
      0 < s.own.cleanupTimer.due →
      Client.Outlasts cfg.window now (fun r => s.request r.uid = createUserStream)
        s.http.reqRespList
  | _ => True

/-! ### What leaves the stream and the requests for it -/

/-- The numbers of the requests are in order. -/
def Filed (s : State) : Prop := ∃ os, s.http.Submissions os

/-- The stream is the same, and is still asked for. -/
structure Carries (s t : State) : Prop where
  user : t.own.user = s.own.user
  filed : Filed s → Filed t
  asked : Filed s → KeyAsked s → KeyAsked t

theorem Carries.refl (s : State) : Carries s s := ⟨rfl, id, fun _ => id⟩

theorem Carries.trans (h : Carries s t) (h' : Carries t u) : Carries s u where
  user := h'.user.trans h.user
  filed := h'.filed ∘ h.filed
  asked hf hk := h'.asked (h.filed hf) (h.asked hf hk)

theorem Filed.perform (h : Filed s) (e : Https.Event) : Filed (s.perform e) := by
  obtain ⟨os, h⟩ := h
  exact ⟨_, Client.submissions_step h e⟩

theorem carries_quiet {e : Https.Event} (he : e.Quiet) (s : State) : Carries s (s.perform e) where
  user := rfl
  filed h := h.perform e
  asked _ hk := by
    obtain ⟨uid, hu, hr⟩ := hk
    exact ⟨uid, (Client.uids_quiet he).symm ▸ hu, hr⟩

theorem Filed.push (h : Filed s) (r : Request) (now : UInt64) (time : UInt32) :
    Filed (s.push r now time) := by
  obtain ⟨os, h⟩ := h
  exact ⟨_, Client.submissions_step h (.request now time)⟩

theorem Filed.request_push (h : Filed s) {uid : ℕ} (hu : uid ∈ s.http.uids) :
    (s.push r now time).request uid = s.request uid := by
  obtain ⟨os, h⟩ := h
  exact Function.update_of_ne (Nat.ne_of_lt (h.created uid hu)) r s.request

theorem carries_push (r : Request) (now : UInt64) (time : UInt32) (s : State) :
    Carries s (s.push r now time) where
  user := rfl
  filed h := h.push r now time
  asked hf hk := by
    obtain ⟨uid, hu, hr⟩ := hk
    refine ⟨uid, ?_, (hf.request_push hu).trans hr⟩
    show uid ∈ (s.http.step (.request now time)).1.uids
    rw [Client.uids_request]
    exact List.mem_append_left _ hu

theorem keyAsked_push (now : UInt64) (time : UInt32) (s : State) :
    KeyAsked (s.push createUserStream now time) := by
  refine ⟨s.http.created, ?_, Function.update_self ..⟩
  show _ ∈ (s.http.step (.request now time)).1.uids
  rw [Client.uids_request]
  exact List.mem_append_right _ (List.mem_singleton_self _)

theorem carries_modify {f : Fields → Fields} (hf : (f s.own).user = s.own.user) :
    Carries s (s.modify f) := ⟨hf, id, fun _ => id⟩

theorem carries_read (i : ℕ) (resp : Response) (s : State) : Carries s (s.read i resp) := by
  have hr : Carries s (s.receive i resp) :=
    ⟨by rw [Owner.own_receive], fun h => by rwa [Filed, Owner.http_receive],
      fun _ h => by rwa [KeyAsked, Owner.http_receive, Owner.request_receive]⟩
  exact hr.trans (carries_quiet (e := .onRead i true) trivial _)

/-! ### Steps -/

/-- What every run keeps. -/
structure Sound (s : State) : Prop where
  filed : Filed s
  paired : s.own.user.Paired
  comesBack : ComesBack s

theorem Sound.carry (h : Sound s) (hc : Carries s t) : Sound t where
  filed := hc.filed h.filed
  paired := by
    rw [hc.user]
    exact h.paired
  comesBack ha hd := by
    rw [hc.user] at ha hd
    exact hc.asked h.filed (h.comesBack ha hd)

/-- The answered request is taken out. -/
theorem Sound.locked (hf : Filed t) (hp : t.own.user.Paired) (ha : 0 < t.http.answered.length)
    (hc : t.own.user.attempted = true → t.own.user.Down →
      ∃ uid ∈ t.http.uids.tail, t.request uid = createUserStream) (time : UInt32) :
    Sound (t.perform (.onReadLocked 0 time)) where
  filed := hf.perform _
  paired := hp
  comesBack h hd := by
    obtain ⟨uid, hu, hr⟩ := hc h hd
    exact ⟨uid, (Client.uids_onReadLocked ha time).symm ▸ hu, hr⟩

theorem paired_connectUser {b : Fields} (h : b.user.Paired) (hc : b.user.connectState = .closed) :
    b.connectUser.user.Paired :=
  Wss.Client.Paired.connect (s := { b.user with stream := b.listenKey }) h hc

theorem Sound.onRead (h : Sound s) {i : ℕ} {resp : Response}
    (he : Kept cfg s (.onRead i resp time)) :
    Sound (left ((onRead (httpDataHandler cfg) i resp time).run s)) := by
  have hs : Sound (s.read i resp) := h.carry (carries_read i resp s)
  cases hh : s.handed i resp with
  | none =>
    rw [run_onRead_none hh]
    exact hs
  | some p =>
    obtain ⟨req, got⟩ := p
    have ha := Owner.answered_of_handed hh
    have he : (s.read i resp).own.user.attempted = true → (s.read i resp).own.user.Down →
        (∃ uid ∈ (s.read i resp).http.uids.tail,
          (s.read i resp).request uid = createUserStream) ∨ Malformed req got ∨
          (s.read i resp).own.user.connectState = .closed ∧ ∃ tree, KeyOf req got tree := by
      rw [Owner.own_read, Owner.request_read, Owner.http_read,
        Client.uids_quiet (e := .onRead i true) trivial]
      exact fun hat hd => he hat hd (req, got) hh
    have hc := handled_httpDataHandler cfg req got (s.read i resp)
    rcases hm : (httpDataHandler cfg req got).run (s.read i resp) with ⟨_, t, o⟩ | ⟨x, t, o⟩
    · rw [run_onRead_done hh hm]
      rw [hm] at hc
      cases hc with
      | price hp =>
        refine Sound.locked (t := (s.read i resp).modify Fields.cancelPrice) hs.filed hs.paired ha
          (fun hat hd => ?_) time
        rcases he hat hd with ht | hmal | ⟨-, tree, hk⟩
        · exact ht
        · exact absurd hmal hp.not_malformed
        · exact absurd hk hp.not_keyOf
      | key tree key hk hkey =>
        let t := (s.read i resp).modify fun b => { b with listenKey := key }
        unfold keyed
        split
        · next hcl =>
          refine Sound.locked (t := t.modify Fields.connectUser) hs.filed
            (paired_connectUser (b := t.own) hs.paired hcl) ha (fun _ hd => ?_) time
          rcases hd with hd | hd <;> cases hd
        · next hcl =>
          refine Sound.locked (t := t) hs.filed hs.paired ha (fun hat hd => ?_) time
          rcases he hat hd with ht | hmal | ⟨hcl', -⟩
          · exact ht
          · exact absurd hmal (hk.not_malformed hkey)
          · exact absurd hcl' hcl
      | rest hp hk hmal =>
        refine Sound.locked hs.filed hs.paired ha (fun hat hd => ?_) time
        rcases he hat hd with ht | hmal' | ⟨-, tree, hk'⟩
        · exact ht
        · exact absurd hmal' hmal
        · exact absurd hk' (hk tree)
    · rw [run_onRead_raised hh hm]
      rw [hm] at hc
      cases hc with
      | malformed =>
        show Sound ((s.read i resp).modify fun b => { b with alive := false })
        exact hs.carry (carries_modify rfl)

theorem Sound.left {o : Outcome State Out Exc Unit} (h : Sound o.state) :
    Sound (Binance.left o) := by
  cases o with
  | done => exact h
  | raised x t o =>
    show Sound (t.modify fun b => { b with alive := false })
    exact Sound.carry h (carries_modify rfl)

theorem Sound.cleanup (h : Sound s)
    (hc : s.own.user.attempted = true → s.own.user.Down →
      Client.Outlasts cfg.window now (fun r => s.request r.uid = createUserStream)
        s.http.reqRespList) :
    Sound (s.perform (.cleanupRequests cfg.window now)) where
  filed := h.filed.perform _
  paired := h.paired
  comesBack ha hd := by
    obtain ⟨r, hr, hk⟩ := Client.exists_mem_cleanup (hc ha hd)
    exact ⟨r.uid, List.mem_map_of_mem hr, hk⟩

theorem outlasts_push (hf : Filed s) {interval now now' : UInt64}
    (h : Client.Outlasts interval now (fun r => s.request r.uid = createUserStream)
      s.http.reqRespList) (r : Request) (time : UInt32) :
    Client.Outlasts interval now (fun q => (s.push r now' time).request q.uid = createUserStream)
      (s.push r now' time).http.reqRespList := by
  have hl : s.http.reqRespList ≠ [] := by
    obtain ⟨i, r, hr, -⟩ := h
    exact List.ne_nil_of_mem (List.mem_of_getElem? hr)
  show Client.Outlasts interval now _ (s.http.step (.request now' time)).1.reqRespList
  rw [Client.reqRespList_request hl]
  exact h.append fun q hq hk => (hf.request_push (List.mem_map_of_mem hq)).trans hk

theorem Sound.connected (h : Sound s) {isOpen : Bool}
    (hc : s.own.user.attempted = true → s.own.user.Down → isOpen = true →
      Client.Outlasts cfg.window now (fun r => s.request r.uid = createUserStream)
        s.http.reqRespList) :
    Sound (connected cfg isOpen now time s) := by
  let t := ((s.push (getAccount cfg now) now time).push getExchangeInfo now time).modify
    Fields.startPrice
  have ht : Sound t := h.carry
    (((carries_push _ now time s).trans (carries_push _ now time _)).trans (carries_modify rfl))
  let u := (t.perform (.cleanupRequests cfg.window now)).modify Fields.startCleanup
  cases isOpen with
  | false =>
    exact ⟨(ht.filed.perform _).push createUserStream now time, ht.paired,
      fun _ _ => keyAsked_push now time u⟩
  | true =>
    have hu : Sound (t.perform (.cleanupRequests cfg.window now)) := ht.cleanup fun ha hd =>
      outlasts_push (h.filed.push _ now time)
        (outlasts_push h.filed (hc ha hd rfl) (getAccount cfg now) time) getExchangeInfo time
    exact hu.carry (carries_modify rfl)

/-- A callback keeps what is asked for, and a failure asks for a new stream. -/
theorem run_userCallback (now : UInt64) (time : UInt32) (io : Wss.Io) (s : State) :
    ∃ t, (userCallback now time io).run s = .done () t [] ∧ Carries s t ∧
      (io = .connectHandler false → KeyAsked t) := by
  cases io with
  | dataHandler => exact ⟨s, rfl, .refl s, by simp⟩
  | connectHandler connect =>
    cases connect with
    | true =>
      exact ⟨_, rfl, (carries_push pingRequest now time s).trans (carries_modify rfl), by simp⟩
    | false => exact ⟨_, rfl, carries_push _ now time s, fun _ => keyAsked_push now time s⟩

theorem sound_callbacks {ios : List Wss.Io} (hf : Filed s) (hp : s.own.user.Paired)
    (hc : s.own.user.attempted = true → s.own.user.Down →
      KeyAsked s ∨ .connectHandler false ∈ ios) :
    Sound ((ios.forM (userCallback now time)).run s).state := by
  induction ios generalizing s with
  | nil => exact ⟨hf, hp, fun ha hd => (hc ha hd).resolve_right (by simp)⟩
  | cons io ios ih =>
    obtain ⟨t, ht, hcar, hk⟩ := run_userCallback now time io s
    show Sound ((userCallback now time io >>= fun _ => ios.forM (userCallback now time)).run s).state
    rw [run_bind_done ht, Outcome.after_nil]
    refine ih (hcar.filed hf) (by rwa [hcar.user]) fun ha hd => ?_
    rw [hcar.user] at ha hd
    rcases hc ha hd with hs | hm
    · exact .inl (hcar.asked hf hs)
    · rcases List.mem_cons.mp hm with he | hm
      · exact .inl (hk he.symm)
      · exact .inr hm

theorem Sound.onStream (h : Sound s) (i : ℕ) (ok : Bool) (now : UInt64) (time : UInt32) :
    Sound ((onStream i ok now time).run s).state := by
  obtain ⟨hp, hatt, hdown⟩ := h.paired.step i ok
  rw [Binance.onStream, run_bind_done (run_self s), Outcome.after_nil,
    run_bind_done (run_update _ s), Outcome.after_nil]
  refine sound_callbacks h.filed hp fun ha hd => ?_
  rcases hdown hd with hd' | hm
  · exact .inl (h.comesBack (hatt ▸ ha) hd')
  · exact .inr hm

theorem Sound.handle (h : Sound s) {e : Event} (he : Kept cfg s e) :
    Sound (Binance.left ((handle cfg e).run s)) := by
  cases e with
  | onRead i resp time => exact h.onRead he
  | call c now time => exact h.carry (carries_push _ now time s)
  | onWrite i ok => exact h.carry (carries_quiet (e := .onWrite i ok) trivial s)
  | onReadError i => exact h.carry (carries_quiet (e := .onRead i false) trivial s)
  | onReconnect => exact h.carry (carries_quiet (e := .onReconnect) trivial s)
  | onStream i ok now time => exact (h.onStream i ok now time).left
  | expirePing | expirePrice | expireCleanup => exact h.carry ⟨rfl, id, fun _ => id⟩
  | connectFailed =>
    apply Sound.left
    rw [Binance.handle, connectFailed, run_bind_done (run_self s), Outcome.after_nil]
    split
    · rw [run_bind_done (run_disconnected cfg false 0 0 s), Outcome.after_nil]
      have ht := h.carry (t := (s.modify Fields.cancelPrice).modify Fields.cancelCleanup)
        ⟨rfl, id, fun _ => id⟩
      exact ht.carry (carries_quiet (e := .connectFailed) trivial _)
    · exact h
  | onHandshake isOpen now time =>
    apply Sound.left
    rw [Binance.handle, Https.onHandshake, run_bind_done (run_self s), Outcome.after_nil]
    split
    · next hc =>
      rw [run_bind_done (run_connected cfg isOpen now time s), Outcome.after_nil]
      have ht : Sound (Binance.connected cfg isOpen now time s) :=
        h.connected fun ha hd ho => he ha hd ho hc
      exact (ht.carry (carries_quiet (e := .onHandshake) trivial _)).carry
        (carries_quiet (e := .onHandshakeLocked time) trivial _)
    · exact h
  | onPingTimer now time =>
    apply Sound.left
    rw [Binance.handle, run_bind_done (run_self s), Outcome.after_nil]
    split
    · exact ((h.carry ⟨rfl, id, fun _ => id⟩).carry (carries_push pingRequest now time _)).carry
        ⟨rfl, id, fun _ => id⟩
    · exact h
  | onPriceTimer now time =>
    apply Sound.left
    rw [Binance.handle, run_bind_done (run_self s), Outcome.after_nil]
    split
    · rw [run_bind_done (run_update _ s), Outcome.after_nil, onPriceTimer,
        run_bind_done (run_self _), Outcome.after_nil]
      have ht := h.carry (t := s.modify fun b => { b with priceTimer := b.priceTimer.take })
        ⟨rfl, id, fun _ => id⟩
      split
      · exact (ht.carry (carries_push (getPrice cfg "") now time _)).carry ⟨rfl, id, fun _ => id⟩
      · exact ht
    · exact h
  | onCleanupTimer now =>
    apply Sound.left
    rw [Binance.handle, run_bind_done (run_self s), Outcome.after_nil]
    split
    · next hdue =>
      have ht := h.carry (t := s.modify fun b => { b with cleanupTimer := b.cleanupTimer.take })
        ⟨rfl, id, fun _ => id⟩
      exact (ht.cleanup fun ha hd => he ha hd hdue).carry ⟨rfl, id, fun _ => id⟩
    · exact h

theorem Sound.step (h : Sound s) {e : Event} (he : Kept cfg s e) :
    Sound ((binance cfg).next s e) := by
  show Sound (if s.own.alive then Binance.left ((Binance.handle cfg e).run s) else s)
  split
  · exact h.handle he
  · exact h

theorem sound_init : Sound init where
  filed := ⟨[], by simp [init, Client.uids, Client.init], by simp [init, Client.uids, Client.init],
    by simp, by simp [init, Client.init]⟩
  paired := .inl ⟨rfl, rfl⟩
  comesBack h := absurd h (by decide)

/-- As long as no event takes the last request for a stream that is down, the stream is
asked for whenever it is down. -/
theorem comesBack_of_kept {es : List Event} (h : (binance cfg).Along (Kept cfg) init es) :
    ComesBack ((binance cfg).run init es) :=
  (Machine.run_invariant Sound (fun _ _ hs he => hs.step he) sound_init h).comesBack

/-- A connection, its first three requests with their answers, the last of them a key,
and a connection to the stream that fails. -/
def failedStream : List Event :=
  [.onHandshake false 7000 7, .onWrite 0 true, .onRead 0 okAnswer 7, .onWrite 0 true,
    .onRead 0 okAnswer 7, .onWrite 0 true,
    .onRead 0 { body := some (Ptree.empty.put "listenKey" "k") } 7, .onStream 0 true 8000 8,
    .onStream 0 false 8000 8]

theorem comesBack_failedStream : ComesBack ((binance keyless).run init failedStream) :=
  have early {s : State} {P : Prop} (hs : s.own.user.attempted = false) :
      s.own.user.attempted = true → P := fun h => absurd (hs.symm.trans h) (by decide)
  comesBack_of_kept ⟨early rfl, trivial, early rfl, trivial, early rfl, trivial, early rfl,
    trivial, trivial, trivial⟩

/-- The request for a new key is answered with an error, and the stream stays closed. -/
theorem error_ends_stream : ¬∀ es : List Event, ComesBack ((binance keyless).run init es) := by
  intro h
  have hb := h (failedStream ++ [.onWrite 0 true, .onRead 0 { okAnswer with status := 503 } 8])
  exact absurd hb (by decide)

end BotTrader.Binance
