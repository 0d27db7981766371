import BotTrader.Binance.Client

/-! Whether the prices are polled as long as the client is connected. The handler of the
price timer waits again, but the answer to a request for the price of one symbol cancels
the wait, and nothing starts another until the next connection. -/

namespace BotTrader.Binance

open Automata Handler Boost Https

variable {cfg : Config} {s : State}

/-- A wait on the price timer is pending that nothing has cancelled, or its handler is
queued. -/
def Armed (s : State) : Prop := 0 < s.own.priceTimer.waiting + s.own.priceTimer.due

def Polls (s : State) : Prop := s.http.ready = true → Armed s

instance (s : State) : Decidable (Polls s) :=
  inferInstanceAs (Decidable (s.http.ready = true →
    0 < s.own.priceTimer.waiting + s.own.priceTimer.due))

/-- The event does not cancel the wait of a connected client, unless the handler of a
wait before it is still queued. -/
def Spares (s : State) : Event → Prop
  | .onRead i resp _ => s.http.ready = true → s.own.priceTimer.due = 0 →
      ∀ p ∈ s.handed i resp, ¬PriceOf p.1 p.2
  | .connectFailed => s.http.ready = true → s.own.priceTimer.due = 0 → s.http.connecting = 0
  | _ => True

instance : ∀ s e, Decidable (Spares s e)
  | _, .onRead _ _ _ => inferInstanceAs (Decidable (_ → _ → ∀ _ ∈ _, _))
  | _, .connectFailed => inferInstanceAs (Decidable (_ → _ → _))
  | _, .call .. | _, .onWrite .. | _, .onReadError .. | _, .onReconnect | _, .onHandshake ..
  | _, .onStream .. | _, .expirePing | _, .expirePrice | _, .expireCleanup | _, .onPingTimer ..
  | _, .onPriceTimer .. | _, .onCleanupTimer .. => .isTrue trivial

theorem Polls.perform (h : Polls s) {e : Https.Event} (he : e ≠ .onHandshake) :
    Polls (s.perform e) := fun hr => h (Client.ready_step he hr)

theorem Polls.push (h : Polls s) (r : Request) (now : UInt64) (time : UInt32) :
    Polls (s.push r now time) :=
  fun hr => h (Client.ready_step (s := s.http) (e := .request now time) (by simp) hr)

theorem Polls.modify (h : Polls s) {f : Fields → Fields}
    (hf : (f s.own).priceTimer = s.own.priceTimer) : Polls (s.modify f) := by
  intro hr
  show 0 < (f s.own).priceTimer.waiting + (f s.own).priceTimer.due
  rw [hf]
  exact h hr

/-- Without the pending wait, a queued handler has to be left. -/
theorem polls_cancel (hd : s.http.ready = true → s.own.priceTimer.due ≠ 0) :
    Polls (s.modify Fields.cancelPrice) := by
  intro hr
  have hdue : 0 < s.own.priceTimer.due := Nat.pos_of_ne_zero (hd hr)
  exact Nat.add_pos_right _ hdue

theorem armed_connected (cfg : Config) (isOpen : Bool) (now : UInt64) (time : UInt32) (s : State) :
    Armed (connected cfg isOpen now time s) := by
  cases isOpen <;> exact Nat.add_pos_left Nat.one_pos _

theorem polls_onPriceTimer (now : UInt64) (time : UInt32) (s : State) :
    Polls ((onPriceTimer cfg now time).run s).state := by
  rw [onPriceTimer, run_bind_done (run_self s), Outcome.after_nil]
  cases hr : s.http.ready with
  | true => exact fun _ => Nat.add_pos_left Nat.one_pos _
  | false =>
    intro h
    exact absurd (hr ▸ h) (by simp)

theorem polls_keyed (h : Polls s) (key : String) : Polls (keyed key s) := by
  unfold keyed
  split
  · exact (h.modify rfl).modify rfl
  · exact h.modify rfl

theorem polls_onRead (h : Polls s) {i : ℕ} {resp : Response} {time : UInt32}
    (he : Spares s (.onRead i resp time)) :
    Polls ((onRead (httpDataHandler cfg) i resp time).run s).state := by
  have hs : Polls (s.read i resp) := by
    intro hr
    rw [Owner.http_read] at hr
    show 0 < (s.read i resp).own.priceTimer.waiting + (s.read i resp).own.priceTimer.due
    rw [Owner.own_read]
    exact h (Client.ready_step (by simp) hr)
  cases hh : s.handed i resp with
  | none =>
    rw [run_onRead_none hh]
    exact hs
  | some p =>
    obtain ⟨req, got⟩ := p
    have hc := handled_httpDataHandler cfg req got (s.read i resp)
    rcases hm : (httpDataHandler cfg req got).run (s.read i resp) with ⟨_, t, o⟩ | ⟨x, t, o⟩
    · rw [run_onRead_done hh hm]
      rw [hm] at hc
      have ht : Polls t := by
        cases hc with
        | price hp =>
          apply polls_cancel
          intro hr hd
          rw [Owner.own_read] at hd
          rw [Owner.http_read] at hr
          exact he (Client.ready_step (by simp) hr) hd (req, got) hh hp
        | key tree key => exact polls_keyed hs key
        | rest => exact hs
      exact ht.perform (by simp)
    · rw [run_onRead_raised hh hm]
      rw [hm] at hc
      cases hc with
      | malformed => exact hs

theorem polls_onHandshake (h : Polls s) (isOpen : Bool) (now : UInt64) (time : UInt32) :
    Polls ((onHandshake (onConnectHttpClient cfg isOpen now time) time).run s).state := by
  rw [onHandshake, run_bind_done (run_self s), Outcome.after_nil]
  split
  · rw [run_bind_done (run_connected cfg isOpen now time s)]
    exact fun _ => armed_connected cfg isOpen now time s
  · exact h

theorem polls_connectFailed (h : Polls s) (he : Spares s .connectFailed) :
    Polls ((connectFailed (onConnectHttpClient cfg false 0 0)).run s).state := by
  rw [connectFailed, run_bind_done (run_self s), Outcome.after_nil]
  split
  · next hc =>
    rw [run_bind_done (run_disconnected cfg false 0 0 s)]
    have hd : s.http.ready = true → s.own.priceTimer.due ≠ 0 := fun hr hd => by
      have := he hr hd
      omega
    exact ((polls_cancel hd).modify rfl).perform (by simp)
  · exact h

theorem polls_userCallback (now : UInt64) (time : UInt32) (io : Wss.Io) (h : Polls s) :
    Polls ((userCallback now time io).run s).state := by
  cases io with
  | dataHandler => exact h
  | connectHandler connect =>
    cases connect with
    | true => exact (h.push pingRequest now time).modify rfl
    | false => exact h.push createUserStream now time

theorem polls_onStream (h : Polls s) (i : ℕ) (ok : Bool) (now : UInt64) (time : UInt32) :
    Polls ((onStream i ok now time).run s).state := by
  have hk (io : Wss.Io) (t : State) :
      (userCallback now time io).Keeps (fun s t => Polls s → Polls t) (fun _ => True) t :=
    ⟨polls_userCallback now time io, fun _ _ => trivial⟩
  have hl (ios : List Wss.Io) (t : State) :
      (ios.forM (userCallback now time)).Keeps (fun s t => Polls s → Polls t) (fun _ => True) t :=
    keeps_forM (fun _ => id) (fun {_ _ _} h h' hs => h' (h hs)) ios (fun io _ => hk io) t
  rw [onStream, run_bind_done (run_self s), Outcome.after_nil, run_bind_done (run_update _ s),
    Outcome.after_nil]
  exact (hl _ _).1 (h.modify rfl)

theorem polls_left {o : Outcome State Out Exc Unit} (h : Polls o.state) : Polls (left o) := by
  cases o with
  | done => exact h
  | raised x t o =>
    show Polls (t.modify fun b => { b with alive := false })
    exact h.modify rfl

theorem polls_handle (h : Polls s) {e : Event} (he : Spares s e) :
    Polls ((handle cfg e).run s).state := by
  cases e with
  | call c now time => exact h.push _ now time
  | onWrite | onReadError | onReconnect => exact h.perform (by simp)
  | onRead i resp time => exact polls_onRead h he
  | connectFailed => exact polls_connectFailed h he
  | onHandshake isOpen now time => exact polls_onHandshake h isOpen now time
  | onStream i ok now time => exact polls_onStream h i ok now time
  | expirePing =>
    show Polls (s.modify fun b => { b with pingTimer := b.pingTimer.expire })
    exact h.modify rfl
  | expireCleanup =>
    show Polls (s.modify fun b => { b with cleanupTimer := b.cleanupTimer.expire })
    exact h.modify rfl
  | expirePrice =>
    intro hr
    have hp : 0 < s.own.priceTimer.waiting + s.own.priceTimer.due := h hr
    show 0 < 0 + (s.own.priceTimer.due + s.own.priceTimer.waiting)
    omega
  | onPingTimer now time =>
    rw [handle, run_bind_done (run_self s), Outcome.after_nil]
    split
    · exact ((h.modify rfl).push pingRequest now time).modify rfl
    · exact h
  | onPriceTimer now time =>
    rw [handle, run_bind_done (run_self s), Outcome.after_nil]
    split
    · rw [run_bind_done (run_update _ s), Outcome.after_nil]
      exact polls_onPriceTimer now time _
    · exact h
  | onCleanupTimer now =>
    rw [handle, run_bind_done (run_self s), Outcome.after_nil]
    split
    · exact ((h.modify rfl).perform (by simp)).modify rfl
    · exact h

theorem polls_step (h : Polls s) {e : Event} (he : Spares s e) :
    Polls ((binance cfg).next s e) := by
  show Polls (if s.own.alive then left ((handle cfg e).run s) else s)
  split
  · exact polls_left (polls_handle h he)
  · exact h

/-- The condition is exact: what is not spared is the only wait. -/
theorem spares_of_polls {e : Event} (ha : s.own.alive = true)
    (h : Polls ((binance cfg).next s e)) : Spares s e := by
  have hn : (binance cfg).next s e = left ((handle cfg e).run s) := if_pos ha
  rw [hn] at h
  cases e with
  | onRead i resp time =>
    intro hr hd p hp hprice
    obtain ⟨o, ho⟩ := run_priceOf cfg hprice (s.read i resp)
    rw [handle, run_onRead_done hp ho] at h
    have hready : (s.http.step (.onRead i true)).1.ready = true := by rwa [Client.ready_onRead]
    have harmed := h (by
      show ((((s.read i resp).http).step (.onReadLocked 0 time)).1).ready = true
      rwa [Client.ready_onReadLocked, Owner.http_read])
    have hdue : 0 < 0 + (s.read i resp).own.priceTimer.due := harmed
    rw [Owner.own_read, hd] at hdue
    exact absurd hdue (by decide)
  | connectFailed =>
    intro hr hd
    by_contra hc
    rw [handle, connectFailed, run_bind_done (run_self s), Outcome.after_nil,
      if_pos (Nat.pos_of_ne_zero hc), run_bind_done (run_disconnected cfg false 0 0 s)] at h
    have harmed := h (by
      show (s.http.step .connectFailed).1.ready = true
      rw [Client.step, if_pos (Nat.pos_of_ne_zero hc)]
      exact hr)
    have hdue : 0 < 0 + s.own.priceTimer.due := harmed
    rw [hd] at hdue
    exact absurd hdue (by decide)
  | _ => trivial

/-- As long as no event cancels the only wait of a connected client, there is one. -/
theorem polls_of_spares {es : List Event} (h : (binance cfg).Along Spares init es) :
    Polls ((binance cfg).run init es) :=
  Machine.run_invariant Polls (fun _ _ hs he => polls_step hs he)
    (fun hr => absurd hr (by decide)) h

/-- The account is read, and the first tick of the timer polls. -/
theorem polls_connected : Polls ((binance keyless).run init
    [.onHandshake true 7000 7, .onWrite 0 true, .onRead 0 okAnswer 8, .expirePrice,
      .onPriceTimer 8000 8]) :=
  polls_of_spares (by decide)

/-- A web client asks for the price of one symbol. Once it is answered, the client is
connected and nothing will ask for prices any more. -/
theorem priceSymbol_ends_polling : ¬∀ es : List Event, Polls ((binance keyless).run init es) := by
  intro h
  have hp := h [.onHandshake true 7000 7, .call (.getPrice "BTC") 7500 7, .onWrite 0 true,
    .onRead 0 okAnswer 8, .onWrite 0 true, .onRead 0 okAnswer 8, .onWrite 0 true, .onRead 0 okAnswer 8]
  exact absurd hp (by decide)

end BotTrader.Binance
