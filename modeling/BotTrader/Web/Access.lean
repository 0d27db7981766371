import BotTrader.Web.Sessions

/-! What an unauthorised session learns and causes. Commands are guarded by the id of
the session, and every message to the clients again by the ids, so all rests on who
can get an id: only a log-in with one of the two passwords gives one. Where the
control is Telegram's, that is the next one counted, and the counter is an `int`. -/

namespace BotTrader.Web

open Automata Handler Boost Cpp Server

variable {lib : Library} {s s' : Server} {j k : ℕ} {i : ℤ} {password : String}

/-- What the server is configured with. -/
def Server.config (s : Server) : String × String × Interface :=
  (s.adminPassword, s.userPassword, s.interface)

theorem config_logIn (s : Server) (k : ℕ) (i : ℤ) : (s.logIn k i).config = s.config := by
  simp only [logIn, changeKey]
  split
  · split <;> rfl
  · rfl

theorem LogIn.config (h : LogIn s k password s') : s'.config = s.config := by
  cases h with
  | refused => rfl
  | admin => exact config_logIn s k 0
  | user => exact config_logIn s.nextId k _

theorem LogIn.id_of_ne (h : LogIn s k password s') (hj : j ≠ k) : s'.id j = s.id j := by
  cases h with
  | refused => rfl
  | admin => exact id_logIn_of_ne hj
  | user => exact id_logIn_of_ne hj

theorem LogIn.eq_of_wrong (h : LogIn s k password s')
    (hp : ¬(password = s.adminPassword ∨ password = s.userPassword)) : s' = s := by
  cases h with
  | refused => rfl
  | admin ha => exact absurd (.inl ha) hp
  | user hu => exact absurd hu.known hp

/-- Under Telegram's control a log-in gives no session the id 0. -/
theorem LogIn.id_ne_zero (h : LogIn s k password s') (hi : s.interface = .IntfTlg)
    (hc : s.Counts) (hm : s.currId = intMax → ¬s.Joins k password) (h0 : ∀ j, s.id j ≠ 0) (j : ℕ) :
    s'.id j ≠ 0 := by
  cases h with
  | refused => exact h0 j
  | admin _ hn => exact absurd hi hn
  | user h =>
    by_cases hj : j = k
    · subst hj
      rw [id_logIn_self]
      exact (hc.nextId_pos fun he => hm he h).ne'
    · rw [id_logIn_of_ne hj]
      exact h0 j

/-- The event is a log-in of `k` with one of the two passwords. -/
def LogsIn (lib : Library) (adminPassword userPassword : String) (k : ℕ) : Event → Prop
  | .receive j msg => j = k ∧ ∃ pt, Parses lib msg pt ∧ pt.get "c" = .ok "authUser" ∧
      (pt.getD "p" "" = adminPassword ∨ pt.getD "p" "" = userPassword)
  | _ => False

namespace World

variable {w : World} {e : Event} {adminPassword userPassword : String} {interface : Interface}

/-- The server has kept its passwords and its interface. -/
def Configured (adminPassword userPassword : String) (interface : Interface) (w : World) : Prop :=
  w.server.config = (adminPassword, userPassword, interface)

/-- Under Telegram's control no session has the id 0. -/
structure Governed (w : World) : Prop where
  interface : w.server.interface = .IntfTlg
  counts : w.server.Counts
  none : ∀ j, w.server.id j ≠ 0

theorem id_accept (j : ℕ) : (w.handle lib .accept).1.server.id j =
    if j = w.accepted then -1 else w.server.id j := by
  by_cases h : j = w.accepted <;>
    simp [handle, call, onConnect, Server.id, Server.emplace, h]

theorem id_close (k : ℕ) : (w.handle lib (.onClose k)).1.server.id = w.server.id := by
  simp only [handle]
  split <;> rfl

theorem config_close (k : ℕ) :
    (w.handle lib (.onClose k)).1.server.config = w.server.config := by
  simp only [handle]
  split <;> rfl

theorem configured_step (h : w.Configured adminPassword userPassword interface) :
    (w.step lib e).1.Configured adminPassword userPassword interface := by
  refine step_of_move h fun w' hm => ?_
  cases hm with
  | stay | link | accept => exact h
  | tells e hm => rwa [Configured, server_tells hm]
  | @receive k msg =>
    have hr : Received lib w.server k msg (w.call (onReceive lib k msg)).1.server :=
      state_onReceive lib k msg w.server
    suffices hs : ∀ s', Received lib w.server k msg s' → s'.config = w.server.config from
      (hs _ hr).trans h
    intro s' hr
    cases hr with
    | same | ready => rfl
    | logIn _ _ hl => exact hl.config
  | close hc => rwa [Configured, config_close]

/-- A log-in whose id is in range gives none the id 0. -/
theorem governed_step (h : w.Governed) (ho : w.InRange lib e) : (w.step lib e).1.Governed := by
  refine step_of_move h fun w' hm => ?_
  cases hm with
  | stay => exact h
  | tells e hm =>
    have hs := server_tells hm
    exact ⟨by rw [hs]; exact h.interface, by rw [hs]; exact h.counts, by rw [hs]; exact h.none⟩
  | link => exact ⟨h.interface, h.counts, h.none⟩
  | accept =>
    refine ⟨h.interface, h.counts, fun j => ?_⟩
    rw [id_accept]
    split
    · decide
    · exact h.none j
  | @receive k msg hp =>
    have hr : Received lib w.server k msg (w.call (onReceive lib k msg)).1.server :=
      state_onReceive lib k msg w.server
    suffices hs : ∀ s', Received lib w.server k msg s' →
        s'.interface = .IntfTlg ∧ s'.Counts ∧ ∀ j, s'.id j ≠ 0 from
      ⟨(hs _ hr).1, (hs _ hr).2.1, (hs _ hr).2.2⟩
    intro s' hr
    cases hr with
    | same => exact ⟨h.interface, h.counts, h.none⟩
    | logIn hp' hc hl =>
      have hm := not_overflows hp' hc (ho hp)
      exact ⟨(congrArg (·.2.2) hl.config).trans h.interface, hl.counts h.counts hm,
        hl.id_ne_zero h.interface h.counts hm h.none⟩
    | ready => exact ⟨h.interface, h.counts, fun j => by rw [id_setReady]; exact h.none j⟩
  | close hc =>
    simp only [handle, if_pos hc]
    exact ⟨h.interface, h.counts, h.none⟩

/-- Without a log-in, a session stays without an id. -/
theorem unauthorised_step (h : w.Configured adminPassword userPassword interface)
    (hk : w.server.id k < 0) (he : ¬LogsIn lib adminPassword userPassword k e) :
    (w.step lib e).1.server.id k < 0 := by
  refine step_of_move (I := fun w => w.server.id k < 0) hk fun w' hm => ?_
  cases hm with
  | stay | link => exact hk
  | tells e hm => rwa [server_tells hm]
  | accept =>
    rw [id_accept]
    split
    · decide
    · exact hk
  | @receive j msg =>
    show ((onReceive lib j msg).run w.server).state.id k < 0
    rcases onReceive_cases lib j msg w.server with ⟨hs, -⟩ | ⟨pt, hp, hc, hl, -⟩ |
      ⟨pt, cmd, -, -, -, -, hr⟩
    · rwa [hs]
    · by_cases hjk : k = j
      · subst hjk
        rw [hl.eq_of_wrong fun hw => he ⟨rfl, pt, hp, hc, ?_⟩]
        · exact hk
        · have ha : w.server.adminPassword = adminPassword := congrArg (·.1) h
          have hu : w.server.userPassword = userPassword := congrArg (·.2.1) h
          rwa [ha, hu] at hw
      · rwa [hl.id_of_ne hjk]
    · rw [hr]
      rcases (commandDecoder_keeps j cmd pt w.server).1 with hs | hs
      · rwa [hs]
      · rwa [hs, id_setReady]
  | close => rwa [id_close]

/-- What a step puts out is put out by a message of a session, or told to sessions that
are logged in. -/
theorem emit_cases {o : Out} (ho : o ∈ (w.step lib e).2) :
    (∃ j msg, e = .receive j msg ∧ o ∈ ((onReceive lib j msg).run w.server).calls) ∨
      o.Told w.server := by
  have none_of (c : Prop) [Decidable c] (w₁ : World) :
      o ∉ (if c then (w₁, []) else (w, []) : World × List Out).2 := by
    split <;> exact List.not_mem_nil
  unfold World.step at ho
  split at ho
  · cases e with
    | receive j msg =>
      simp only [handle] at ho
      split at ho
      · exact .inl ⟨j, msg, rfl, ho⟩
      · exact absurd ho List.not_mem_nil
    | accept => exact absurd ho List.not_mem_nil
    | onHandshake | onAccept | readError | writeError => exact absurd ho (none_of _ _)
    | onClose k =>
      simp only [handle] at ho
      split at ho <;> exact absurd ho List.not_mem_nil
    | send data client => exact .inr ((tells_send data client w.server).2 o ho)
    | onPrice data => exact .inr ((tells_onPrice lib data w.server).2 o ho)
    | onBinanceError data => exact .inr ((tells_onBinanceError lib data w.server).2 o ho)
    | onAccount data => exact .inr ((tells_onAccount lib data w.server).2 o ho)
    | onOrdersList data => exact .inr ((tells_onOrdersList lib data w.server).2 o ho)
    | onTradeSteps symbol posList =>
      exact .inr ((tells_onTradeSteps symbol posList w.server).2 o ho)
  · exact absurd ho List.not_mem_nil

/-- What a message of a session that is not logged in puts out. -/
theorem reply_of_unauthorised {msg : Bytes} {o : Out} (hk : s.id k < 0)
    (ho : o ∈ ((onReceive lib k msg).run s).calls) :
    o.Reply k "authUser" ∨ o.Reply k "errorMsg" := by
  rcases onReceive_cases lib k msg s with ⟨-, hr⟩ | ⟨pt, -, -, -, hr⟩ | ⟨pt, cmd, -, -, -, hid, -⟩
  · exact .inr (hr o ho)
  · exact .inl (hr o ho)
  · exact absurd hk (not_lt.mpr hid)

/-- A message of a session is answered to that session only. -/
theorem eq_of_send {msg : Bytes} {data : Payload}
    (ho : .send k data ∈ ((onReceive lib j msg).run s).calls) : k = j := by
  have of_reply {e : String} (h : Out.Reply j e (.send k data)) : k = j := by
    obtain ⟨t, ht, -⟩ := h
    exact (Out.send.inj ht).1
  rcases onReceive_cases lib j msg s with ⟨-, hr⟩ | ⟨pt, -, -, -, hr⟩ | ⟨pt, cmd, -, -, -, -, hr⟩
  · exact of_reply (hr _ ho)
  · exact of_reply (hr _ ho)
  · rw [hr] at ho
    generalize ho' : Out.send k data = o at ho
    cases (commandDecoder_keeps j cmd pt s).2 o ho with
    | reply t => exact (Out.send.inj ho').1
    | request | tradeData | admin => cases ho'

/-- At the event the session `k` gets no id, posts no event and is told nothing but the
replies to its message. -/
structure Excluded (lib : Library) (w : World) (k : ℕ) (e : Event) : Prop where
  id : ((webServer lib).next w e).server.id k < 0
  causes : ∀ msg ev, e = .receive k msg → .event ev ∉ (webServer lib).emit w e
  learns : ∀ data, .send k data ∈ (webServer lib).emit w e →
    (∃ msg, e = .receive k msg) ∧
      (Out.Reply k "authUser" (.send k data) ∨ Out.Reply k "errorMsg" (.send k data))

theorem excluded_of_id (h : w.Configured adminPassword userPassword interface)
    (hk : w.server.id k < 0) (he : ¬LogsIn lib adminPassword userPassword k e) :
    Excluded lib w k e where
  id := unauthorised_step h hk he
  causes := by
    rintro msg ev rfl ho
    rcases emit_cases ho with ⟨j, msg', he, hr⟩ | ⟨j, data, he, -⟩
    · obtain ⟨rfl, rfl⟩ := Event.receive.inj he
      rcases reply_of_unauthorised hk hr with ⟨t, ht, -⟩ | ⟨t, ht, -⟩ <;> cases ht
    · cases he
  learns data ho := by
    rcases emit_cases ho with ⟨j, msg, rfl, hr⟩ | ⟨j, data', he, hid⟩
    · obtain rfl := eq_of_send hr
      exact ⟨⟨msg, rfl⟩, reply_of_unauthorised hk hr⟩
    · rw [← (Out.send.inj he).1] at hid
      exact absurd hk (not_lt.mpr hid)

section Runs

variable (lib : Library) (adminPassword userPassword : String) (interface : Interface)
  (symbolsList : List String)

/-- A session that has not logged in with one of the passwords has no id. -/
theorem unauthorised_run (k : ℕ) (es : List Event)
    (h : ∀ e ∈ es, ¬LogsIn lib adminPassword userPassword k e) :
    ((webServer lib).run (init adminPassword userPassword interface symbolsList) es).Configured
      adminPassword userPassword interface ∧
    ((webServer lib).run (init adminPassword userPassword interface symbolsList) es).server.id k
      < 0 :=
  Machine.run_invariant (M := webServer lib)
    (fun w => w.Configured adminPassword userPassword interface ∧ w.server.id k < 0)
    (fun _ _ hw he => ⟨configured_step hw.1, unauthorised_step hw.1 hw.2 he⟩)
    (s := init adminPassword userPassword interface symbolsList)
    ⟨rfl, by show (-1 : ℤ) < 0; decide⟩ (Machine.along_of_mem _ _ es h)

theorem governed_run (es : List Event)
    (h : (webServer lib).Along (InRange lib)
      (init adminPassword userPassword .IntfTlg symbolsList) es) :
    ((webServer lib).run (init adminPassword userPassword .IntfTlg symbolsList) es).Governed :=
  Machine.run_invariant Governed (fun _ _ hw ho => governed_step hw ho)
    ⟨rfl, counts_init _ _ _ _, fun _ => by show (-1 : ℤ) ≠ 0; decide⟩ h

/-- A session that has not logged in with one of the passwords has no id, posts no event
with its messages, and is sent nothing but the replies to them; under Telegram's control no
session has the id 0, as long as the counter of ids does not overflow. -/
theorem unauthorised_powerless (es : List Event) (e : Event) :
    (∀ k, (∀ e' ∈ es ++ [e], ¬LogsIn lib adminPassword userPassword k e') →
      Excluded lib ((webServer lib).run (init adminPassword userPassword interface symbolsList) es)
        k e) ∧
    (interface = .IntfTlg →
      (webServer lib).Along (InRange lib) (init adminPassword userPassword interface symbolsList)
        (es ++ [e]) →
      ∀ k, ((webServer lib).run (init adminPassword userPassword interface symbolsList)
        (es ++ [e])).server.id k ≠ 0) := by
  constructor
  · intro k h
    obtain ⟨hc, hk⟩ := unauthorised_run lib adminPassword userPassword interface symbolsList k es
      fun e' he' => h e' (List.mem_append_left _ he')
    exact excluded_of_id hc hk (h e (by simp))
  · rintro rfl h
    exact (governed_run _ _ _ _ _ h).none

end Runs

end World

/-! ### Under Telegram's control -/

/-- The server of the runs below. -/
def governed : World := .init "123" "456" .IntfTlg ["BTC"]

/-- One session logs in, and another one does not. -/
def visited : List Event := connect 0 ++ enter 1

theorem inRange_visited : (webServer loginLibrary).Along (World.InRange loginLibrary) governed
    (visited ++ [.receive 1 askFilters]) := by decide +kernel

theorem parses_askFilters : Parses loginLibrary askFilters (.node [("c", .leaf "getFilters")]) :=
  ⟨ascii "\x7b\"c\":\"getFilters\"\x7d", by decide +kernel, rfl⟩

/-- The session that has not logged in sends a command. -/
theorem powerless_connected :
    World.Excluded loginLibrary ((webServer loginLibrary).run governed visited) 1
      (.receive 1 askFilters) ∧
    ∀ k, ((webServer loginLibrary).run governed
      (visited ++ [.receive 1 askFilters])).server.id k ≠ 0 := by
  have h := World.unauthorised_powerless loginLibrary "123" "456" .IntfTlg ["BTC"] visited
    (.receive 1 askFilters)
  refine ⟨h.1 1 fun e he hl => ?_, h.2 rfl inRange_visited⟩
  simp only [visited, connect, enter, List.mem_append, List.mem_cons, List.not_mem_nil,
    or_false] at he
  rcases he with (((rfl | rfl | rfl) | rfl) | rfl | rfl | rfl) | rfl
  case inr =>
    obtain ⟨-, pt, hp, hc, -⟩ := hl
    rw [parses_unique hp parses_askFilters] at hc
    exact absurd hc (by decide)
  case inl.inl.inr => exact absurd hl.1 (by decide)
  all_goals exact hl

/-! ### One visitor too many -/

/-- The tree of a log-in with the administrator's password. -/
def loginTree : Ptree := .node [("c", .leaf "authUser"), ("p", .leaf "123")]

theorem parses_login : Parses loginLibrary login loginTree :=
  ⟨ascii "\x7b\"c\":\"authUser\",\"p\":\"123\"\x7d", by decide +kernel, rfl⟩

/-- After `n` visitors of a server under Telegram's control, who all logged in and left. -/
structure Deserted (n : ℕ) (w : World) : Prop where
  alive : w.alive = true
  accepted : w.accepted = n
  table : w.server.clientMap = []
  config : w.server.adminPassword = "123" ∧ w.server.interface = .IntfTlg
  currId : w.server.currId = int32 (n + 1)

/-- The next visitor alone in the table. -/
def alone (n : ℕ) (s : Server) : Server :=
  { s with session := Function.update s.session n {}, clientMap := [(-1, n)] }

theorem run_enter {n : ℕ} {w : World} (h : Deserted n w) :
    (webServer loginLibrary).run w (enter n) =
      { server := alone n w.server
        link := Function.update w.link n { phase := .reading }
        accepted := n + 1
        alive := true } := by
  obtain ⟨ha, rfl, ht, -, -⟩ := h
  simp [enter, webServer, World.step, World.handle, World.call, onConnect, World.setLink,
    World.phase, ha, Server.emplace, ht, Multimap.emplace, alone]

theorem run_connect {n : ℕ} {w : World} (h : Deserted n w) :
    (webServer loginLibrary).run w (connect n) =
      { server := (alone n w.server).nextId.logIn n (alone n w.server).nextId.currId
        link := Function.update w.link n { phase := .reading }
        accepted := n + 1
        alive := true } := by
  have hj : (alone n w.server).Joins n "123" :=
    ⟨List.mem_singleton_self (-1, n), .inl h.config.1.symm, fun _ => h.config.2⟩
  obtain ⟨os, hr⟩ := run_joins parses_login rfl hj
  rw [connect, Machine.run_append, run_enter h]
  simp [webServer, World.step, World.handle, World.call, World.phase, hr]

/-- A visitor gets the id that is counted next. -/
theorem currId_alone {n : ℕ} {w : World} (h : Deserted n w) :
    (alone n w.server).nextId.currId = int32 (n + 2) := by
  have hc : (alone n w.server).currId = int32 (n + 1) := h.currId
  rw [nextId, hc, int32_int32_add, add_assoc, one_add_one_eq_two]

theorem run_disconnect {n : ℕ} {w : World} (ha : w.alive = true) (hp : w.phase n = .reading) :
    ((webServer loginLibrary).run w (disconnect n)).alive = true ∧
      ((webServer loginLibrary).run w (disconnect n)).accepted = w.accepted ∧
      ((webServer loginLibrary).run w (disconnect n)).server =
        { w.server with clientMap := w.server.clientMap.eraseKey (w.server.id n) } := by
  simp [disconnect, webServer, World.step, World.handle, World.call, World.setLink,
    World.startClose, onDisconnect, ha, hp]

/-- A visitor that was alone leaves an empty table. -/
theorem eraseKey_logIn {s : Server} {n : ℕ} {i : ℤ} (h : s.clientMap = [(-1, n)]) :
    (s.logIn n i).clientMap.eraseKey i = [] := by
  have hm : (s.setId n i).clientMap = [(-1, n)] := h
  by_cases hi : 0 ≤ i <;>
    simp [logIn, changeKey, hm, hi, Multimap.eraseValue, Server.emplace, Multimap.emplace,
      Multimap.eraseKey]

theorem deserted_visit {n : ℕ} {w : World} (h : Deserted n w) :
    Deserted (n + 1) ((webServer loginLibrary).run w (connect n ++ disconnect n)) := by
  obtain ⟨ha, hacc, hs⟩ := run_disconnect (n := n) (w := (webServer loginLibrary).run w (connect n))
    (by rw [run_connect h]) (by simp [run_connect h, World.phase])
  have hcfg := config_logIn (alone n w.server).nextId n (alone n w.server).nextId.currId
  rw [run_connect h] at hacc hs
  rw [Machine.run_append, run_connect h]
  refine ⟨by rwa [run_connect h] at ha, hacc, ?_, ?_, ?_⟩
  · rw [hs, id_logIn_self]
    exact eraseKey_logIn rfl
  · rw [hs]
    exact ⟨(congrArg (·.1) hcfg).trans h.config.1, (congrArg (·.2.2) hcfg).trans h.config.2⟩
  · rw [hs]
    simp only
    rw [currId_logIn, currId_alone h, Nat.cast_add, Nat.cast_one, add_assoc, one_add_one_eq_two]

/-- One visitor after the other. -/
def visits (n : ℕ) : List Event := (List.range n).flatMap fun k => connect k ++ disconnect k

theorem deserted_visits (n : ℕ) : Deserted n ((webServer loginLibrary).run governed (visits n)) := by
  induction n with
  | zero => exact ⟨rfl, rfl, rfl, ⟨rfl, rfl⟩, by decide⟩
  | succ n ih =>
    have hv : visits (n + 1) = visits n ++ (connect n ++ disconnect n) := by
      simp [visits, List.range_succ]
    rw [hv, Machine.run_append]
    exact deserted_visit ih

theorem id_visitor (n : ℕ) :
    ((webServer loginLibrary).run governed (visits n ++ connect n)).server.id n =
      int32 (n + 2) := by
  rw [Machine.run_append, run_connect (deserted_visits n), id_logIn_self,
    currId_alone (deserted_visits n)]

theorem int32_around : int32 ((4294967294 : ℕ) + 2) = 0 := by
  rw [Nat.cast_ofNat]
  decide

/-- The counter of ids comes around to 0. -/
theorem admin_from_telegram : ¬∀ (lib : Library) (adminPassword userPassword : String)
    (interface : Interface) (symbolsList : List String) (es : List Event) (e : Event),
    (∀ k, (∀ e' ∈ es ++ [e], ¬LogsIn lib adminPassword userPassword k e') →
      World.Excluded lib
        ((webServer lib).run (.init adminPassword userPassword interface symbolsList) es) k e) ∧
    (interface = .IntfTlg →
      ∀ k, ((webServer lib).run (.init adminPassword userPassword interface symbolsList)
        (es ++ [e])).server.id k ≠ 0) := by
  intro h
  obtain ⟨n, hn⟩ : ∃ n : ℕ, int32 (n + 2) = 0 := ⟨4294967294, int32_around⟩
  refine (h loginLibrary "123" "456" .IntfTlg ["BTC"] (visits n ++ enter n)
    (.receive n login)).2 rfl n ?_
  rw [List.append_assoc]
  exact (id_visitor n).trans hn

end BotTrader.Web
