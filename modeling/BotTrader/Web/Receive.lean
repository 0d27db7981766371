import BotTrader.Web.Server

/-! What `on_receive` does: how it changes the table of clients and the sessions,
what it sends and posts, and on which messages an exception escapes from it. -/

namespace BotTrader.Web

open Automata Handler Boost Cpp

variable {lib : Library} {s : Server} {k : ℕ} {pt : Ptree} {cmd : String}

namespace Server

/-- The entry of a client under a new key; a negative key is no entry. -/
def changeKey (k : ℕ) (i : ℤ) (s : Server) : Server :=
  if s.clientMap.any (·.2 = k) then
    let s' := { s with clientMap := s.clientMap.eraseValue k }
    if 0 ≤ i then s'.emplace i k else s'
  else s

/-- A log-in with the id `i`. -/
def logIn (k : ℕ) (i : ℤ) (s : Server) : Server := (s.setId k i).changeKey k i

/-- `++m_curr_id` -/
def nextId (s : Server) : Server := { s with currId := int32 (s.currId + 1) }

end Server

/-- The tree has the key. -/
def Has (t : Ptree) (key : String) : Prop := ∃ c, t.child? key = some c

/-- The message `e` to the client `k`. -/
def Out.Reply (k : ℕ) (e : String) (o : Out) : Prop :=
  ∃ t, o = .send k (.tree t) ∧ t.get "e" = .ok e

theorem exists_get_iff {t : Ptree} {key : String} : (∃ s, t.get key = .ok s) ↔ Has t key := by
  simp only [Ptree.get_ok_iff]
  constructor
  · rintro ⟨s, c, hc, -⟩
    exact ⟨c, hc⟩
  · rintro ⟨c, hc⟩
    exact ⟨c.data, c, hc, rfl⟩

/-! ### Log-in -/

@[simp] theorem run_changeClientKey (k : ℕ) (i : ℤ) (s : Server) :
    (changeClientKey k i).run s = .done () (s.changeKey k i) [] := by
  simp only [changeClientKey, Server.changeKey, run_bind, run_self]
  split
  · simp only [run_bind, run_update]
    split <;> simp
  · simp

/-- The reply of `as_user`. -/
def userReply (apt : Ptree) : Ptree :=
  ((apt.put "c" "0").put "r" "user").put "m" "Пароль принят. Управление блокировано"

@[simp] theorem run_asUser (k : ℕ) (apt : Ptree) (s : Server) :
    (asUser k apt).run s = .done (userReply apt) (s.nextId.logIn k s.nextId.currId) [] := by
  simp [asUser, run_bind, userReply, Server.nextId, Server.logIn, Server.setId]

/-- The password makes the session a user with the next id. -/
@[mk_iff] structure Server.Joins (s : Server) (k : ℕ) (password : String) : Prop where
  fresh : (-1, k) ∈ s.clientMap
  known : password = s.adminPassword ∨ password = s.userPassword
  telegram : password = s.adminPassword → s.interface = .IntfTlg

/-- What a log-in can make of the server. -/
inductive LogIn (s : Server) (k : ℕ) (password : String) : Server → Prop where
  | refused (h : ¬s.Joins k password) : LogIn s k password s
  | admin (hp : password = s.adminPassword) (hi : s.interface ≠ .IntfTlg)
      (h0 : s.clientMap.findKey 0 = none) (hk : (-1, k) ∈ s.clientMap) : LogIn s k password (s.logIn k 0)
  | user (h : s.Joins k password) : LogIn s k password (s.nextId.logIn k s.nextId.currId)

theorem child?_userReply (apt : Ptree) : (userReply apt).child? "e" = apt.child? "e" := by
  simp [userReply, Ptree.child?_put]

theorem asAdmin_spec (k : ℕ) (apt : Ptree) (s : Server) (hk : (-1, k) ∈ s.clientMap) :
    ∃ s', LogIn s k s.adminPassword s' ∧ ∃ reply, (asAdmin k apt).run s = .done reply s' [] ∧
      reply.child? "e" = apt.child? "e" := by
  by_cases hi : s.interface = .IntfTlg
  · refine ⟨_, .user ⟨hk, .inl rfl, fun _ => hi⟩, ?_⟩
    simp [asAdmin, run_bind, hi, child?_userReply, Ptree.child?_put]
  · by_cases h0 : s.clientMap.findKey 0 = none
    · refine ⟨_, .admin rfl hi h0 hk, ?_⟩
      simp [asAdmin, run_bind, hi, h0, Server.logIn, Ptree.child?_put]
    · refine ⟨_, .refused fun h => hi (h.telegram rfl), ?_⟩
      simp [asAdmin, run_bind, hi, h0, Ptree.child?_put]

theorem authUser_spec (k : ℕ) (pt : Ptree) (s : Server) :
    ∃ s', LogIn s k (pt.getD "p" "") s' ∧ ∃ os, (authUser k pt).run s = .done () s' os ∧
      ∀ o ∈ os, o.Reply k "authUser" := by
  have reply {t : Ptree} (h : t.child? "e" = some (.leaf "authUser")) :
      Out.Reply k "authUser" (.send k (.tree t)) := ⟨t, rfl, Ptree.get_ok_iff.mpr ⟨_, h, rfl⟩⟩
  have he : (Ptree.empty.put "e" "authUser").child? "e" = some (.leaf "authUser") := by
    simp [Ptree.child?_put]
  by_cases hk : (-1, k) ∈ s.clientMap
  · by_cases ha : pt.getD "p" "" = s.adminPassword
    · obtain ⟨s', hl, t, hr, ht⟩ := asAdmin_spec k (Ptree.empty.put "e" "authUser") s hk
      refine ⟨s', by rwa [ha], [.send k (.tree t)], ?_, by simpa using reply (ht.trans he)⟩
      simp [authUser, run_bind, hk, ha, hr]
    · by_cases hu : pt.getD "p" "" = s.userPassword
      · refine ⟨_, .user ⟨hk, .inr hu, fun h => absurd h ha⟩, [.send k (.tree (userReply _))], ?_,
          by simpa using reply ((child?_userReply _).trans he)⟩
        have hn : s.userPassword ≠ s.adminPassword := hu ▸ ha
        simp [authUser, run_bind, hk, hu, hn]
      · refine ⟨_, .refused fun h => h.known.elim ha hu,
          [.send k (.tree (rejectPassword (Ptree.empty.put "e" "authUser")))], ?_, ?_⟩
        · simp [authUser, run_bind, hk, ha, hu]
        · simpa using reply (by simp [rejectPassword, Ptree.child?_put])
  · exact ⟨s, .refused fun h => hk h.fresh, [], by simp [authUser, run_bind, hk], by simp⟩

/-! ### Commands -/

theorem run_errorMessage (k ecode : ℕ) (s : Server) :
    ∃ o, (errorMessage k ecode).run s = .done () s [o] ∧ o.Reply k "errorMsg" :=
  ⟨_, rfl, _, rfl, Ptree.get_ok_iff.mpr ⟨.leaf "errorMsg", by simp [Ptree.child?_put], rfl⟩⟩

@[simp] theorem error_errorMessage (k ecode : ℕ) (s : Server) :
    ((errorMessage k ecode).run s).error = none := rfl

@[simp] theorem error_post (e : WebEvent) (s : Server) : ((post e).run s).error = none := rfl

/-- The keys that a command reads without a default. -/
@[mk_iff] structure Complete (s : Server) (k : ℕ) (cmd : String) (pt : Ptree) : Prop where
  ordersList : cmd = "ordersList" → Has pt "m"
  openOrders : cmd = "ordersList" → pt.get "m" = .ok "open" → Has pt "s"
  tradeData : cmd = "tradeData" → s.id k ≠ 0 → Has pt "a"
  symbol : cmd = "tradeState" ∨ cmd = "priceSymbol" ∨ cmd = "tradePos" → Has pt "s"

theorem error_commandDecoder :
    ((commandDecoder k cmd pt).run s).error = none ↔ Complete s k cmd pt := by
  have post_get (key : String) (f : String → WebEvent) :
      ((do post (f (← attempt (pt.get key))) : Srv Unit).run s).error = none ↔ Has pt key := by
    rw [error_attempt_bind, ← exists_get_iff]
    simp
  unfold commandDecoder
  rw [run_bind_done (run_self s), Outcome.after_nil]
  refine error_ite_iff (fun h => ?_) fun _ => ?_
  · subst h
    exact error_ite_iff (fun _ => by simp [complete_iff]) fun _ => by simp [complete_iff]
  refine error_ite_iff (fun h => ?_) fun h₂ => ?_
  · subst h
    have other : ((do
        if (← attempt (pt.get "m")) = "all" then post (.ordReqList "") : Srv Unit).run s).error =
          none ↔ Has pt "m" := by
      rw [error_attempt_bind, ← exists_get_iff]
      refine exists_congr fun a => and_iff_left ?_
      split <;> rfl
    rw [error_attempt_bind, complete_iff]
    constructor
    · rintro ⟨m, hm, he⟩
      refine ⟨fun _ => exists_get_iff.mp ⟨m, hm⟩, fun _ ho => ?_, by simp, by simp⟩
      obtain rfl : m = "open" := by simpa [hm] using ho
      exact (post_get "s" .ordReqList).mp (by simpa using he)
    · rintro ⟨hm, hs, -, -⟩
      obtain ⟨m, hm⟩ := exists_get_iff.mpr (hm rfl)
      refine ⟨m, hm, ?_⟩
      split
      · next ho => exact (post_get "s" .ordReqList).mpr (hs rfl (ho ▸ hm))
      · exact other.mpr (exists_get_iff.mp ⟨m, hm⟩)
  refine error_ite_iff (fun h => ?_) fun _ => ?_
  · subst h
    simp [complete_iff]
  refine error_ite_iff (fun h => ?_) fun _ => ?_
  · subst h
    refine error_ite_iff (fun _ => by simp [complete_iff]) fun _ => ?_
    split <;> simp [complete_iff]
  refine error_ite_iff (fun h => ?_) fun h₅ => ?_
  · subst h
    refine error_ite_iff (fun hid => ?_) fun hid => by simp [complete_iff, hid]
    rw [error_attempt_bind]
    have any (a : String) : ((if a ≠ "get" then errorMessage k 1
        else post (.setTradeData pt)).run s).error = none := by
      split <;> rfl
    simp only [any, and_true, exists_get_iff]
    simp [complete_iff, hid]
  refine error_ite_iff (fun h => ?_) fun h₆ => ?_
  · subst h
    simpa [complete_iff] using post_get "s" .reqTradeState
  refine error_ite_iff (fun h => ?_) fun h₇ => ?_
  · subst h
    simpa [complete_iff] using post_get "s" .scrGetPrice
  refine error_ite_iff (fun h => ?_) fun h₈ => ?_
  · subst h
    simpa [complete_iff] using post_get "s" .reqTradePos
  -- the remaining commands read no key
  have hc : Complete s k cmd pt := by
    simp [complete_iff, h₂, h₅, h₆, h₇, h₈]
  refine error_ite_iff (fun _ => by simp [hc, run_bind]) fun _ => ?_
  exact error_ite_iff (fun _ => by simp [hc]) fun _ => by simp [hc]

/-- An event that only asks for data. -/
def WebEvent.Request : WebEvent → Prop
  | .tradeRun _ | .ordDelete _ _ | .setTradeData _ => False
  | _ => True

/-- What a command of `k` can put out. -/
inductive CommandOut (s : Server) (k : ℕ) (cmd : String) (pt : Ptree) : Out → Prop where
  | reply (t : Ptree) : CommandOut s k cmd pt (.send k (.tree t))
  | request (e : WebEvent) (h : e.Request) : CommandOut s k cmd pt (.event e)
  | tradeData (hc : cmd = "tradeData") (h : pt.get "a" = .ok "get") :
      CommandOut s k cmd pt (.event (.setTradeData pt))
  | admin (e : WebEvent) (h : s.id k = 0) : CommandOut s k cmd pt (.event e)

/-- A command changes at most the readiness of its session. -/
theorem commandDecoder_keeps (k : ℕ) (cmd : String) (pt : Ptree) (s : Server) :
    (commandDecoder k cmd pt).Keeps (fun s t => t = s ∨ t = s.setReady k)
      (CommandOut s k cmd pt) s := by
  have refl : ∀ s : Server, s = s ∨ s = s.setReady k := fun s => .inl rfl
  have out {o : Out} (h : CommandOut s k cmd pt o) :
      (call o : Srv Unit).Keeps (fun s t => t = s ∨ t = s.setReady k) (CommandOut s k cmd pt) s :=
    keeps_call refl h
  have ask {key : String} (f : String → WebEvent) (h : ∀ x, (f x).Request) :
      (do post (f (← attempt (pt.get key))) : Srv Unit).Keeps
        (fun s t => t = s ∨ t = s.setReady k) (CommandOut s k cmd pt) s :=
    keeps_attempt_bind refl fun x _ => out (.request _ (h x))
  refine keeps_self_bind ?_
  refine keeps_ite (fun _ => keeps_ite (fun _ => out (.reply _)) fun hid => ?_) fun _ => ?_
  · exact out (.admin _ (not_not.mp hid))
  refine keeps_ite (fun _ => keeps_attempt_bind refl fun m _ => ?_) fun _ => ?_
  · refine keeps_ite (fun _ => ask _ fun _ => trivial) fun _ => ?_
    refine keeps_attempt_bind refl fun m _ => ?_
    exact keeps_ite (fun _ => out (.request _ trivial)) fun _ => keeps_pure refl _
  refine keeps_ite (fun _ => out (.request _ trivial)) fun _ => ?_
  refine keeps_ite (fun _ => keeps_ite (fun _ => out (.reply _)) fun hid => ?_) fun _ => ?_
  · split
    · exact out (.admin _ (not_not.mp hid))
    · exact keeps_pure refl _
  refine keeps_ite (fun hc => keeps_ite (fun _ => ?_) fun hid => ?_) fun _ => ?_
  · refine keeps_attempt_bind refl fun a ha => ?_
    refine keeps_ite (fun _ => out (.reply _)) fun hg => ?_
    exact out (.tradeData hc (ha.trans (congrArg _ (not_not.mp hg))))
  · exact out (.admin _ (not_not.mp hid))
  refine keeps_ite (fun _ => ask _ fun _ => trivial) fun _ => ?_
  refine keeps_ite (fun _ => ask _ fun _ => trivial) fun _ => ?_
  refine keeps_ite (fun _ => ask _ fun _ => trivial) fun _ => ?_
  refine keeps_ite (fun _ => ⟨.inr rfl, by simpa [run_bind] using .reply _⟩) fun _ => ?_
  exact keeps_ite (fun _ => out (.request _ trivial)) fun _ => out (.reply _)

/-- The text of the message is a document. -/
def Parses (lib : Library) (msg : Bytes) (pt : Ptree) : Prop :=
  ∃ text, decode64 msg = .ok text ∧ lib.readJson text = some pt

theorem parses_unique {msg : Bytes} {pt' : Ptree} (h : Parses lib msg pt)
    (h' : Parses lib msg pt') : pt = pt' := by
  obtain ⟨text, ht, hp⟩ := h
  obtain ⟨text', ht', hp'⟩ := h'
  obtain rfl := Except.ok.inj (ht.symm.trans ht')
  exact Option.some.inj (hp.symm.trans hp')

/-- The log-in of a user when the counter of ids is at the greatest `int`. -/
def Server.Overflows (lib : Library) (s : Server) (k : ℕ) (msg : Bytes) : Prop :=
  s.currId = intMax ∧
    ∃ pt, Parses lib msg pt ∧ pt.get "c" = .ok "authUser" ∧ s.Joins k (pt.getD "p" "")

theorem parses_iff {msg : Bytes} :
    Parses lib msg pt ↔ pt ∈ (decode64 msg).toOption.bind lib.readJson := by
  unfold Parses
  cases decode64 msg <;> simp [Except.toOption]

instance (lib : Library) (s : Server) (k : ℕ) (msg : Bytes) : Decidable (s.Overflows lib k msg) :=
  have (password : String) : Decidable (s.Joins k password) :=
    decidable_of_iff ((∃ x ∈ s.clientMap, x = (-1, k)) ∧
        (password = s.adminPassword ∨ password = s.userPassword) ∧
        (password = s.adminPassword → s.interface = .IntfTlg)) (by simp [Server.joins_iff])
  decidable_of_iff (s.currId = intMax ∧ ∃ pt ∈ (decode64 msg).toOption.bind lib.readJson,
      pt.get "c" = .ok "authUser" ∧ s.Joins k (pt.getD "p" ""))
    (and_congr_right' (exists_congr fun _ => and_congr_left' parses_iff.symm))

theorem not_overflows {msg : Bytes} (hp : Parses lib msg pt) (hc : pt.get "c" = .ok "authUser")
    (h : ¬s.Overflows lib k msg) (hm : s.currId = intMax) : ¬s.Joins k (pt.getD "p" "") :=
  fun hj => h ⟨hm, pt, hp, hc, hj⟩

/-- The command of a session that is logged in is decoded. -/
theorem run_onReceive {msg : Bytes} (hp : Parses lib msg pt) (hc : pt.get "c" = .ok cmd)
    (ha : cmd ≠ "authUser") (hid : 0 ≤ s.id k) :
    (onReceive lib k msg).run s = (commandDecoder k cmd pt).run s := by
  obtain ⟨text, ht, hpt⟩ := hp
  rw [onReceive, ht, run_bind_done (run_attempt_ok text s), Outcome.after_nil, hpt]
  simp only
  rw [hc, run_bind_done (run_attempt_ok cmd s), Outcome.after_nil, if_neg ha,
    run_bind_done (run_self s), Outcome.after_nil, if_neg (not_lt.mpr hid)]

/-- A log-in as a user. -/
theorem run_joins {msg : Bytes} (hp : Parses lib msg pt) (hc : pt.get "c" = .ok "authUser")
    (hj : s.Joins k (pt.getD "p" "")) :
    ∃ os, (onReceive lib k msg).run s = .done () (s.nextId.logIn k s.nextId.currId) os := by
  obtain ⟨text, ht, hpt⟩ := hp
  obtain ⟨s', hl, os, hr, -⟩ := authUser_spec k pt s
  cases hl with
  | refused h => exact absurd hj h
  | admin ha hi => exact absurd (hj.telegram ha) hi
  | user =>
    refine ⟨os, ?_⟩
    rw [onReceive, ht, run_bind_done (run_attempt_ok text s), Outcome.after_nil, hpt]
    simp only
    rw [hc, run_bind_done (run_attempt_ok _ s), Outcome.after_nil, if_pos rfl, hr]

/-- A message is refused, or it is a log-in, or it is a command of a session that is
logged in. -/
theorem onReceive_cases (lib : Library) (k : ℕ) (msg : Bytes) (s : Server) :
    (((onReceive lib k msg).run s).state = s ∧
      ∀ o ∈ ((onReceive lib k msg).run s).calls, o.Reply k "errorMsg") ∨
    (∃ pt, Parses lib msg pt ∧ pt.get "c" = .ok "authUser" ∧
      LogIn s k (pt.getD "p" "") ((onReceive lib k msg).run s).state ∧
      ∀ o ∈ ((onReceive lib k msg).run s).calls, o.Reply k "authUser") ∨
    ∃ pt cmd, Parses lib msg pt ∧ pt.get "c" = .ok cmd ∧ cmd ≠ "authUser" ∧ 0 ≤ s.id k ∧
      (onReceive lib k msg).run s = (commandDecoder k cmd pt).run s := by
  unfold onReceive
  rcases ht : decode64 msg with x | text
  · exact .inl ⟨rfl, by simp [run_bind]⟩
  rw [run_bind_done (run_attempt_ok text s), Outcome.after_nil]
  rcases hpt : lib.readJson text with _ | pt
  · obtain ⟨o, hr, ho⟩ := run_errorMessage k 3 s
    refine .inl ⟨rfl, ?_⟩
    rw [hr]
    simpa using ho
  have hp : Parses lib msg pt := ⟨text, ht, hpt⟩
  simp only
  rcases hc : pt.get "c" with x | cmd
  · exact .inl ⟨rfl, by simp [run_bind]⟩
  rw [run_bind_done (run_attempt_ok cmd s), Outcome.after_nil]
  by_cases ha : cmd = "authUser"
  · subst ha
    obtain ⟨s', hl, os, hr, ho⟩ := authUser_spec k pt s
    refine .inr (.inl ⟨pt, hp, hc, ?_⟩)
    rw [if_pos rfl, hr]
    exact ⟨hl, ho⟩
  rw [if_neg ha, run_bind_done (run_self s), Outcome.after_nil]
  by_cases hid : s.id k < 0
  · rw [if_pos hid]
    exact .inl ⟨rfl, by simp⟩
  · rw [if_neg hid]
    exact .inr (.inr ⟨pt, cmd, hp, hc, ha, not_lt.mp hid, rfl⟩)

/-- What a message of `k` makes of the server: at most a log-in, or the session gets
ready for prices. -/
inductive Received (lib : Library) (s : Server) (k : ℕ) (msg : Bytes) : Server → Prop where
  | same : Received lib s k msg s
  | logIn {s' : Server} {pt : Ptree} (hp : Parses lib msg pt) (hc : pt.get "c" = .ok "authUser")
      (hl : LogIn s k (pt.getD "p" "") s') : Received lib s k msg s'
  | ready : Received lib s k msg (s.setReady k)

theorem state_onReceive (lib : Library) (k : ℕ) (msg : Bytes) (s : Server) :
    Received lib s k msg ((onReceive lib k msg).run s).state := by
  rcases onReceive_cases lib k msg s with ⟨hs, -⟩ | ⟨pt, hp, hc, hl, -⟩ | ⟨pt, cmd, -, -, -, -, hr⟩
  · rw [hs]
    exact .same
  · exact .logIn hp hc hl
  · rw [hr]
    rcases (commandDecoder_keeps k cmd pt s).1 with h | h
    · rw [h]
      exact .same
    · rw [h]
      exact .ready

/-! ### Messages to the clients -/

/-- A message to a session that is logged in. -/
def Out.Told (s : Server) (o : Out) : Prop := ∃ k data, o = .send k data ∧ 0 ≤ s.id k

/-- The method leaves the server alone, and tells sessions that are logged in. -/
abbrev Tells {α : Type} (h : Srv α) (s : Server) : Prop := h.Keeps (fun s t => t = s) (Out.Told s) s

theorem tells_each {items : List (ℤ × ℕ)} {h : ℤ × ℕ → Srv Unit} {s : Server}
    (e : ∀ x t, (h x).Keeps (fun s t => t = s) (Out.Told s) t) : Tells (items.forM h) s :=
  keeps_forM (R := fun s t => t = s) (fun _ => rfl) (fun h h' => h'.trans h) items
    (fun x _ t => e x t) s

theorem tells_send (data : Payload) (client : ℤ) (s : Server) : Tells (send data client) s := by
  have one (k : ℕ) (t : Server) : (if 0 ≤ s.id k then Handler.call (.send k data) else pure () :
      Srv Unit).Keeps (fun s t => t = s) (Out.Told s) t := by
    split
    · next h => exact keeps_call (fun _ => rfl) ⟨k, data, rfl, h⟩
    · exact keeps_pure (fun _ => rfl) _
  refine keeps_self_bind ?_
  split
  · exact tells_each fun x t => one x.2 t
  · split
    · exact one _ s
    · exact keeps_pure (fun _ => rfl) _

theorem tells_attempt_bind {α : Type} {x : Except Exc α} {f : α → Srv Unit} {s : Server}
    (h : ∀ a, Tells (f a) s) : Tells (attempt x >>= f) s :=
  keeps_attempt_bind (R := fun s t => t = s) (fun _ => rfl) fun a _ => h a

theorem tells_onPrice (lib : Library) (data : Bytes) (s : Server) : Tells (onPrice lib data) s := by
  refine tells_attempt_bind fun ipt => tells_attempt_bind fun symbol =>
    tells_attempt_bind fun price => keeps_self_bind (tells_each fun x t => ?_)
  split
  · exact keeps_pure (fun _ => rfl) _
  split
  · exact keeps_pure (fun _ => rfl) _
  · next h _ => exact keeps_call (fun _ => rfl) ⟨_, _, rfl, not_lt.mp h⟩

theorem tells_onBinanceError (lib : Library) (data : Bytes) (s : Server) :
    Tells (onBinanceError lib data) s :=
  tells_attempt_bind fun _ => tells_attempt_bind fun _ => tells_attempt_bind fun _ =>
    tells_send _ _ s

theorem tells_onAccount (lib : Library) (data : Bytes) (s : Server) :
    Tells (onAccount lib data) s :=
  tells_attempt_bind fun _ => tells_attempt_bind fun _ => tells_attempt_bind fun _ =>
    tells_attempt_bind fun _ => keeps_self_bind <| tells_attempt_bind fun _ => tells_send _ _ s

theorem tells_onOrdersList (lib : Library) (data : Bytes) (s : Server) :
    Tells (onOrdersList lib data) s := tells_attempt_bind fun _ => tells_send _ _ s

theorem tells_onTradeSteps (symbol : String) (posList : List String) (s : Server) :
    Tells (onTradeSteps symbol posList) s := tells_send _ _ s

/-! ### Malformed messages -/

/-- A text that the decoder takes, and a tree whose command finds what it reads:
an unauthorised session is stopped before its command is decoded. -/
def Acceptable (lib : Library) (s : Server) (k : ℕ) (msg : Bytes) : Prop :=
  ((∀ c ∈ msg, InAlphabet c) ∧ msg.length % 4 ≠ 1) ∧
    ∀ text pt, decode64 msg = .ok text → lib.readJson text = some pt →
      ∃ cmd, pt.get "c" = .ok cmd ∧ (cmd = "authUser" ∨ s.id k < 0 ∨ Complete s k cmd pt)

theorem error_authUser (k : ℕ) (pt : Ptree) (s : Server) :
    ((authUser k pt).run s).error = none := by
  obtain ⟨s', -, os, hr, -⟩ := authUser_spec k pt s
  rw [hr, Outcome.error_done]

/-- `on_receive` returns on acceptable messages, and an exception escapes on all others. -/
theorem onReceive_returns_iff (lib : Library) (s : Server) (k : ℕ) (msg : Bytes) :
    ((onReceive lib k msg).run s).error = none ↔ Acceptable lib s k msg := by
  rw [onReceive, error_attempt_bind, Acceptable, ← decode64_ok_iff]
  have decoded (pt : Ptree) : ((do
        let cmd ← attempt (pt.get "c")
        if cmd = "authUser" then authUser k pt
        else if (← self).id k < 0 then pure ()
        else commandDecoder k cmd pt : Srv Unit).run s).error = none ↔
      ∃ cmd, pt.get "c" = .ok cmd ∧ (cmd = "authUser" ∨ s.id k < 0 ∨ Complete s k cmd pt) := by
    rw [error_attempt_bind]
    refine exists_congr fun cmd => and_congr_right fun _ => ?_
    split
    · next h => simp [h, error_authUser]
    · next h =>
      rw [run_bind_done (run_self s), Outcome.after_nil]
      split
      · next hid => simp [hid]
      · next hid => simp [h, hid, error_commandDecoder]
  constructor
  · rintro ⟨text, ht, he⟩
    refine ⟨⟨text, ht⟩, fun text' pt ht' hj => ?_⟩
    obtain rfl : text = text' := Except.ok.inj (ht.symm.trans ht')
    rw [hj] at he
    exact (decoded pt).mp he
  · rintro ⟨⟨text, ht⟩, h⟩
    refine ⟨text, ht, ?_⟩
    cases hj : lib.readJson text with
    | none => exact error_errorMessage ..
    | some pt => exact (decoded pt).mpr (h text pt ht hj)

/-- A server that has just started. -/
def freshServer (interface : Interface) : Server where
  adminPassword := "123"
  userPassword := "456"
  interface := interface
  symbolsList := ["BTC"]

/-- A parser that refuses every text. -/
def noLibrary : Library where
  readJson _ := none
  double _ := none

/-- The message is a single percent sign. -/
theorem percent_escapes : ¬∀ (lib : Library) (s : Server) (k : ℕ) (msg : Bytes),
    ((onReceive lib k msg).run s).error = none := by
  intro h
  exact absurd (h noLibrary (freshServer .IntfWeb) 0 [37]) (by decide)

end BotTrader.Web
