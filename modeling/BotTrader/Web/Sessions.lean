import BotTrader.Automata.Machine
import BotTrader.Web.Receive

/-! The web server with its connections. A session is accepted, passes the TLS and
the websocket handshake, and then reads until a read fails; a write can fail at any
time after the handshakes, and each failure closes the stream on its own. A
connection ends when a handshake fails or when `on_close` runs. An exception that
escapes from a handler ends the process. -/

namespace BotTrader.Web

open Automata Handler Boost Cpp

inductive Phase where
  | connected | secured | reading | deaf | failed
  deriving DecidableEq, Repr

structure Link where
  phase : Phase := .connected
  /-- Calls of `async_close` whose `on_close` has not run. -/
  closing : ℕ := 0
  closed : Bool := false

structure World where
  server : Server
  link : ℕ → Link := fun _ => {}
  accepted : ℕ := 0
  alive : Bool := true

inductive Event where
  | accept
  | onHandshake (k : ℕ) (ok : Bool)
  | onAccept (k : ℕ) (ok : Bool)
  | receive (k : ℕ) (msg : Bytes)
  | readError (k : ℕ)
  | writeError (k : ℕ)
  | onClose (k : ℕ)
  | send (data : Payload) (client : ℤ)
  | onPrice (data : Bytes)
  | onBinanceError (data : Bytes)
  | onAccount (data : Bytes)
  | onOrdersList (data : Bytes)
  | onTradeSteps (symbol : String) (posList : List String)

namespace World

variable (lib : Library)

/-- The server has just started. -/
def init (adminPassword userPassword : String) (interface : Interface)
    (symbolsList : List String) : World where
  server :=
    { adminPassword := adminPassword, userPassword := userPassword, interface := interface,
      symbolsList := symbolsList }

def phase (w : World) (k : ℕ) : Phase := (w.link k).phase

def setLink (k : ℕ) (l : Link) (w : World) : World :=
  { w with link := Function.update w.link k l }

/-- Run a method of the server. -/
def call (h : Srv Unit) (w : World) : World × List Out :=
  let r := h.run w.server
  ({ w with server := r.state, alive := r.error.isNone }, r.calls)

/-- The connection is up, or is being set up. -/
def Connected (w : World) (k : ℕ) : Prop :=
  k < w.accepted ∧ w.phase k ≠ .failed ∧ (w.link k).closed = false

instance (w : World) (k : ℕ) : Decidable (w.Connected k) := inferInstanceAs (Decidable (_ ∧ _ ∧ _))

/-- `async_close` -/
def startClose (k : ℕ) (l : Link) (w : World) : World :=
  w.setLink k { l with closing := l.closing + 1 }

def handle (w : World) : Event → World × List Out
  | .accept =>
    ({ w.setLink w.accepted {} with
      server := { w.server with session := Function.update w.server.session w.accepted {} }
      accepted := w.accepted + 1 }).call (onConnect w.accepted)
  | .onHandshake k ok =>
    if k < w.accepted ∧ w.phase k = .connected then
      (w.setLink k { w.link k with phase := if ok then .secured else .failed }, [])
    else (w, [])
  | .onAccept k ok =>
    if w.phase k = .secured then
      (w.setLink k { w.link k with phase := if ok then .reading else .failed }, [])
    else (w, [])
  | .receive k msg => if w.phase k = .reading then w.call (onReceive lib k msg) else (w, [])
  | .readError k =>
    if w.phase k = .reading then (w.startClose k { w.link k with phase := .deaf }, []) else (w, [])
  | .writeError k =>
    if w.phase k = .reading ∨ w.phase k = .deaf then (w.startClose k (w.link k), []) else (w, [])
  | .onClose k =>
    if 0 < (w.link k).closing then
      (w.setLink k { w.link k with closing := (w.link k).closing - 1, closed := true }).call
        (onDisconnect k)
    else (w, [])
  | .send data client => w.call (send data client)
  | .onPrice data => w.call (onPrice lib data)
  | .onBinanceError data => w.call (onBinanceError lib data)
  | .onAccount data => w.call (onAccount lib data)
  | .onOrdersList data => w.call (onOrdersList lib data)
  | .onTradeSteps symbol posList => w.call (onTradeSteps symbol posList)

def step (w : World) (e : Event) : World × List Out :=
  if w.alive then w.handle lib e else (w, [])

end World

/-- The web server under connections, messages, failures and calls of its owner. -/
def webServer (lib : Library) : Machine World Event Out where
  next w e := (w.step lib e).1
  emit w e := (w.step lib e).2

/-! ### The table of clients -/

namespace Server

/-- The entries of a session. -/
def own (s : Server) (k : ℕ) : List (ℤ × ℕ) := List.filter (·.2 = k) s.clientMap

/-- The table has the sessions in `c` exactly once, under their ids, and no others. -/
structure Lists (s : Server) (c : ℕ → Prop) : Prop where
  once : ∀ k, c k → s.own k = [(s.id k, k)]
  others : ∀ k, ¬c k → s.own k = []

variable {s s' : Server} {c c' : ℕ → Prop} {k j : ℕ} {i : ℤ}

theorem mem_own {x : ℤ × ℕ} : x ∈ s.own k ↔ x ∈ s.clientMap ∧ x.2 = k := by
  simp [own]

/-- A table with one entry more. -/
theorem own_perm {x : ℤ × ℕ} (h : s.clientMap.Perm (x :: s'.clientMap)) (j : ℕ) :
    (s.own j).Perm (if x.2 = j then x :: s'.own j else s'.own j) := by
  have hf := h.filter (·.2 = j)
  rw [List.filter_cons] at hf
  simpa [own] using hf

theorem Lists.mem (h : s.Lists c) (hk : c k) : (s.id k, k) ∈ s.clientMap :=
  (mem_own.mp (h.once k hk ▸ List.mem_singleton_self _)).1

theorem Lists.entry (h : s.Lists c) {x : ℤ × ℕ} (hx : x ∈ s.clientMap) : c x.2 ∧ x.1 = s.id x.2 := by
  have hm : x ∈ s.own x.2 := mem_own.mpr ⟨hx, rfl⟩
  by_cases hc : c x.2
  · rw [h.once _ hc, List.mem_singleton] at hm
    exact ⟨hc, congrArg Prod.fst hm⟩
  · rw [h.others _ hc] at hm
    exact absurd hm List.not_mem_nil

/-- A session that is not listed gets an entry under its id. -/
theorem Lists.insert (h : s.Lists c) (hp : s'.clientMap.Perm ((i, k) :: s.clientMap)) (hk : ¬c k)
    (hi : s'.id k = i) (hid : ∀ j ≠ k, s'.id j = s.id j) (hc : ∀ j, c' j ↔ j = k ∨ c j) :
    s'.Lists c' where
  once j hj := by
    have ho := own_perm hp j
    by_cases hjk : k = j
    · subst hjk
      rw [if_pos rfl, h.others _ hk] at ho
      rw [hi, List.perm_singleton.mp ho]
    · rw [if_neg hjk, h.once j (((hc j).mp hj).resolve_left (Ne.symm hjk))] at ho
      rw [hid j (Ne.symm hjk), List.perm_singleton.mp ho]
  others j hj := by
    have ho := own_perm hp j
    rw [hc, not_or] at hj
    rw [if_neg (Ne.symm hj.1), h.others j hj.2] at ho
    exact List.perm_nil.mp ho

/-- The entry of a session is taken out. -/
theorem Lists.remove {x : ℤ × ℕ} (h : s.Lists c) (hp : s.clientMap.Perm (x :: s'.clientMap))
    (hx : x.2 = k) (hid : ∀ j ≠ k, s'.id j = s.id j) (hc : ∀ j, c' j ↔ j ≠ k ∧ c j) :
    s'.Lists c' where
  once j hj := by
    have ho := own_perm hp j
    obtain ⟨hjk, hj⟩ := (hc j).mp hj
    rw [hx, if_neg (Ne.symm hjk), h.once j hj] at ho
    rw [hid j hjk, List.perm_singleton.mp ho.symm]
  others j hj := by
    have ho := own_perm hp j
    by_cases hjk : k = j
    · rw [hx, if_pos hjk] at ho
      have hl := ho.length_eq
      have hone : (s.own j).length ≤ 1 := by
        by_cases hcj : c j
        · rw [h.once j hcj, List.length_singleton]
        · rw [h.others j hcj]
          exact Nat.zero_le 1
      refine List.eq_nil_of_length_eq_zero ?_
      rw [List.length_cons] at hl
      omega
    · have hcj : ¬c j := fun hcj => hj ((hc j).mpr ⟨Ne.symm hjk, hcj⟩)
      rw [hx, if_neg hjk, h.others j hcj] at ho
      exact List.perm_nil.mp ho.symm

theorem Lists.congr (h : s.Lists c) (hm : s'.clientMap = s.clientMap) (hid : s'.id = s.id)
    (hc : ∀ j, c' j ↔ c j) : s'.Lists c' where
  once j hj := by
    rw [own, hm, hid]
    exact h.once j ((hc j).mp hj)
  others j hj := by
    rw [own, hm]
    exact h.others j fun hcj => hj ((hc j).mpr hcj)

theorem id_setId_of_ne (h : j ≠ k) : (s.setId k i).id j = s.id j := by
  simp [id, setId, Function.update_of_ne h]

@[simp] theorem id_setId_self : (s.setId k i).id k = i := by
  simp [id, setId]

@[simp] theorem id_setReady : (s.setReady k).id = s.id := by
  funext j
  by_cases h : j = k
  · subst h
    simp [id, setReady]
  · simp [id, setReady, Function.update_of_ne h]

theorem id_changeKey : (s.changeKey k i).id = s.id := by
  unfold changeKey
  split
  · simp only
    split <;> rfl
  · rfl

theorem id_logIn_self : (s.logIn k i).id k = i := by
  rw [logIn, id_changeKey, id_setId_self]

theorem id_logIn_of_ne (h : j ≠ k) : (s.logIn k i).id j = s.id j := by
  rw [logIn, id_changeKey, id_setId_of_ne h]

/-- A log-in replaces an entry of the session by one under its new id. -/
theorem clientMap_logIn (hk : (-1, k) ∈ s.clientMap) (hi : 0 ≤ i) :
    (s.logIn k i).clientMap = (s.clientMap.eraseValue k).emplace i k := by
  have hany : s.clientMap.any (·.2 = k) = true := List.any_eq_true.mpr ⟨_, hk, by simp⟩
  have hm : (s.setId k i).clientMap = s.clientMap := rfl
  simp only [logIn, changeKey, hm, hany, if_true, hi, emplace]

theorem Lists.logIn (h : s.Lists c) (hk : (-1, k) ∈ s.clientMap) (hi : 0 ≤ i) :
    (s.logIn k i).Lists c := by
  obtain ⟨x, hx, hp⟩ := Multimap.exists_cons_eraseValue_perm hk rfl
  have hout : Lists { s with clientMap := s.clientMap.eraseValue k } fun j => j ≠ k ∧ c j :=
    h.remove hp hx (fun _ _ => rfl) fun _ => Iff.rfl
  refine hout.insert (k := k) (i := i) ?_ (fun hn => hn.1 rfl) id_logIn_self
    (fun j hj => id_logIn_of_ne hj) fun j => ?_
  · rw [clientMap_logIn hk hi]
    exact Multimap.emplace_perm _ _ _
  · by_cases hj : j = k
    · subst hj
      simp [(h.entry hk).1]
    · simp [hj]

end Server

open Server

section LogIn

variable {s s' : Server} {k : ℕ} {password : String} {c : ℕ → Prop}

/-- The counter of ids has not overflowed. -/
def Server.Counts (s : Server) : Prop := 0 ≤ s.currId ∧ s.currId ≤ intMax

theorem currId_logIn (s : Server) (k : ℕ) (i : ℤ) : (s.logIn k i).currId = s.currId := by
  simp only [Server.logIn, Server.changeKey]
  split
  · split <;> rfl
  · rfl

theorem Server.Counts.currId_nextId (h : s.Counts) (hm : s.currId ≠ intMax) :
    s.nextId.currId = s.currId + 1 :=
  int32_succ h.1 (lt_of_le_of_ne h.2 hm)

theorem Server.Counts.nextId_pos (h : s.Counts) (hm : s.currId ≠ intMax) : 0 < s.nextId.currId := by
  rw [h.currId_nextId hm]
  exact Int.lt_add_one_of_le h.1

theorem Server.Counts.nextId (h : s.Counts) (hm : s.currId ≠ intMax) : s.nextId.Counts := by
  refine ⟨(h.nextId_pos hm).le, ?_⟩
  rw [h.currId_nextId hm]
  exact lt_of_le_of_ne h.2 hm

/-- Below the greatest `int`, a log-in counts on. -/
theorem LogIn.counts (h : LogIn s k password s') (hc : s.Counts)
    (hm : s.currId = intMax → ¬s.Joins k password) : s'.Counts := by
  cases h with
  | refused => exact hc
  | admin =>
    rw [Server.Counts, currId_logIn]
    exact hc
  | user h =>
    rw [Server.Counts, currId_logIn]
    exact hc.nextId fun he => hm he h

theorem LogIn.lists (h : LogIn s k password s') (hl : s.Lists c) (hc : s.Counts)
    (hm : s.currId = intMax → ¬s.Joins k password) : s'.Lists c := by
  cases h with
  | refused => exact hl
  | admin hp hi h0 hk => exact hl.logIn hk (le_refl 0)
  | user h =>
    have hn : s.nextId.Lists c := hl.congr rfl rfl fun _ => Iff.rfl
    exact hn.logIn h.fresh (hc.nextId_pos fun he => hm he h).le

end LogIn

namespace World

variable {lib : Library} {w : World} {e : Event} {k j : ℕ} {l : Link}

@[simp] theorem connected_call (h : Srv Unit) (w : World) (j : ℕ) :
    (w.call h).1.Connected j ↔ w.Connected j := Iff.rfl

theorem connected_setLink : (w.setLink k l).Connected j ↔
    if j = k then j < w.accepted ∧ l.phase ≠ .failed ∧ l.closed = false else w.Connected j := by
  by_cases h : j = k
  · subst h
    simp [Connected, setLink, phase]
  · simp [Connected, setLink, phase, h]

/-- A change of a link that neither fails nor ends it. -/
theorem connected_setLink_of (hp : l.phase = .failed ↔ w.phase k = .failed)
    (hc : l.closed = (w.link k).closed) (j : ℕ) : (w.setLink k l).Connected j ↔ w.Connected j := by
  rw [connected_setLink]
  split
  · next h =>
    subst h
    simp only [Connected, ne_eq, hp, hc]
  · exact Iff.rfl

/-- The table has every connected session once, under its id, and no other session. -/
def Exact (w : World) : Prop := w.server.Lists w.Connected

/-- No log-in makes the counter of ids overflow. -/
def InRange (lib : Library) (w : World) : Event → Prop
  | .receive k msg => w.phase k = .reading → ¬w.server.Overflows lib k msg
  | _ => True

instance (lib : Library) (w : World) : ∀ e, Decidable (w.InRange lib e)
  | .receive k msg =>
    inferInstanceAs (Decidable (w.phase k = .reading → ¬w.server.Overflows lib k msg))
  | .accept | .onHandshake _ _ | .onAccept _ _ | .readError _ | .writeError _ | .onClose _
  | .send _ _ | .onPrice _ | .onBinanceError _ | .onAccount _ | .onOrdersList _
  | .onTradeSteps _ _ => .isTrue trivial

/-- A handshake that succeeds; an `on_close` whose search does not find the entry of
another session; a log-in whose id is in range. -/
def Own (lib : Library) (w : World) : Event → Prop
  | .onHandshake k ok => w.phase k = .connected → ok = true
  | .onAccept k ok => w.phase k = .secured → ok = true
  | .onClose k => ∀ x ∈ w.server.clientMap.findKey (w.server.id k), x.2 = k
  | e => w.InRange lib e

instance (lib : Library) (w : World) : ∀ e, Decidable (w.Own lib e)
  | .onHandshake k ok => inferInstanceAs (Decidable (w.phase k = .connected → ok = true))
  | .onAccept k ok => inferInstanceAs (Decidable (w.phase k = .secured → ok = true))
  | .onClose k =>
    inferInstanceAs (Decidable (∀ x ∈ w.server.clientMap.findKey (w.server.id k), x.2 = k))
  | .receive k msg => inferInstanceAs (Decidable (w.InRange lib (.receive k msg)))
  | .accept | .readError _ | .writeError _ | .send _ _ | .onPrice _ | .onBinanceError _
  | .onAccount _ | .onOrdersList _ | .onTradeSteps _ _ => .isTrue trivial

/-- What an event can make of the world. -/
inductive Move (lib : Library) (w : World) : Event → World → Prop where
  | stay (e : Event) : Move lib w e w
  | tells {m : Srv Unit} (e : Event) (hm : Tells m w.server) : Move lib w e (w.call m).1
  | link {e : Event} {k : ℕ} {l : Link} (hp : w.phase k ≠ .failed)
      (hl : w.Own lib e → l.phase ≠ .failed) (hc : l.closed = (w.link k).closed) :
      Move lib w e (w.setLink k l)
  | accept : Move lib w .accept (w.handle lib .accept).1
  | receive {k : ℕ} (msg : Bytes) (hp : w.phase k = .reading) :
      Move lib w (.receive k msg) (w.call (onReceive lib k msg)).1
  | close {k : ℕ} (hc : 0 < (w.link k).closing) :
      Move lib w (.onClose k) (w.handle lib (.onClose k)).1

theorem move_handle (lib : Library) (w : World) (e : Event) : w.Move lib e (w.handle lib e).1 := by
  cases e with
  | accept => exact .accept
  | onHandshake k ok =>
    simp only [World.handle]
    split
    · next hp =>
      refine .link (by simp [hp.2]) (fun ho => ?_) rfl
      obtain rfl : ok = true := ho hp.2
      exact Phase.noConfusion
    · exact .stay _
  | onAccept k ok =>
    simp only [World.handle]
    split
    · next hp =>
      refine .link (by simp [hp]) (fun ho => ?_) rfl
      obtain rfl : ok = true := ho hp
      exact Phase.noConfusion
    · exact .stay _
  | receive k msg =>
    simp only [World.handle]
    split
    · next hp => exact .receive msg hp
    · exact .stay _
  | readError k =>
    simp only [World.handle]
    split
    · next hp => exact .link (by simp [hp]) (fun _ => Phase.noConfusion) rfl
    · exact .stay _
  | writeError k =>
    simp only [World.handle]
    split
    · next hp =>
      have hf : w.phase k ≠ .failed := by rcases hp with hp | hp <;> simp [hp]
      exact .link hf (fun _ => hf) rfl
    · exact .stay _
  | onClose k =>
    by_cases hc : 0 < (w.link k).closing
    · exact .close hc
    · simpa only [World.handle, if_neg hc] using .stay _
  | send data client => exact .tells _ (tells_send _ _ _)
  | onPrice data => exact .tells _ (tells_onPrice _ _ _)
  | onBinanceError data => exact .tells _ (tells_onBinanceError _ _ _)
  | onAccount data => exact .tells _ (tells_onAccount _ _ _)
  | onOrdersList data => exact .tells _ (tells_onOrdersList _ _ _)
  | onTradeSteps symbol posList => exact .tells _ (tells_onTradeSteps _ _ _)

/-- What every move keeps, a step keeps. -/
theorem step_of_move {I : World → Prop} (h : I w) (hm : ∀ w', w.Move lib e w' → I w') :
    I (w.step lib e).1 := by
  unfold World.step
  split
  · exact hm _ (move_handle lib w e)
  · exact h

theorem server_tells {m : Srv Unit} (hm : Tells m w.server) : (w.call m).1.server = w.server := hm.1

/-- The ids are counted in range, as the server starts with 1. -/
theorem counts_init (adminPassword userPassword : String) (interface : Interface)
    (symbolsList : List String) :
    (init adminPassword userPassword interface symbolsList).server.Counts := by
  show (0 : ℤ) ≤ 1 ∧ (1 : ℤ) ≤ intMax
  decide

structure Listed (w : World) : Prop where
  exact : w.Exact
  counts : w.server.Counts

theorem Listed.accept (h : w.Listed) : (w.handle lib .accept).1.Listed where
  exact := by
    refine Lists.insert (k := w.accepted) (i := -1) h.exact (Multimap.emplace_perm _ _ _) ?_ ?_ ?_ ?_
    · exact fun hn => Nat.lt_irrefl _ hn.1
    · simp [handle, call, onConnect, Server.id, Server.emplace]
    · intro j hj
      simp [handle, call, onConnect, Server.id, Server.emplace, Function.update_of_ne hj]
    · intro j
      by_cases hj : j = w.accepted
      · subst hj
        simp [handle, Connected, setLink, phase, call]
      · have hlt : j < w.accepted + 1 ↔ j < w.accepted := by omega
        simp [handle, Connected, setLink, phase, call, hj, hlt]
  counts := h.counts

theorem Listed.receive (h : w.Listed) {msg : Bytes} (ho : ¬w.server.Overflows lib k msg) :
    (w.call (onReceive lib k msg)).1.Listed := by
  have hr : Received lib w.server k msg (w.call (onReceive lib k msg)).1.server :=
    state_onReceive lib k msg w.server
  suffices hs : ∀ s', Received lib w.server k msg s' → s'.Lists w.Connected ∧ s'.Counts from
    ⟨(hs _ hr).1, (hs _ hr).2⟩
  intro s' hr
  cases hr with
  | same => exact ⟨h.exact, h.counts⟩
  | logIn hp hc hl =>
    have hm := not_overflows hp hc ho
    exact ⟨hl.lists h.exact h.counts hm, hl.counts h.counts hm⟩
  | ready => exact ⟨h.exact.congr rfl id_setReady fun _ => Iff.rfl, h.counts⟩

theorem Listed.close (h : w.Listed) (hc : 0 < (w.link k).closing) (ho : w.Own lib (.onClose k)) :
    (w.handle lib (.onClose k)).1.Listed := by
  simp only [handle, if_pos hc]
  have hconn (j : ℕ) : (w.setLink k { w.link k with
      closing := (w.link k).closing - 1, closed := true }).Connected j ↔ j ≠ k ∧ w.Connected j := by
    rw [connected_setLink]
    by_cases hj : j = k <;> simp [hj]
  refine ⟨?_, h.counts⟩
  rcases hf : w.server.clientMap.findKey (w.server.id k) with _ | x
  · have hk : ¬w.Connected k := fun hk => Multimap.findKey_eq_none.mp hf _ (h.exact.mem hk) rfl
    refine h.exact.congr (Multimap.eraseKey_of_none hf) rfl fun j => (hconn j).trans ?_
    exact ⟨And.right, fun hj => ⟨fun he => hk (he ▸ hj), hj⟩⟩
  · exact h.exact.remove (Multimap.cons_eraseKey_perm hf) (ho x hf) (fun _ _ => rfl) hconn

theorem listed_step (h : w.Listed) (ho : w.Own lib e) : (w.step lib e).1.Listed := by
  refine step_of_move h fun w' hm => ?_
  cases hm with
  | stay => exact h
  | tells e hm =>
    refine ⟨?_, by rw [server_tells hm]; exact h.counts⟩
    rw [Exact, server_tells hm]
    exact h.exact
  | link hp hl hc =>
    exact ⟨h.exact.congr rfl rfl (connected_setLink_of (by simp [hp, hl ho]) hc), h.counts⟩
  | accept => exact h.accept
  | receive msg hp => exact h.receive (ho hp)
  | close hc => exact h.close hc ho

/-- In a run in which handshakes succeed, `on_close` finds no other session's entry and the
ids do not overflow, the table is exact in every state. -/
theorem exact_of_own (lib : Library) (adminPassword userPassword : String) (interface : Interface)
    (symbolsList : List String) (es : List Event)
    (h : (webServer lib).Along (Own lib) (init adminPassword userPassword interface symbolsList) es) :
    ((webServer lib).run (init adminPassword userPassword interface symbolsList) es).Exact := by
  have h0 : (init adminPassword userPassword interface symbolsList).Listed :=
    ⟨⟨fun k hk => absurd hk.1 (Nat.not_lt_zero k), fun _ _ => rfl⟩,
      counts_init _ _ _ _⟩
  exact (Machine.run_invariant Listed (fun _ _ hw ho => listed_step hw ho) h0 h).exact

end World

/-! ### A failed handshake -/

/-- A parser that knows three messages: the log-ins with the two passwords, and a command. -/
def loginLibrary : Library where
  readJson text :=
    if text = ascii "\x7b\"c\":\"authUser\",\"p\":\"123\"\x7d" then
      some (.node [("c", .leaf "authUser"), ("p", .leaf "123")])
    else if text = ascii "\x7b\"c\":\"authUser\",\"p\":\"456\"\x7d" then
      some (.node [("c", .leaf "authUser"), ("p", .leaf "456")])
    else if text = ascii "\x7b\"c\":\"getFilters\"\x7d" then
      some (.node [("c", .leaf "getFilters")])
    else none
  double _ := none

/-- The same messages, encoded. -/
def login : Bytes := ascii "eyJjIjoiYXV0aFVzZXIiLCJwIjoiMTIzIn0="

def userLogin : Bytes := ascii "eyJjIjoiYXV0aFVzZXIiLCJwIjoiNDU2In0="

def askFilters : Bytes := ascii "eyJjIjoiZ2V0RmlsdGVycyJ9"

/-- A session connects. -/
def enter (k : ℕ) : List Event := [.accept, .onHandshake k true, .onAccept k true]

/-- A session connects, and logs in. -/
def connect (k : ℕ) : List Event :=
  enter k ++ [.receive k login]

/-- The server of the runs below. -/
def started : World := .init "123" "456" .IntfWeb ["BTC"]

/-- The session goes again. -/
def disconnect (k : ℕ) : List Event := [.readError k, .onClose k]

/-- Of two sessions that have logged in, the administrator goes. -/
def twoClients : List Event :=
  connect 0 ++ (enter 1 ++ [.receive 1 userLogin]) ++ disconnect 0

theorem own_twoClients : (webServer loginLibrary).Along (World.Own loginLibrary) started
    twoClients := by decide +kernel

theorem exact_after_close : ((webServer loginLibrary).run started twoClients).Exact :=
  World.exact_of_own loginLibrary "123" "456" .IntfWeb ["BTC"] twoClients own_twoClients

/-- The entry of a session whose handshake fails stays in the table. -/
theorem failed_handshake_stays : ¬∀ (lib : Library) (adminPassword userPassword : String)
    (interface : Interface) (symbolsList : List String) (es : List Event),
    ((webServer lib).run (.init adminPassword userPassword interface symbolsList) es).Exact := by
  intro h
  have hex := (h noLibrary "123" "456" .IntfWeb ["BTC"] [.accept, .onHandshake 0 false]).others 0
  exact absurd (hex (by decide)) (by decide)

end BotTrader.Web
