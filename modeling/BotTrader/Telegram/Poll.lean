import Mathlib.Algebra.Group.Nat.Defs
import BotTrader.Automata.Machine
import BotTrader.Cpp.Int
import BotTrader.Https.Owner
import BotTrader.Telegram.Parse

/-! The poll client of Telegram: each answer to `getUpdates` is parsed and dispatched,
and the next request is made from its handler; every connection posts one request more.
Each handler is one step. The rest of the program, which is called with events and
commands, is a parameter: it keeps a state of its own and may set the input mode. Its
handlers return, as those that run Python catch the exceptions of it. Any other exception
that escapes from a handler ends the process. -/

namespace BotTrader.Telegram

open Automata Handler Boost Cpp Https

/-- The payload of `getUpdates`. -/
structure GetUpdates where
  timeout : ℤ
  offset : ℤ
  deriving DecidableEq

inductive InputMode where
  | command | order | line | script | statistic
  deriving DecidableEq, Repr

/-- What `Telegram` has besides the poll client, and the rest of the program. -/
structure Fields (κ : Type) where
  lastUpdateId : ℤ
  chatId : ℤ := 0
  updateList : List Update := []
  inputMode : InputMode := .command
  rest : κ
  /-- Calls of `request_updates` that wait on the init timer, which has expired. -/
  posted : ℕ := 0
  alive : Bool := true

inductive Out where
  /-- The loop over `m_update_list` gets to the update; the code makes no such call. -/
  | update (u : Update)
  | updateId (id : ℤ)
  | orderData (text : String)
  | scriptData (text : String)
  | statData (text : String)
  /-- `command_handler` -/
  | command (msg : Message)

/-- What the rest of the program does when it is called. -/
abbrev React (κ : Type) := Out → κ → κ × Option InputMode

variable {κ : Type}

namespace Fields

def setInputMode (mode : InputMode) (b : Fields κ) : Fields κ := { b with inputMode := mode }

def clear (b : Fields κ) : Fields κ := { b with updateList := [] }

/-- A parsed update goes to the list. -/
def enlist (id : ℤ) (message : Message × ℤ) (b : Fields κ) : Fields κ :=
  { b with
    updateList := b.updateList ++ [⟨id, message.1⟩]
    chatId := message.2
    lastUpdateId := id }

def called (react : React κ) (o : Out) (b : Fields κ) : Fields κ :=
  let (rest, mode) := react o b.rest
  { b with rest := rest, inputMode := mode.getD b.inputMode }

end Fields

abbrev State (κ : Type) := Owner GetUpdates (Fields κ)

abbrev Tlg (κ : Type) := Method GetUpdates (Fields κ) Out

def getUpdates (lastUpdateId : ℤ) : GetUpdates := ⟨30, int32 (lastUpdateId + 1)⟩

theorem offset_getUpdates {n : ℤ} (h : -2 ^ 31 ≤ n) (h' : n < 2 ^ 31 - 1) :
    (getUpdates n).offset = n + 1 := int32_eq (by omega) (by omega)

def requestUpdates (now : UInt64) (time : UInt32) : Tlg κ Unit := do
  let pt := getUpdates (← self).own.lastUpdateId
  update (Owner.perform .resetRequests)
  update (Owner.push pt now time)

def onConnectUpdateClient (connect : Bool) : Tlg κ Unit := do
  if connect then
    update (Owner.modify fun b => { b with posted := b.posted + 1 })

section Handlers

variable (react : React κ)

/-- A call of `m_event_handler` or `command_handler`. -/
def notify (o : Out) : Tlg κ Unit := do
  call o
  update (Owner.modify (Fields.called react o))

/-- A child of an item of the result. -/
def parseItem (it : Ptree) (v : String × Ptree) : Tlg κ Unit := do
  if v.1 = "update_id" then
    let id ← attempt v.2.getInt
    let message ← attempt (parseUpdate it (← self).own.chatId)
    update (Owner.modify (Fields.enlist id message))
    notify react (.updateId id)

def parseResult (rpt : Ptree) : Tlg κ Unit :=
  rpt.children.forM fun it => it.2.children.forM (parseItem react it.2)

def parseBody (tree : Ptree) : Tlg κ Unit :=
  tree.children.forM fun rv => if rv.1 = "result" then parseResult react rv.2 else pure ()

def commands (u : Update) : Tlg κ Unit :=
  u.message.entities.forM fun entity =>
    if entity.type = .bot_command then notify react (.command u.message) else pure ()

/-- The switch over `m_input_mode`, with the loop behind it where that is reached. -/
def dispatchIn (u : Update) : InputMode → Tlg κ Unit
  | .command => commands react u
  | .order => notify react (.orderData u.message.text)
  | .script => do
    notify react (.scriptData u.message.text)
    update (Owner.modify (Fields.setInputMode .command))
    commands react u
  | .statistic => do
    notify react (.statData u.message.text)
    commands react u
  | .line => pure ()

/-- A round of the loop over `m_update_list`. -/
def dispatch (u : Update) : Tlg κ Unit := do
  call (.update u)
  dispatchIn react u (← self).own.inputMode

def updateHandler (now : UInt64) (time : UInt32) (_ : GetUpdates) (resp : Response) :
    Tlg κ Unit :=
  match resp.body with
  | none => pure ()
  | some tree => do
    parseBody react tree
    (← self).own.updateList.forM (dispatch react)
    update (Owner.modify Fields.clear)
    requestUpdates now time

/-! ### Runs -/

/-- Completions are given by the position of the operation. -/
inductive Event where
  | onWrite (i : ℕ) (ok : Bool)
  | onReadError (i : ℕ)
  | onRead (i : ℕ) (resp : Response) (now : UInt64) (time : UInt32)
  | onReconnect
  | connectFailed
  | onHandshake (time : UInt32)
  /-- A call of `request_updates` that was posted. -/
  | onInitTimer (now : UInt64) (time : UInt32)
  | setInputMode (mode : InputMode)

def handle : Event → Tlg κ Unit
  | .onWrite i ok => update (Owner.perform (.onWrite i ok))
  | .onReadError i => update (Owner.perform (.onRead i false))
  | .onRead i resp now time => onRead (updateHandler react now time) i resp time
  | .onReconnect => update (Owner.perform .onReconnect)
  | .connectFailed => connectFailed onConnectUpdateClient
  | .onHandshake time => onHandshake onConnectUpdateClient time
  | .onInitTimer now time => do
    if 0 < (← self).own.posted then
      update (Owner.modify fun b => { b with posted := b.posted - 1 })
      requestUpdates now time
  | .setInputMode mode => update (Owner.modify (Fields.setInputMode mode))

/-- The state when a handler is left, by an exception or not. -/
def left : Outcome (State κ) Out Exc Unit → State κ
  | .done _ s _ => s
  | .raised _ s _ => s.modify fun b => { b with alive := false }

/-- The poll client under completions, connections and posted calls in any order. -/
def telegram : Machine (State κ) Event Out where
  next s e := if s.own.alive then left ((handle react e).run s) else s
  emit s e := if s.own.alive then ((handle react e).run s).calls else []

end Handlers

/-- `connect` of the poll client was called, after `set_settings`. -/
def init (lastUpdateId : ℤ) (rest : κ) : State κ where
  http := Client.init
  request _ := getUpdates lastUpdateId
  answer _ := {}
  own := { lastUpdateId := lastUpdateId, rest := rest }

/-! ### What an answer is parsed to -/

/-- The ids in an item of the result; a well-formed item has one. -/
def itemIds (it : Ptree) : List ℤ :=
  it.children.flatMap fun v => (if v.1 = "update_id" then v.2.getInt.toOption else none).toList

/-- The ids of the updates in an answer, in order. -/
def updateIds (tree : Ptree) : List ℤ :=
  tree.children.flatMap fun rv =>
    if rv.1 = "result" then rv.2.children.flatMap fun it => itemIds it.2 else []

/-- What is parsed is an `int`. -/
theorem range_of_mem_updateIds {tree : Ptree} {id : ℤ} (h : id ∈ updateIds tree) :
    -2 ^ 31 ≤ id ∧ id < 2 ^ 31 := by
  simp only [updateIds, List.mem_flatMap] at h
  obtain ⟨rv, -, h⟩ := h
  split at h
  · obtain ⟨it, -, h⟩ := List.mem_flatMap.mp h
    simp only [itemIds, List.mem_flatMap, Option.mem_toList] at h
    obtain ⟨v, -, h⟩ := h
    split at h
    · cases hv : v.2.getInt with
      | error x => simp [hv, Except.toOption] at h
      | ok n =>
        obtain rfl : n = id := by simpa [hv, Except.toOption] using h
        exact Ptree.range_of_getInt hv
    · simp at h
  · exact absurd h List.not_mem_nil

/-- What a handler leaves alone that makes no request. -/
structure Frame (s t : State κ) : Prop where
  http : t.http = s.http
  request : t.request = s.request
  alive : t.own.alive = s.own.alive
  posted : t.own.posted = s.own.posted

/-- Updates with these ids were parsed. -/
structure Parsed (s t : State κ) (ids : List ℤ) : Prop where
  frame : Frame s t
  list : t.own.updateList.map Update.updateId = s.own.updateList.map Update.updateId ++ ids
  last : t.own.lastUpdateId = ids.getLastD s.own.lastUpdateId

/-- Nothing was parsed; the mode and the rest may differ. -/
structure Dispatched (s t : State κ) : Prop where
  frame : Frame s t
  list : t.own.updateList = s.own.updateList
  last : t.own.lastUpdateId = s.own.lastUpdateId

section Relations

variable {s t u : State κ} {ids ids' : List ℤ}

theorem Frame.refl (s : State κ) : Frame s s := ⟨rfl, rfl, rfl, rfl⟩

theorem Frame.trans (h : Frame s t) (h' : Frame t u) : Frame s u where
  http := h'.http.trans h.http
  request := h'.request.trans h.request
  alive := h'.alive.trans h.alive
  posted := h'.posted.trans h.posted

theorem Parsed.refl (s : State κ) : Parsed s s [] := ⟨.refl s, by simp, rfl⟩

theorem Parsed.trans (h : Parsed s t ids) (h' : Parsed t u ids') : Parsed s u (ids ++ ids') where
  frame := h.frame.trans h'.frame
  list := by rw [h'.list, h.list, List.append_assoc]
  last := by
    rw [h'.last, h.last]
    simp only [List.getLastD_eq_getLast?, List.getLast?_append]
    cases ids'.getLast? <;> simp

theorem Dispatched.refl (s : State κ) : Dispatched s s := ⟨.refl s, rfl, rfl⟩

theorem Dispatched.trans (h : Dispatched s t) (h' : Dispatched t u) : Dispatched s u where
  frame := h.frame.trans h'.frame
  list := h'.list.trans h.list
  last := h'.last.trans h.last

theorem Dispatched.parsed (h : Dispatched s t) : Parsed s t [] where
  frame := h.frame
  list := by rw [h.list, List.append_nil]
  last := h.last

theorem dispatched_called (react : React κ) (o : Out) (s : State κ) :
    Dispatched s (s.modify (Fields.called react o)) := ⟨⟨rfl, rfl, rfl, rfl⟩, rfl, rfl⟩

theorem dispatched_setInputMode (mode : InputMode) (s : State κ) :
    Dispatched s (s.modify (Fields.setInputMode mode)) := ⟨⟨rfl, rfl, rfl, rfl⟩, rfl, rfl⟩

end Relations

/-- The updates that the calls dispatch. -/
def dispatchedId : Out → Option ℤ
  | .update u => some u.updateId
  | _ => none

section Parsing

variable (react : React κ) {s : State κ} {it tree : Ptree} {v : String × Ptree}

theorem returns_notify {o : Out} (ho : dispatchedId o = none) :
    (notify react o).Returns dispatchedId s () (s.modify (Fields.called react o)) [] :=
  ⟨[o], rfl, by simp [ho]⟩

theorem returns_parseItem
    (h : v.1 = "update_id" → IsInt v.2 ∧ ∃ b, parseUpdate it s.own.chatId = .ok b) :
    ∃ t, (parseItem react it v).Returns dispatchedId s () t [] ∧
      Parsed s t (if v.1 = "update_id" then v.2.getInt.toOption else none).toList := by
  unfold parseItem
  by_cases hv : v.1 = "update_id"
  · obtain ⟨⟨id, hid⟩, message, hm⟩ := h hv
    have hp : Parsed s (s.modify (Fields.enlist id message)) [id] :=
      ⟨⟨rfl, rfl, rfl, rfl⟩, by simp [Owner.modify, Fields.enlist], rfl⟩
    rw [if_pos hv, if_pos hv, hid]
    refine ⟨_, ⟨[.updateId id], ?_, rfl⟩, hp.trans (dispatched_called react (.updateId id) _).parsed⟩
    rw [run_bind_done (run_attempt_ok id s), run_bind_done (run_self s), hm,
      run_bind_done (run_attempt_ok message s), run_bind_done (run_update _ s)]
    rfl
  · simp only [hv, if_false]
    exact ⟨s, ⟨[], rfl, rfl⟩, .refl s⟩

theorem error_parseItem : ((parseItem react it v).run s).error = none ↔
    (v.1 = "update_id" → IsInt v.2 ∧ ∃ b, parseUpdate it s.own.chatId = .ok b) := by
  unfold parseItem
  by_cases hv : v.1 = "update_id"
  · rw [if_pos hv, error_attempt_bind]
    simp only [hv, true_imp_iff, IsInt, exists_and_right.symm]
    refine exists_congr fun id => and_congr_right fun _ => ?_
    rw [run_bind_done (run_self s), Outcome.error_after, error_attempt_bind]
    simp [run_bind, notify]
  · simp [hv]

theorem error_parseBody (s : State κ) :
    ((parseBody react tree).run s).error = none ↔ Convertible tree := by
  refine error_forM_iff (fun rv s => ?_) tree.children s
  by_cases hr : rv.1 = "result"
  · simp only [hr, if_true, true_imp_iff]
    refine error_forM_iff (fun it s => error_forM_iff (fun v s => ?_) it.2.children s) _ s
    rw [error_parseItem, exists_parseUpdate]
  · simp [hr]

/-- A loop whose rounds parse, and dispatch nothing. -/
theorem returns_parseLoop {γ : Type} {k : γ → Tlg κ Unit} {P : γ → Prop} {e : γ → List ℤ}
    (hk : ∀ x s, P x → ∃ t, (k x).Returns dispatchedId s () t [] ∧ Parsed s t (e x))
    (items : List γ) (hP : ∀ x ∈ items, P x) (s : State κ) :
    ∃ t, (items.forM k).Returns dispatchedId s () t [] ∧ Parsed s t (items.flatMap e) := by
  have h := returns_forM (R := Parsed) Parsed.refl Parsed.trans hk items hP s
  rwa [show items.flatMap (fun _ => ([] : List ℤ)) = [] from by simp] at h

theorem returns_parseBody (h : Convertible tree) (s : State κ) :
    ∃ t, (parseBody react tree).Returns dispatchedId s () t [] ∧
      Parsed s t (updateIds tree) := by
  refine returns_parseLoop (fun rv s hrv => ?_) tree.children h s
  by_cases hr : rv.1 = "result"
  · simp only [hr, if_true]
    refine returns_parseLoop (fun it s hit => ?_) rv.2.children (hrv hr) s
    exact returns_parseLoop (fun v s hv => returns_parseItem react fun hu =>
      (hv hu).imp_right (exists_parseUpdate it.2 _).mpr) it.2.children hit s
  · simp only [hr, if_false]
    exact ⟨s, ⟨[], rfl, rfl⟩, .refl s⟩

end Parsing

/-! ### What is dispatched of it -/

section Dispatching

variable (react : React κ) {s t : State κ}

/-- A loop whose rounds dispatch. -/
theorem returns_dispatchLoop {γ : Type} {k : γ → Tlg κ Unit} {g : γ → List ℤ}
    (hk : ∀ x s, ∃ t, (k x).Returns dispatchedId s () t (g x) ∧ Dispatched s t)
    (items : List γ) (s : State κ) :
    ∃ t, (items.forM k).Returns dispatchedId s () t (items.flatMap g) ∧ Dispatched s t := by
  obtain ⟨t, ht, hd⟩ := returns_forM (R := fun s t (_ : List Unit) => Dispatched s t)
    (P := fun _ => True) (e := fun _ => []) Dispatched.refl Dispatched.trans
    (fun x s _ => hk x s) items (fun _ _ => trivial) s
  exact ⟨t, ht, hd⟩

theorem returns_commands (u : Update) (s : State κ) :
    ∃ t, (commands react u).Returns dispatchedId s () t [] ∧ Dispatched s t := by
  have round (entity : MessageEntity) (s : State κ) : ∃ t,
      (if entity.type = .bot_command then notify react (.command u.message)
        else pure () : Tlg κ Unit).Returns dispatchedId s () t [] ∧ Dispatched s t := by
    split
    · exact ⟨_, returns_notify react rfl, dispatched_called react _ s⟩
    · exact ⟨s, ⟨[], rfl, rfl⟩, .refl s⟩
  have h := returns_dispatchLoop (g := fun _ => []) round u.message.entities s
  rwa [show u.message.entities.flatMap (fun _ => ([] : List ℤ)) = [] from by simp] at h

theorem returns_dispatchIn (u : Update) (mode : InputMode) (s : State κ) :
    ∃ t, (dispatchIn react u mode).Returns dispatchedId s () t [] ∧ Dispatched s t := by
  have told (o : Out) := dispatched_called react o s
  cases mode with
  | command => exact returns_commands react u s
  | order => exact ⟨_, returns_notify react rfl, told _⟩
  | script =>
    obtain ⟨t, ht, hd⟩ := returns_commands react u
      ((s.modify (Fields.called react (.scriptData u.message.text))).modify
        (Fields.setInputMode .command))
    exact ⟨t, (returns_notify react rfl).bind ((returns_update _).bind ht),
      (told _).trans ((dispatched_setInputMode _ _).trans hd)⟩
  | statistic =>
    obtain ⟨t, ht, hd⟩ := returns_commands react u
      (s.modify (Fields.called react (.statData u.message.text)))
    exact ⟨t, (returns_notify react rfl).bind ht, (told _).trans hd⟩
  | line => exact ⟨s, ⟨[], rfl, rfl⟩, .refl s⟩

theorem returns_dispatch (u : Update) (s : State κ) :
    ∃ t, (dispatch react u).Returns dispatchedId s () t [u.updateId] ∧ Dispatched s t := by
  obtain ⟨t, ⟨calls, hr, hc⟩, hd⟩ := returns_dispatchIn react u s.own.inputMode s
  refine ⟨t, ⟨[.update u] ++ calls, ?_, ?_⟩, hd⟩
  · rw [dispatch, run_bind_done (run_call _ s), run_bind_done (run_self s), hr,
      Outcome.after_nil, Outcome.after_done]
  · rw [List.filterMap_append, hc]
    rfl

/-- The state after `requestUpdates`. -/
def requested (now : UInt64) (time : UInt32) (s : State κ) : State κ :=
  (s.perform .resetRequests).push (getUpdates s.own.lastUpdateId) now time

theorem run_requestUpdates (now : UInt64) (time : UInt32) (s : State κ) :
    (requestUpdates now time).run s = .done () (requested now time s) [] := rfl

/-- An answer that is convertible is dispatched, and the next request is made. -/
theorem returns_updateHandler (req : GetUpdates) {resp : Response} {tree : Ptree}
    (hb : resp.body = some tree) (hc : Convertible tree) (hl : s.own.updateList = [])
    (now : UInt64) (time : UInt32) :
    ∃ t, (updateHandler react now time req resp).Returns dispatchedId s ()
        (requested now time t) (updateIds tree) ∧
      Frame s t ∧ t.own.updateList = [] ∧
      t.own.lastUpdateId = (updateIds tree).getLastD s.own.lastUpdateId := by
  obtain ⟨t, ht, hp⟩ := returns_parseBody react hc s
  obtain ⟨u, hu, hd⟩ := returns_dispatchLoop (returns_dispatch react) t.own.updateList t
  have hids : t.own.updateList.flatMap (fun u => [u.updateId]) = updateIds tree := by
    rw [← List.map_eq_flatMap, hp.list, hl]
    rfl
  rw [hids] at hu
  refine ⟨u.modify Fields.clear, ?_, hp.frame.trans (hd.frame.trans ⟨rfl, rfl, rfl, rfl⟩), rfl, ?_⟩
  · obtain ⟨calls, hr, hcalls⟩ := ht
    obtain ⟨calls', hr', hcalls'⟩ := hu
    refine ⟨calls ++ calls', ?_, ?_⟩
    · simp only [updateHandler, hb]
      rw [run_bind_done hr, run_bind_done (run_self t), run_bind_done hr',
        run_bind_done (run_update _ u), run_requestUpdates]
      simp
    · rw [List.filterMap_append, hcalls, hcalls', List.nil_append]
  · exact hd.last.trans hp.last

theorem run_updateHandler_none (req : GetUpdates) {resp : Response} (hb : resp.body = none)
    (now : UInt64) (time : UInt32) :
    (updateHandler react now time req resp).run s = .done () s [] := by
  simp only [updateHandler, hb]
  rfl

/-- An answer that is not convertible ends the handler by an exception. -/
theorem raised_updateHandler (req : GetUpdates) {resp : Response} {tree : Ptree}
    (hb : resp.body = some tree) (hc : ¬Convertible tree) (now : UInt64) (time : UInt32)
    (s : State κ) :
    ∃ x t o, (updateHandler react now time req resp).run s = .raised x t o := by
  have he := mt (error_parseBody react s).mp hc
  rcases hr : (parseBody react tree).run s with ⟨_, t, o⟩ | ⟨x, t, o⟩
  · exact absurd (by rw [hr, Outcome.error_done]) he
  · refine ⟨x, t, o, ?_⟩
    simp only [updateHandler, hb]
    rw [run_bind_raised hr]

end Dispatching

end BotTrader.Telegram
