import Mathlib.Data.Int.Order.Basic
import BotTrader.Automata.Cursor
import BotTrader.Telegram.Polling

/-! Whether every update is dispatched once and in order. The server keeps the updates in
ascending order and answers a request with some of those from its offset on. The offset is
computed in an `int`: behind the update with the greatest one it wraps around, and the
server sends everything again. -/

namespace BotTrader.Telegram

open Automata Handler Boost Https

variable {κ : Type}

/-- The poll client and the updates of the server. -/
structure World (κ : Type) where
  tlg : State κ
  server : List ℤ

inductive WorldEvent where
  /-- The server gets an update. -/
  | post (id : ℤ)
  | tlg (e : Event)

def world (react : React κ) : Machine (World κ) WorldEvent Out where
  next w
    | .post id => { w with server := w.server ++ [id] }
    | .tlg e => { w with tlg := (telegram react).next w.tlg e }
  emit w
    | .post _ => []
    | .tlg e => (telegram react).emit w.tlg e

def start (lastUpdateId : ℤ) (rest : κ) : World κ := ⟨init lastUpdateId rest, []⟩

/-- An answer with the first `n` updates from the offset on. -/
def Answers (server : List ℤ) (offset : ℤ) (resp : Response) : Prop :=
  ∃ tree n, resp.body = some tree ∧ Convertible tree ∧
    updateIds tree = (server.filter (offset ≤ ·)).take n

/-- The updates come in ascending order, and each request is answered from its offset on. -/
def Serves (w : World κ) : WorldEvent → Prop
  | .post id => ∀ x ∈ w.server, x < id
  | .tlg (.onRead i resp _ _) => ∀ sent uid, w.tlg.http.ops[i]? = some (.read sent uid) →
      Answers w.server (w.tlg.request sent).offset resp
  | _ => True

/-- No update that is parsed has the greatest `int` for its id. -/
def Within (w : World κ) : WorldEvent → Prop
  | .tlg (.onRead i resp _ _) => ∀ sent uid, w.tlg.http.ops[i]? = some (.read sent uid) →
      ∀ tree, received w.tlg uid resp = some tree → 2 ^ 31 - 1 ∉ updateIds tree
  | _ => True

/-- Every request in the queue has the offset behind the last update. -/
def Current (s : State κ) : Prop :=
  ∀ r ∈ s.http.reqRespList, (s.request r.uid).offset = s.own.lastUpdateId + 1

/-- The updates with these ids were dispatched: each once, in ascending order, and none was
skipped. With those behind the last update, which are still to come, they are all that are
behind the first offset. -/
structure InOrder (lastUpdateId : ℤ) (w : World κ) (ids : List ℤ) : Prop where
  ascending : ids.Pairwise (· < ·)
  complete : ids ++ w.server.filter (w.tlg.own.lastUpdateId < ·) =
    w.server.filter (lastUpdateId < ·)
  current : Current w.tlg

/-- The updates in an answer that gets to `update_handler`. -/
def arrivals (w : World κ) : WorldEvent → List ℤ
  | .tlg (.onRead i resp _ _) =>
    match w.tlg.http.ops[i]? with
    | some (.read _ uid) => ((received w.tlg uid resp).map updateIds).getD []
    | _ => []
  | _ => []

/-! ### Steps -/

/-- The number behind the id is an `int`. -/
def HasNext (id : ℤ) : Prop := -2 ^ 31 ≤ id ∧ id < 2 ^ 31 - 1

/-- The reader stands at the last update, as long as the process runs. -/
structure Follows (lastUpdateId : ℤ) (w : World κ) (ids : List ℤ) : Prop where
  steady : Steady w.tlg
  alive : w.tlg.own.alive = true
  hasNext : HasNext w.tlg.own.lastUpdateId
  cursor : Cursor w.server lastUpdateId w.tlg.own.lastUpdateId ids

variable {lastUpdateId : ℤ} {w : World κ} {ids : List ℤ}

theorem Follows.offset (h : Follows lastUpdateId w ids) {uid : ℕ}
    (hu : w.tlg.http.Outstanding uid) :
    (w.tlg.request uid).offset = w.tlg.own.lastUpdateId + 1 := by
  rw [h.steady.offers.request uid hu]
  exact offset_getUpdates h.hasNext.1 h.hasNext.2

theorem Follows.inOrder (h : Follows lastUpdateId w ids) : InOrder lastUpdateId w ids where
  ascending := h.cursor.pairwise
  complete := h.cursor.split
  current _ hr := h.offset (.inl (List.mem_map_of_mem hr))

/-- What a response brings is the next batch. -/
theorem Follows.batch (h : Follows lastUpdateId w ids) {i sent uid : ℕ} {resp : Response}
    (ho : w.tlg.http.ops[i]? = some (.read sent uid))
    (hs : Answers w.server (w.tlg.request sent).offset resp) {tree : Ptree}
    (hb : received w.tlg uid resp = some tree) :
    Convertible tree ∧ ∃ n, updateIds tree =
      (w.server.filter (w.tlg.own.lastUpdateId < ·)).take n := by
  obtain ⟨tree', n, hbody, hc, hids⟩ := hs
  have hsent : w.tlg.http.Outstanding sent := .inr (List.mem_map_of_mem (List.mem_of_getElem? ho))
  obtain rfl : tree' = tree := by
    have hb' := body_of_received hb
    rw [hbody] at hb'
    exact Option.some.inj hb'
  refine ⟨hc, n, ?_⟩
  rw [hids, h.offset hsent]
  congr 1

/-- A step of the client that parses nothing. -/
theorem Follows.quiet {react : React κ} (h : Follows lastUpdateId w ids) {e : Event}
    (hs : Steady ((telegram react).next w.tlg e))
    (ha : ((telegram react).next w.tlg e).own.alive = true)
    (hl : ((telegram react).next w.tlg e).own.lastUpdateId = w.tlg.own.lastUpdateId)
    (he : (telegram react).emit w.tlg e = []) :
    Follows lastUpdateId ((world react).next w (.tlg e))
      (ids ++ ((world react).emit w (.tlg e)).filterMap dispatchedId) where
  steady := hs
  alive := ha
  hasNext := by
    show HasNext ((telegram react).next w.tlg e).own.lastUpdateId
    rw [hl]
    exact h.hasNext
  cursor := by
    show Cursor w.server lastUpdateId ((telegram react).next w.tlg e).own.lastUpdateId
      (ids ++ ((telegram react).emit w.tlg e).filterMap dispatchedId)
    rw [hl, he, List.filterMap_nil, List.append_nil]
    exact h.cursor

theorem follows_other (react : React κ) (h : Follows lastUpdateId w ids) {e : Event}
    (he : ∀ i resp now time, e ≠ .onRead i resp now time) :
    Follows lastUpdateId ((world react).next w (.tlg e))
      (ids ++ ((world react).emit w (.tlg e)).filterMap dispatchedId) := by
  obtain ⟨hs, ha, hl, hemit⟩ := next_of_ne_onRead react h.steady h.alive he
  exact h.quiet hs ha hl hemit

theorem follows_onRead (react : React κ) (h : Follows lastUpdateId w ids) {i : ℕ}
    {resp : Response} {now : UInt64} {time : UInt32} (hs : Serves w (.tlg (.onRead i resp now time)))
    (hw : Within w (.tlg (.onRead i resp now time))) :
    Follows lastUpdateId ((world react).next w (.tlg (.onRead i resp now time)))
      (ids ++ ((world react).emit w (.tlg (.onRead i resp now time))).filterMap dispatchedId) := by
  by_cases ho : ∃ sent uid, w.tlg.http.ops[i]? = some (.read sent uid)
  · obtain ⟨sent, uid, ho⟩ := ho
    cases hb : received w.tlg uid resp with
    | none =>
      obtain ⟨hn, he⟩ := onRead_ignored react now time h.steady ho h.alive hb
      have hown : ((w.tlg.read i resp).perform (.onReadLocked 0 time)).own = w.tlg.own :=
        Owner.own_read
      refine h.quiet ?_ ?_ ?_ he
      · rw [hn]
        exact steady_ignored h.steady ho time
      · rw [hn, hown]
        exact h.alive
      · rw [hn, hown]
    | some tree =>
      obtain ⟨hc, n, hids⟩ := h.batch ho (hs sent uid ho) hb
      obtain ⟨t, hn, he, hf, hl, hlast⟩ := onRead_answered react now time h.steady ho
        h.alive hb hc
      obtain ⟨hsteady, -, halive⟩ := steady_answered h.steady ho hf hl now time
      refine ⟨?_, ?_, ?_, ?_⟩
      · show Steady ((telegram react).next w.tlg _)
        rw [hn]
        exact hsteady
      · show ((telegram react).next w.tlg _).own.alive = true
        rw [hn]
        exact halive.trans h.alive
      · show HasNext ((telegram react).next w.tlg _).own.lastUpdateId
        rw [hn]
        show HasNext t.own.lastUpdateId
        rw [hlast]
        refine forall_getLastD h.hasNext fun id hm => ?_
        have hr := range_of_mem_updateIds hm
        have hne : id ≠ 2 ^ 31 - 1 := fun heq => hw sent uid ho tree hb (heq ▸ hm)
        exact ⟨hr.1, by omega⟩
      · show Cursor w.server lastUpdateId ((telegram react).next w.tlg _).own.lastUpdateId
          (ids ++ ((telegram react).emit w.tlg _).filterMap dispatchedId)
        rw [hn, he]
        show Cursor w.server lastUpdateId t.own.lastUpdateId _
        rw [hlast, hids]
        exact h.cursor.read n
  · obtain ⟨hn, he⟩ := onRead_none react h.alive
      (fun sent uid ho' => ho ⟨sent, uid, ho'⟩) resp now time
    exact h.quiet (by rw [hn]; exact h.steady) (by rw [hn]; exact h.alive) (by rw [hn]) he

theorem follows_step (react : React κ) {e : WorldEvent} (h : Follows lastUpdateId w ids)
    (hs : Serves w e) (hw : Within w e) : Follows lastUpdateId ((world react).next w e)
      (ids ++ ((world react).emit w e).filterMap dispatchedId) := by
  cases e with
  | post id =>
    have hc := h.cursor.append hs
    exact ⟨h.steady, h.alive, h.hasNext, by simpa [world] using hc⟩
  | tlg e =>
    cases e with
    | onRead i resp now time => exact follows_onRead react h hs hw
    | _ => exact follows_other react h (by simp)

/-- What arrives is dispatched, and nothing else. -/
theorem Follows.dispatches (react : React κ) (h : Follows lastUpdateId w ids) {e : WorldEvent}
    (hs : Serves w e) : ((world react).emit w e).filterMap dispatchedId = arrivals w e := by
  cases e with
  | post id => rfl
  | tlg e =>
    cases e with
    | onRead i resp now time =>
      by_cases ho : ∃ sent uid, w.tlg.http.ops[i]? = some (.read sent uid)
      · obtain ⟨sent, uid, ho⟩ := ho
        simp only [arrivals, ho]
        cases hb : received w.tlg uid resp with
        | none =>
          exact congrArg (List.filterMap dispatchedId)
            (onRead_ignored react now time h.steady ho h.alive hb).2
        | some tree =>
          obtain ⟨hc, -⟩ := h.batch ho (hs sent uid ho) hb
          obtain ⟨t, -, he, -⟩ := onRead_answered react now time h.steady ho h.alive hb hc
          exact he
      · have hnone : arrivals w (.tlg (.onRead i resp now time)) = [] := by
          simp only [arrivals]
          split
          · next sent uid hop => exact absurd ⟨sent, uid, hop⟩ ho
          · rfl
        rw [hnone]
        exact congrArg (List.filterMap dispatchedId) (onRead_none react h.alive
          (fun sent uid ho' => ho ⟨sent, uid, ho'⟩) resp now time).2
    | _ =>
      exact congrArg (List.filterMap dispatchedId)
        (next_of_ne_onRead react h.steady h.alive (by simp)).2.2.2

/-- Behind the greatest `int` the offset wraps around. -/
theorem not_current_of_greatest {s : State κ} (h : Steady s) (hw : Writing s)
    (hl : s.own.lastUpdateId = 2 ^ 31 - 1) : ¬Current s := by
  intro hc
  obtain ⟨uid, hf, -⟩ := hw
  cases hq : s.http.reqRespList with
  | nil => simp [Client.front, hq] at hf
  | cons r rs =>
    have hr := hc r (by simp [hq])
    rw [h.offers.request r.uid (.inl (by simp [Client.uids, hq])), hl] at hr
    exact absurd hr (by decide)

/-- The condition is exact: behind the greatest `int` the next request has another offset. -/
theorem within_of_current {react : React κ} (h : Follows lastUpdateId w ids) {e : WorldEvent}
    (hs : Serves w e) (hc : Current ((world react).next w e).tlg) : Within w e := by
  cases e with
  | post id => trivial
  | tlg e =>
    cases e with
    | onRead i resp now time =>
      intro sent uid ho tree hb hm
      obtain ⟨hconv, n, hids⟩ := h.batch ho (hs sent uid ho) hb
      obtain ⟨t, hn, -, hf, hl, hlast⟩ := onRead_answered react now time h.steady ho
        h.alive hb hconv
      obtain ⟨hsteady, hw, -⟩ := steady_answered h.steady ho hf hl now time
      rw [← hn] at hsteady hw
      refine not_current_of_greatest hsteady hw ?_ hc
      rw [hn]
      show t.own.lastUpdateId = 2 ^ 31 - 1
      -- the update with the greatest id is the last one
      have hsorted : (updateIds tree).Pairwise (· < ·) := by
        rw [hids]
        exact (h.cursor.sorted.filter _).sublist (List.take_sublist n _)
      have hle := le_getLastD hsorted hm w.tlg.own.lastUpdateId
      have hlt : (updateIds tree).getLastD w.tlg.own.lastUpdateId < 2 ^ 31 :=
        forall_getLastD (p := fun id => id < 2 ^ 31) (h.hasNext.2.trans (by decide))
          fun id hid => (range_of_mem_updateIds hid).2
      rw [hlast]
      omega
    | _ => trivial

/-! ### Runs -/

/-- As long as no update with the greatest `int` is parsed, in every run against the server
the updates are dispatched once and in order, each in the handler of the answer that brings
it, and each request in the queue asks for those behind the last one. -/
theorem inOrder_of_within (react : React κ) (lastUpdateId : ℤ) (rest : κ)
    (hl : -2 ^ 31 ≤ lastUpdateId ∧ lastUpdateId < 2 ^ 31 - 1) (es : List WorldEvent)
    (h : (world react).Along (fun w e => Serves w e ∧ Within w e) (start lastUpdateId rest) es) :
    InOrder lastUpdateId ((world react).run (start lastUpdateId rest) es)
      (((world react).emitted (start lastUpdateId rest) es).filterMap dispatchedId) ∧
    ∀ e, Serves ((world react).run (start lastUpdateId rest) es) e →
      ((world react).emit ((world react).run (start lastUpdateId rest) es) e).filterMap
        dispatchedId = arrivals ((world react).run (start lastUpdateId rest) es) e := by
  have h₀ : Follows lastUpdateId (start lastUpdateId rest) (([] : List Out).filterMap dispatchedId) :=
    ⟨steady_init lastUpdateId rest, rfl, hl, .nil lastUpdateId⟩
  have hrun := Machine.run_history (M := world react)
    (fun w os => Follows lastUpdateId w (os.filterMap dispatchedId))
    (fun w os e hf he => by
      rw [List.filterMap_append]
      exact follows_step react hf he.1 he.2) h₀ h
  rw [List.nil_append] at hrun
  exact ⟨hrun.inOrder, fun e he => hrun.dispatches react he⟩

/-! ### Answers with one update -/

section Answer

variable {id offset : ℤ} {text : String} (h : Ptree.getInt (.leaf text) = .ok id)

include h

theorem updateIds_answer {tree : Ptree} (hb : (answer text).body = some tree) :
    updateIds tree = [id] := by
  obtain rfl := Option.some.inj hb
  simp [updateIds, itemIds, Ptree.children, h, Except.toOption]

theorem answers_answer {server : List ℤ} (hs : (server.filter (offset ≤ ·)).take 1 = [id]) :
    Answers server offset (answer text) := by
  refine ⟨_, 1, rfl, ?_, ?_⟩
  · simp [Convertible, UpdateConvertible, Ptree.children, IsInt, h]
  · rw [updateIds_answer h rfl, hs]

variable {n u : ℕ} {now : UInt64} {time : UInt32}

theorem serves_answer (ho : w.tlg.http.ops = [.read n u])
    (hs : (w.server.filter ((w.tlg.request n).offset ≤ ·)).take 1 = [id]) :
    Serves w (.tlg (.onRead 0 (answer text) now time)) := by
  intro sent uid' he
  obtain rfl : n = sent := by
    rw [ho] at he
    simp at he
    exact he.1
  exact answers_answer h hs

theorem within_answer (hid : id ≠ 2 ^ 31 - 1) :
    Within w (.tlg (.onRead 0 (answer text) now time)) := by
  intro sent uid' _ tree hb hm
  rw [updateIds_answer h (body_of_received hb)] at hm
  exact hid (List.mem_singleton.mp hm).symm

end Answer

/-- The first request is lost and sent again, and two updates come one after the other. -/
def lostRequest : List WorldEvent :=
  [.post 5, .tlg (.onHandshake 1), .tlg (.onInitTimer 1000 1), .tlg (.onWrite 0 true),
    .tlg (.onReadError 0), .tlg .onReconnect, .tlg (.onHandshake 2), .tlg (.onWrite 0 true),
    .tlg (.onRead 0 (answer "5") 2000 2), .post 7, .tlg (.onWrite 0 true),
    .tlg (.onRead 0 (answer "7") 3000 3)]

theorem serves_lostRequest : (world idle).Along (fun w e => Serves w e ∧ Within w e)
    (start 0 ()) lostRequest := by
  have h5 : Ptree.getInt (.leaf "5") = .ok 5 := by decide +kernel
  have h7 : Ptree.getInt (.leaf "7") = .ok 7 := by decide +kernel
  refine ⟨⟨by simp [Serves, start], trivial⟩, ⟨trivial, trivial⟩, ⟨trivial, trivial⟩,
    ⟨trivial, trivial⟩, ⟨trivial, trivial⟩, ⟨trivial, trivial⟩, ⟨trivial, trivial⟩,
    ⟨trivial, trivial⟩, ⟨serves_answer (n := 0) (u := 0) h5 (by decide +kernel) (by decide +kernel),
      within_answer h5 (by decide)⟩, ⟨(by decide : ∀ x ∈ ([5] : List ℤ), x < 7), trivial⟩,
    ⟨trivial, trivial⟩,
    ⟨serves_answer (n := 1) (u := 1) h7 (by decide +kernel) (by decide +kernel),
      within_answer h7 (by decide)⟩, trivial⟩

theorem inOrder_lostRequest :
    InOrder 0 ((world idle).run (start 0 ()) lostRequest)
      (((world idle).emitted (start 0 ()) lostRequest).filterMap dispatchedId) :=
  (inOrder_of_within idle 0 () (by decide) lostRequest serves_lostRequest).1

/-- The server has the update with the greatest id, and the next request is answered with
it again. -/
def twice : List WorldEvent :=
  [.post 2147483647, .tlg (.onHandshake 1), .tlg (.onInitTimer 1000 1), .tlg (.onWrite 0 true),
    .tlg (.onRead 0 (answer "2147483647") 2000 2), .tlg (.onWrite 0 true),
    .tlg (.onRead 0 (answer "2147483647") 3000 3)]

/-- The update with the greatest id is sent again, and dispatched again. -/
theorem sent_again : ¬∀ (lastUpdateId : ℤ) (es : List WorldEvent),
    -2 ^ 31 ≤ lastUpdateId ∧ lastUpdateId < 2 ^ 31 →
    (world idle).Along Serves (start lastUpdateId ()) es →
    InOrder lastUpdateId ((world idle).run (start lastUpdateId ()) es)
      (((world idle).emitted (start lastUpdateId ()) es).filterMap dispatchedId) ∧
    ∀ e, Serves ((world idle).run (start lastUpdateId ()) es) e →
      ((world idle).emit ((world idle).run (start lastUpdateId ()) es) e).filterMap
        dispatchedId = arrivals ((world idle).run (start lastUpdateId ()) es) e := by
  intro h
  have hid : Ptree.getInt (.leaf "2147483647") = .ok 2147483647 := by decide +kernel
  obtain ⟨hs, -⟩ := h 0 twice (by decide)
    ⟨by simp [Serves, start], trivial, trivial, trivial,
      serves_answer (n := 0) (u := 0) hid (by decide +kernel) (by decide +kernel), trivial,
      serves_answer (n := 1) (u := 1) hid (by decide +kernel) (by decide +kernel), trivial⟩
  have hids : ((world idle).emitted (start 0 ()) twice).filterMap dispatchedId =
      [2147483647, 2147483647] := by decide +kernel
  have ha := hs.ascending
  rw [hids] at ha
  simp at ha

end BotTrader.Telegram
