import BotTrader.Automata.WriteAhead
import BotTrader.Telegram.Updates

/-! Whether an update is handled twice when the program ends at any time and is started again. Each
answer is parsed to a list of updates, and the id of each is posted to the program before the
first is dispatched; handled in its turn, it goes to the database, where the next start takes
the offset from. What is posted and not handled is lost. What `command_handler` answers by itself
is sent from the handler of the answer, before the id is saved; it is not counted here. -/

namespace BotTrader.Telegram

open Automata Handler Boost Https

variable {κ : Type}

/-- The poll client with its server, the events that it has posted, and the table `settings`. -/
structure Program (κ : Type) where
  world : World κ
  /-- The event list. The mark of an update stands before what is posted for it, and a command
  for what its handler posts. -/
  eventList : List Out := []
  lastUpdateId : ℤ

inductive ProgramEvent (κ : Type) where
  | world (e : WorldEvent)
  /-- The database is written or not. -/
  | dispatcher (ok : Bool)
  /-- The process ends, and is started again; the database is read or not. -/
  | restart (ok : Bool) (rest : κ)

namespace Program

variable (react : React κ)

/-- `read_settings`, and the rest of the start -/
def boot (ok : Bool) (rest : κ) (p : Program κ) : Program κ where
  world := { p.world with tlg := init (if ok then p.lastUpdateId else 0) rest }
  lastUpdateId := p.lastUpdateId

/-- `on_event_tlg_update_id`; the other handlers do not write the table. -/
def handled (ok : Bool) (o : Out) (p : Program κ) : Program κ :=
  match o with
  | .updateId id => if ok then { p with lastUpdateId := id } else p
  | _ => p

def next (p : Program κ) : ProgramEvent κ → Program κ
  | .world e =>
    { p with
      world := (Telegram.world react).next p.world e
      eventList := p.eventList ++ (Telegram.world react).emit p.world e }
  | .dispatcher ok =>
    if p.world.tlg.own.alive then
      match p.eventList with
      | [] => p
      | o :: os => { p with eventList := os }.handled ok o
    else p
  | .restart ok rest => p.boot ok rest

end Program

/-- What the handlers of the posted events are called with, over all starts; the direct replies to
commands are no events. -/
def program (react : React κ) : Machine (Program κ) (ProgramEvent κ) Out where
  next p e := p.next react e
  emit p
    | .dispatcher _ => if p.world.tlg.own.alive then p.eventList.head?.toList else []
    | _ => []

/-- The first start. -/
def firstStart (lastUpdateId : ℤ) (rest : κ) : Program κ where
  world := start lastUpdateId rest
  lastUpdateId := lastUpdateId

/-- The updates are served, and the database works. -/
def Lasting (p : Program κ) : ProgramEvent κ → Prop
  | .world e => Serves p.world e ∧ Within p.world e
  | .dispatcher ok | .restart ok _ => ok = true

/-! ### An answer is noted before it is dispatched -/

/-- The ids that are posted. -/
def notedId : Out → Option ℤ
  | .updateId id => some id
  | _ => none

section Answered

variable (react : React κ) {s : State κ} {tree : Ptree}

theorem noted_parseItem {it : Ptree} {v : String × Ptree} (s : State κ)
    (h : v.1 = "update_id" → IsInt v.2 ∧ ∃ b, parseUpdate it s.own.chatId = .ok b) :
    ∃ t, (parseItem react it v).Returns notedId s () t
      (if v.1 = "update_id" then v.2.getInt.toOption else none).toList := by
  unfold parseItem
  by_cases hv : v.1 = "update_id"
  · obtain ⟨⟨id, hid⟩, message, hm⟩ := h hv
    rw [if_pos hv, if_pos hv, hid]
    refine ⟨(s.modify (Fields.enlist id message)).modify (Fields.called react (.updateId id)),
      [.updateId id], ?_, rfl⟩
    rw [run_bind_done (run_attempt_ok id s), run_bind_done (run_self s), hm,
      run_bind_done (run_attempt_ok message s), run_bind_done (run_update _ s)]
    rfl
  · simp only [hv, if_false]
    exact ⟨s, [], rfl, rfl⟩

/-- A loop whose rounds post. -/
theorem noted_loop {γ : Type} {k : γ → Tlg κ Unit} {P : γ → Prop} {g : γ → List ℤ}
    (hk : ∀ x s, P x → ∃ t, (k x).Returns notedId s () t (g x)) (items : List γ)
    (hP : ∀ x ∈ items, P x) (s : State κ) :
    ∃ t, (items.forM k).Returns notedId s () t (items.flatMap g) := by
  obtain ⟨t, ht, -⟩ := returns_forM (R := fun _ _ (_ : List Unit) => True) (e := fun _ => [])
    (fun _ => trivial) (fun _ _ => trivial) (fun x s hx => (hk x s hx).imp fun _ h => ⟨h, trivial⟩)
    items hP s
  exact ⟨t, ht⟩

theorem noted_parseBody (h : Convertible tree) (s : State κ) :
    ∃ t, (parseBody react tree).Returns notedId s () t (updateIds tree) := by
  refine noted_loop (fun rv s hrv => ?_) tree.children h s
  by_cases hr : rv.1 = "result"
  · simp only [hr, if_true]
    refine noted_loop (fun it s hit => ?_) rv.2.children (hrv hr) s
    exact noted_loop (fun v s hv => noted_parseItem react s fun hu =>
      (hv hu).imp_right (exists_parseUpdate it.2 _).mpr) it.2.children hit s
  · simp only [hr, if_false]
    exact ⟨s, [], rfl, rfl⟩

/-- The loop over the updates posts no id. -/
theorem guards_dispatch (u : Update) :
    (dispatch react u).Guards (fun _ => True) (fun o => notedId o = none) := by
  have told {o : Out} (ho : notedId o = none) :
      (notify react o).Guards (fun _ => True) (fun o => notedId o = none) :=
    (guards_call (P := fun o => notedId o = none) ho).bind fun _ => guards_update fun _ _ => trivial
  have hcommands : (commands react u).Guards (fun _ => True) (fun o => notedId o = none) :=
    guards_forM (fun entity => guards_ite (fun _ => told rfl) fun _ => guards_pure ()) _
  refine (guards_call (P := fun o => notedId o = none) rfl).bind fun _ => guards_self_bind fun s _ => ?_
  cases s.own.inputMode with
  | command => exact hcommands
  | order => exact told rfl
  | script => exact (told rfl).bind fun _ => (guards_update fun _ _ => trivial).bind fun _ => hcommands
  | statistic => exact (told rfl).bind fun _ => hcommands
  | line => exact guards_pure ()

/-- The calls of the handler of an answer. -/
theorem calls_updateHandler (req : GetUpdates) {resp : Response} (hb : resp.body = some tree)
    (hc : Convertible tree) (now : UInt64) (time : UInt32) (s : State κ) :
    ∃ noting acting t,
      (updateHandler react now time req resp).run s = .done () t (noting ++ acting) ∧
        noting.filterMap dispatchedId = [] ∧ noting.filterMap notedId = updateIds tree ∧
        acting.filterMap notedId = [] := by
  obtain ⟨t, ⟨noting, hr, hd⟩, hp⟩ := returns_parseBody react hc s
  obtain ⟨t', noting', hr', hn⟩ := noted_parseBody react hc s
  obtain ⟨-, -, rfl⟩ := Outcome.done.inj (hr.symm.trans hr')
  obtain ⟨u, ⟨acting, ha, -⟩, -⟩ := returns_dispatchLoop (returns_dispatch react) t.own.updateList t
  refine ⟨noting, acting, requested now time (u.modify Fields.clear), ?_, hd, hn, ?_⟩
  · simp only [updateHandler, hb]
    rw [run_bind_done hr, run_bind_done (run_self t), run_bind_done ha,
      run_bind_done (run_update _ u), run_requestUpdates]
    simp
  · have hg := (guards_forM (guards_dispatch react) t.own.updateList t trivial).2
    rw [ha] at hg
    exact List.filterMap_eq_nil_iff.mpr hg

end Answered

variable {react : React κ} {lastUpdateId : ℤ} {w : World κ} {ids : List ℤ}

/-- What a step posts: first the ids of the updates that it dispatches, which ascend from the
last one. -/
structure Posts (w : World κ) (w' : World κ) (os : List Out) : Prop where
  last : w'.tlg.own.lastUpdateId =
    (os.filterMap dispatchedId).getLastD w.tlg.own.lastUpdateId
  ascending : (w.tlg.own.lastUpdateId :: os.filterMap dispatchedId).Pairwise (· < ·)
  ahead : WriteAhead notedId dispatchedId w.tlg.own.lastUpdateId w'.tlg.own.lastUpdateId os

theorem posts_nil {w' : World κ} (h : w'.tlg.own.lastUpdateId = w.tlg.own.lastUpdateId) :
    Posts w w' [] := ⟨h, by simp, h⟩

theorem posts_answered (h : Follows lastUpdateId w ids) {i sent uid : ℕ} {resp : Response}
    {now : UInt64} {time : UInt32} (hs : Serves w (.tlg (.onRead i resp now time)))
    (ho : w.tlg.http.ops[i]? = some (.read sent uid)) {tree : Ptree}
    (hb : received w.tlg uid resp = some tree) :
    Posts w ((world react).next w (.tlg (.onRead i resp now time)))
      ((world react).emit w (.tlg (.onRead i resp now time))) := by
  obtain ⟨hc, n, hids⟩ := h.batch ho (hs sent uid ho) hb
  obtain ⟨req, got, hh, hbody⟩ := exists_handed_received h.steady ho resp
  obtain ⟨noting, acting, t, hr, hquiet, hnoted, hact⟩ :=
    calls_updateHandler react req (hbody.trans hb) hc now time (w.tlg.read i resp)
  obtain ⟨-, hemit⟩ := next_of_done (e := .onRead i resp now time) h.alive
    (run_onRead_done hh hr time)
  obtain ⟨u, hn, hd, -, -, hlast⟩ := onRead_answered react now time h.steady ho h.alive hb hc
  have hlt : (w.tlg.own.lastUpdateId :: updateIds tree).Pairwise (· < ·) := by
    rw [hids]
    refine List.pairwise_cons.mpr ⟨fun id hm => ?_,
      (h.cursor.sorted.filter _).sublist (List.take_sublist n _)⟩
    simpa using (List.mem_filter.mp (List.mem_of_mem_take hm)).2
  have hnext : ((world react).next w (.tlg (.onRead i resp now time))).tlg.own.lastUpdateId =
      (updateIds tree).getLastD w.tlg.own.lastUpdateId := by
    show ((telegram react).next w.tlg _).own.lastUpdateId = _
    rw [hn]
    exact hlast
  have hdispatched : ((world react).emit w (.tlg (.onRead i resp now time))).filterMap dispatchedId =
      updateIds tree := hd
  refine ⟨?_, ?_, ?_⟩
  · rw [hnext, hdispatched]
  · rw [hdispatched]
    exact hlt
  · rw [hnext]
    have hahead : WriteAhead notedId dispatchedId w.tlg.own.lastUpdateId
        ((updateIds tree).getLastD w.tlg.own.lastUpdateId) noting := by
      rw [← hnoted]
      rw [← hnoted] at hlt
      exact .of_note hlt hquiet
    show WriteAhead _ _ _ _ ((telegram react).emit w.tlg _)
    rw [hemit]
    refine hahead.append (.of_act hact fun id hm => ?_)
    have hacted : acting.filterMap dispatchedId = updateIds tree := by
      rw [← hd, hemit, List.filterMap_append, hquiet, List.nil_append]
    rw [hacted] at hm
    exact le_getLastD (List.pairwise_cons.mp hlt).2 hm _

theorem posts_step (react : React κ) (h : Follows lastUpdateId w ids) {e : WorldEvent}
    (hs : Serves w e) : Posts w ((world react).next w e) ((world react).emit w e) := by
  have quiet {e : Event} (hemit : (telegram react).emit w.tlg e = [])
      (hl : ((telegram react).next w.tlg e).own.lastUpdateId = w.tlg.own.lastUpdateId) :
      Posts w ((world react).next w (.tlg e)) ((world react).emit w (.tlg e)) := by
    show Posts w _ ((telegram react).emit w.tlg e)
    rw [hemit]
    exact posts_nil hl
  cases e with
  | post id => exact posts_nil rfl
  | tlg e =>
    by_cases he : ∀ i resp now time, e ≠ .onRead i resp now time
    · obtain ⟨-, -, hl, hemit⟩ := next_of_ne_onRead react h.steady h.alive he
      exact quiet hemit hl
    · simp only [not_forall, not_not] at he
      obtain ⟨i, resp, now, time, rfl⟩ := he
      by_cases ho : ∃ sent uid, w.tlg.http.ops[i]? = some (.read sent uid)
      · obtain ⟨sent, uid, ho⟩ := ho
        cases hb : received w.tlg uid resp with
        | some tree => exact posts_answered h hs ho hb
        | none =>
          obtain ⟨hn, hemit⟩ := onRead_ignored react now time h.steady ho h.alive hb
          refine quiet hemit ?_
          rw [hn]
          exact congrArg Fields.lastUpdateId Owner.own_read
      · obtain ⟨hn, hemit⟩ := onRead_none react h.alive
          (fun sent uid ho' => ho ⟨sent, uid, ho'⟩) resp now time
        exact quiet hemit (by rw [hn])

/-! ### Over all starts -/

/-- The client follows the server, and what it has posted is written ahead. -/
structure Holds (p : Program κ) (done : List ℤ) : Prop where
  follows : ∃ first ids, Follows first p.world ids
  low : -2 ^ 31 ≤ p.lastUpdateId
  logged : Logged notedId dispatchedId done p.lastUpdateId p.world.tlg.own.lastUpdateId p.eventList

variable {p : Program κ} {done : List ℤ}

theorem Holds.world (react : React κ) (h : Holds p done) {e : WorldEvent}
    (hs : Serves p.world e) (hw : Within p.world e) : Holds (p.next react (.world e)) done where
  follows := by
    obtain ⟨first, ids, hf⟩ := h.follows
    exact ⟨first, _, follows_step react hf hs hw⟩
  low := h.low
  logged := by
    obtain ⟨first, ids, hf⟩ := h.follows
    obtain ⟨hlast, hasc, hahead⟩ := posts_step react hf hs
    show Logged _ _ _ _ ((Telegram.world react).next p.world e).tlg.own.lastUpdateId _
    rw [hlast] at hahead ⊢
    exact h.logged.push hahead rfl hasc

theorem handled_true (o : Out) (p : Program κ) :
    p.handled true o = { p with lastUpdateId := (notedId o).getD p.lastUpdateId } := by
  cases o <;> rfl

theorem Holds.dispatcher (h : Holds p done) :
    Holds (p.next react (.dispatcher true))
      (done ++ ((program react).emit p (.dispatcher true)).filterMap dispatchedId) := by
  obtain ⟨first, ids, hf⟩ := h.follows
  have hlogged := h.logged
  simp only [Program.next, program, hf.alive, if_true]
  cases hq : p.eventList with
  | nil => simpa using h
  | cons o os =>
    rw [hq] at hlogged
    have hpop := hlogged.pop
    simp only [handled_true, List.head?_cons, Option.toList_some]
    have hone : [o].filterMap dispatchedId = (dispatchedId o).toList := by
      cases hd : dispatchedId o <;> simp [hd]
    rw [hone]
    exact ⟨h.follows, h.low.trans (WriteAhead.le_getD hlogged.ahead.1), hpop⟩

/-- A start reads what was saved last. -/
theorem Holds.restart (react : React κ) (h : Holds p done) (rest : κ) :
    Holds (p.next react (.restart true rest)) done where
  follows := by
    obtain ⟨first, ids, hf⟩ := h.follows
    have hhigh : p.lastUpdateId < 2 ^ 31 - 1 := h.logged.ahead.le.trans_lt hf.hasNext.2
    exact ⟨p.lastUpdateId, [], steady_init _ rest, rfl, ⟨h.low, hhigh⟩,
      ⟨hf.cursor.sorted, le_rfl, .inl rfl, rfl⟩⟩
  low := h.low
  logged := h.logged.lose

/-- What an event does to the poll client and its server. -/
def ProgramEvent.world? : ProgramEvent κ → Option WorldEvent
  | .world e => some e
  | _ => none

theorem handled_fields (ok : Bool) (o : Out) (p : Program κ) :
    (p.handled ok o).world = p.world ∧ (p.handled ok o).eventList = p.eventList := by
  unfold Program.handled
  split
  · split <;> exact ⟨rfl, rfl⟩
  · exact ⟨rfl, rfl⟩

/-- Between two starts, what is posted is handled in its turn or still waits. -/
theorem handled_or_waiting (react : React κ) (p : Program κ) (fs : List (ProgramEvent κ))
    (h : ∀ ok rest, .restart ok rest ∉ fs) :
    p.eventList ++ (Telegram.world react).emitted p.world (fs.filterMap ProgramEvent.world?) =
      (program react).emitted p fs ++ ((program react).run p fs).eventList := by
  induction fs generalizing p with
  | nil => simp
  | cons e fs ih =>
    have hfs (ok : Bool) (rest : κ) : .restart ok rest ∉ fs := fun hm =>
      h ok rest (List.mem_cons_of_mem e hm)
    have hnext := ih ((program react).next p e) hfs
    cases e with
    | world e =>
      simp only [ProgramEvent.world?, List.filterMap_cons, Machine.emitted_cons, Machine.run_cons]
      rw [← List.append_assoc]
      exact hnext
    | dispatcher ok =>
      simp only [ProgramEvent.world?, List.filterMap_cons, Machine.emitted_cons, Machine.run_cons]
      rw [List.append_assoc, ← hnext]
      simp only [program, Program.next]
      by_cases ha : p.world.tlg.own.alive
      · cases hq : p.eventList with
        | nil => simp [ha, hq]
        | cons o os => simp [ha, handled_fields]
      · simp [ha]
    | restart ok rest => exact absurd List.mem_cons_self (h ok rest)

/-- As long as the updates are served, none has the greatest `int` for its id, and the database is
written and read, in every run with any number of ends and starts, the updates are handled in
ascending order, none twice, and behind the one that is saved; and until the next start, what is
posted is handled in its turn or still waits. -/
theorem handled_once (react : React κ) (lastUpdateId : ℤ) (rest : κ)
    (hl : -2 ^ 31 ≤ lastUpdateId ∧ lastUpdateId < 2 ^ 31 - 1) (es : List (ProgramEvent κ))
    (h : (program react).Along Lasting (firstStart lastUpdateId rest) es) :
    let ids := ((program react).emitted (firstStart lastUpdateId rest) es).filterMap dispatchedId
    let p := (program react).run (firstStart lastUpdateId rest) es
    (ids.Pairwise (· < ·) ∧ ∀ id ∈ ids, lastUpdateId < id ∧ id ≤ p.lastUpdateId) ∧
      ∀ fs, (∀ ok rest, .restart ok rest ∉ fs) →
        p.eventList ++ (Telegram.world react).emitted p.world (fs.filterMap ProgramEvent.world?) =
          (program react).emitted p fs ++ ((program react).run p fs).eventList := by
  intro ids p
  refine ⟨?_, handled_or_waiting react p⟩
  have hinit : Holds (firstStart lastUpdateId rest) ([lastUpdateId] ++
      ([] : List Out).filterMap dispatchedId) :=
    ⟨⟨lastUpdateId, [], steady_init lastUpdateId rest, rfl, hl, .nil lastUpdateId⟩, hl.1,
      .nil (by simp) (by simp [firstStart])⟩
  have hrun := Machine.run_history (M := program react)
    (fun p os => Holds p ([lastUpdateId] ++ os.filterMap dispatchedId))
    (fun p os e hp he => by
      rw [List.filterMap_append, ← List.append_assoc]
      cases e with
      | world e =>
        have hworld := hp.world react he.1 he.2
        simpa [program] using hworld
      | dispatcher ok =>
        obtain rfl : ok = true := he
        exact hp.dispatcher
      | restart ok rest =>
        obtain rfl : ok = true := he
        have hrestart := hp.restart react rest
        simpa [program] using hrestart) hinit h
  rw [List.nil_append] at hrun
  obtain ⟨hlow, hasc⟩ := List.pairwise_cons.mp
    (List.pairwise_append.mp hrun.logged.ascending).1
  exact ⟨hasc, fun id hid => ⟨hlow id hid, hrun.logged.saved id (List.mem_cons_of_mem _ hid)⟩⟩

/-- What lasts for the poll client lasts for the program. -/
theorem lasting_world {es : List WorldEvent} (h : (Telegram.world react).Along
    (fun w e => Serves w e ∧ Within w e) p.world es) :
    (program react).Along Lasting p (es.map .world) := by
  induction es generalizing p with
  | nil => trivial
  | cons e es ih => exact ⟨h.1, ih h.2⟩

/-- Of two updates the first is handled, and the program started again. -/
def restarted : List (ProgramEvent Unit) :=
  lostRequest.map .world ++ [.dispatcher true, .dispatcher true, .restart true ()]

theorem handled_restarted :
    let ids := ((program idle).emitted (firstStart 0 ()) restarted).filterMap dispatchedId
    ids.Pairwise (· < ·) ∧ ∀ id ∈ ids, 0 < id ∧
      id ≤ ((program idle).run (firstStart 0 ()) restarted).lastUpdateId := by
  refine (handled_once idle 0 () (by decide) restarted ?_).1
  exact (Machine.along_append _ _ _ _ _).mpr
    ⟨lasting_world serves_lostRequest, rfl, rfl, rfl, trivial⟩

end BotTrader.Telegram
