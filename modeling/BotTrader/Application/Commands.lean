import BotTrader.Application.System
import BotTrader.Web.Influence

/-! The way of a command, from the message of a session to the script. What the sessions post
is handled in their order, nothing of it twice, and all of it when nothing is under way; and the
script is told to run a trade at the command of a session only if the session had the id of the
admin when it gave it. -/

namespace BotTrader.Application

open Automata Handler Boost Python Strategy Web

namespace System

variable {F : Type} [Runtime F] {lib : Library} {others : ℕ → Bool}

/-! ### Runs of the queue -/

/-- All that is seen of the queue. -/
def queueOuts (os : List (Out F)) : List (QueueOut F) := os.filterMap Out.queue?

theorem sound_system (lib : Library) {sys₀ : System F} (hq : sys₀.queue = {}) (es : List (Event F)) :
    Sound (handlersMap others) ((system lib others).run sys₀ es).queue
      (queueOuts ((system lib others).emitted sys₀ es)) := by
  have hnext (sys : System F) (q : Queue Source Kind (Posted F) Kind) (e : Event F)
      (h : q = sys.queue) : (eventQueue (handlersMap others)).run q (queueActions sys e) =
        ((system lib others).next sys e).queue := by
    rw [h]
    exact (queue_step e).1.symm
  have hrun := Machine.state_expanded (M := system lib others) (N := eventQueue (handlersMap others))
    (R := fun (sys : System F) q => q = sys.queue)
    (s := sys₀) hnext hq.symm es
  have hemit := Machine.emitted_expanded (M := system lib others)
    (N := eventQueue (handlersMap others)) (R := fun (sys : System F) q => q = sys.queue)
    (s := sys₀) hnext (fun sys q e h => by
      rw [h]
      exact (queue_step e).2) hq.symm es
  rw [queueOuts, hemit, ← hrun]
  exact sound_run _

/-- Events are posted under their own kinds, and those of the web server by a source. -/
def WellPosted (x : Kind × Posted F) : Prop :=
  x.1 = kindOf x.2.data ∧ ∀ e, x.2.data = .inl e → ∃ s, x.2.source = some s

omit [Runtime F] in
theorem wellPosted_web (s : Source) (e : WebEvent) :
    WellPosted (event (some s) (.inl e) : Kind × Posted F) := ⟨rfl, fun _ _ => ⟨s, rfl⟩⟩

omit [Runtime F] in
theorem wellPosted_foreign (source : Option Source) (data : Foreign F) :
    WellPosted (event source (.inr data)) := ⟨rfl, fun e h => by cases h⟩

omit [Runtime F] in
theorem wellPosted_addEvent {caller : Option Source} {x : Kind × Posted F} (hx : WellPosted x)
    {q : Queue Source Kind (Posted F) Kind} {y : Kind × Posted F}
    (h : .added y ∈ (q.addEvent caller x).2) : WellPosted y := by
  rcases addEvent_outputs caller x q with ho | ho <;> rw [ho] at h
  · cases h
  · rw [List.mem_singleton, Output.added.injEq] at h
    rwa [h]

theorem wellPosted_step {sys : System F} (e : Event F) :
    ∀ o ∈ (sys.step lib others e).2, ∀ x, o = .queue (.added x) → WellPosted x := by
  rintro o ho x rfl
  have hq : .added x ∈ (sys.step lib others e).2.filterMap Out.queue? :=
    List.mem_filterMap.mpr ⟨_, ho, rfl⟩
  rw [(queue_step e).2] at hq
  unfold queueActions at hq
  split at hq
  · cases e with
    | add s =>
      simp only at hq
      split at hq
      · cases hq
      · exact wellPosted_addEvent (wellPosted_web s _) (by simpa [eventQueue] using hq)
    | post i data =>
      exact wellPosted_addEvent (wellPosted_foreign _ data) (by simpa [eventQueue] using hq)
    | handlerPost data =>
      exact wellPosted_addEvent (wellPosted_foreign _ data) (by simpa [eventQueue] using hq)
    | dispatcher =>
      exact absurd (by simpa [eventQueue] using hq) (added_notMem_dispatcher others sys.queue x)
    | _ => cases hq
  · cases hq

theorem wellPosted_run (lib : Library) (others : ℕ → Bool) (sys : System F) (es : List (Event F)) :
    ∀ x ∈ added (queueOuts ((system lib others).emitted sys es)), WellPosted x := by
  have hrun := Machine.emitted_invariant (M := system lib others) (P := fun _ _ => True)
    (fun _ => True) (fun o => ∀ x, o = .queue (.added x) → WellPosted x) (fun _ _ _ _ => trivial)
    (fun sys e _ _ => wellPosted_step e) (s := sys) trivial
    (Machine.along_of_forall _ (fun _ _ => trivial) _ es)
  intro x hx
  obtain ⟨o, ho, hx⟩ := List.mem_filterMap.mp hx
  obtain ⟨o', ho', hq⟩ := List.mem_filterMap.mp ho
  cases o' with
  | queue q =>
    obtain rfl := Option.some.inj hq
    cases q with
    | added y =>
      obtain rfl := Option.some.inj hx
      exact hrun _ ho' _ rfl
    | _ => cases hx
  | _ => cases hq

/-! ### From a source to its handlers -/

omit [Runtime F] in
theorem flatMap_added (s : Source) (os : List (Out F)) :
    os.flatMap (Out.added s) = (added (queueOuts os)).filterMap fun x => fromSource s x.2 := by
  induction os with
  | nil => rfl
  | cons o os ih =>
    rw [List.flatMap_cons, ih]
    cases o with
    | queue q =>
      cases q with
      | added x =>
        show _ = (x :: added (queueOuts os)).filterMap _
        rw [List.filterMap_cons]
        simp only [Out.added]
        cases fromSource s x.2 <;> rfl
      | _ => rfl
    | _ => rfl

omit [Runtime F] in
theorem flatMap_handled (s : Source) (os : List (Out F)) :
    os.flatMap (Out.handled s) = (handled (queueOuts os)).filterMap fun x => fromSource s x.2 := by
  induction os with
  | nil => rfl
  | cons o os ih =>
    rw [List.flatMap_cons, ih]
    cases o with
    | queue q =>
      cases q with
      | handled h p =>
        show _ = ((h, p) :: handled (queueOuts os)).filterMap _
        rw [List.filterMap_cons]
        simp only [Out.handled]
        cases fromSource s p <;> rfl
      | _ => rfl
    | _ => rfl

omit [Runtime F] in
/-- All events of the web server have a handler. -/
theorem filterMap_deliveries (others : ℕ → Bool) (s : Source) {events : List (Kind × Posted F)}
    (h : ∀ x ∈ events, WellPosted x) :
    (deliveries (handlersMap others) events).filterMap (fun x => fromSource s x.2) =
      events.filterMap fun x => fromSource s x.2 := by
  rw [deliveries, List.filterMap_filterMap]
  refine List.filterMap_congr fun x hx => ?_
  obtain ⟨hkind, -⟩ := h x hx
  obtain ⟨kind, source, data⟩ := x
  obtain rfl : kind = kindOf data := hkind
  cases data with
  | inl e => cases e <;> rfl
  | inr f =>
    cases f with
    | other n =>
      simp only [kindOf, handlersMap]
      split <;> rfl
    | _ => rfl

/-- What was handled of what a source has posted is a first part of it, and all of it when
nothing is under way. -/
theorem handled_isPrefix (lib : Library) (others : ℕ → Bool) {sys₀ : System F} (s : Source)
    (hq : sys₀.queue = {}) (ho : sys₀.outbox s = []) (es : List (Event F)) :
    let sys := (system lib others).run sys₀ es
    let os := (system lib others).emitted sys₀ es
    os.flatMap (Out.handled s) <+: os.flatMap (Out.posted s) ∧
      (sys.queue.Rests → sys.outbox s = [] →
        os.flatMap (Out.handled s) = os.flatMap (Out.posted s)) := by
  intro sys os
  have hsound : Sound (handlersMap others) sys.queue (queueOuts os) := sound_system lib hq es
  have hposted := Machine.run_passes (M := system lib others) (P := fun _ _ => True)
    (fun _ => True) (fun sys => sys.outbox s) (Out.posted s) (Out.added s)
    (fun _ _ _ _ => trivial) (fun sys e _ _ => posted_step s e) (s := sys₀) trivial
    (Machine.along_of_forall _ (fun _ _ => trivial) _ es)
  have hlaw : os.flatMap (Out.posted s) = os.flatMap (Out.added s) ++ sys.outbox s := by
    rwa [ho, List.nil_append] at hposted
  have hwell : ∀ x ∈ added (queueOuts os), WellPosted x := wellPosted_run lib others sys₀ es
  have hdel := filterMap_deliveries others s hwell
  rw [hlaw, flatMap_added, flatMap_handled]
  constructor
  · have hpre := hsound.handled_isPrefix.filterMap fun x => fromSource s x.2
    exact (hdel ▸ hpre).trans (List.prefix_append _ _)
  · intro hrest hout
    rw [hout, List.append_nil, hsound.handled_of_rests hrest]
    exact hdel

/-! ### Commands to run a trade -/

def run? : WebEvent → Option Ptree
  | .tradeRun data => some data
  | _ => none

/-- The command to run a trade that the session gives as the admin. -/
def command (lib : Library) (k : ℕ) (w : World) : Web.Event → Option Ptree
  | .receive j msg =>
    if j = k ∧ w.alive = true ∧ w.phase k = .reading ∧ w.server.id k = 0 then do
      let text ← (decode64 msg).toOption
      let pt ← lib.readJson text
      if pt.get "c" = .ok "runTrade" then some pt else none
    else none
  | _ => none

/-- The commands that the session gives in a step. -/
def commands (lib : Library) (k : ℕ) (sys : System F) (e : Event F) : List Ptree :=
  (e.web?.bind (command lib k sys.web)).toList

/-- No trade is run. -/
def RunsNone (o : Web.Out) : Prop := ∀ data, o ≠ .event (.tradeRun data)

theorem runsNone_commandDecoder {cmd : String} (hc : cmd ≠ "runTrade") (k : ℕ) (pt : Ptree) :
    (commandDecoder k cmd pt).Guards (fun _ => True) RunsNone := by
  have out {o : Web.Out} (h : RunsNone o) :
      (Handler.call o : Srv Unit).Guards (fun _ => True) RunsNone := guards_call h
  have ask {key : String} (f : String → WebEvent) (h : ∀ x data, f x ≠ .tradeRun data) :
      (do post (f (← attempt (pt.get key))) : Srv Unit).Guards (fun _ => True) RunsNone :=
    (guards_attempt _).bind fun x => out fun data he => h x data (Web.Out.event.inj he)
  have send (t : Ptree) : RunsNone (.send k (.tree t)) := fun data he => by cases he
  refine guards_self_bind fun s _ => ?_
  refine guards_ite (fun h => absurd h hc) fun _ => ?_
  refine guards_ite (fun _ => (guards_attempt _).bind fun m => ?_) fun _ => ?_
  · refine guards_ite (fun _ => ask _ (by simp)) fun _ => (guards_attempt _).bind fun m => ?_
    exact guards_ite (fun _ => out (by simp [RunsNone])) fun _ => guards_pure ()
  refine guards_ite (fun _ => out (by simp [RunsNone])) fun _ => ?_
  refine guards_ite (fun _ => guards_ite (fun _ => out (send _)) fun _ => ?_) fun _ => ?_
  · split
    · exact out (by simp [RunsNone])
    · exact guards_pure ()
  refine guards_ite (fun _ => guards_ite (fun _ => ?_) fun _ => out (by simp [RunsNone])) fun _ => ?_
  · refine (guards_attempt _).bind fun a => ?_
    exact guards_ite (fun _ => out (send _)) fun _ => out (by simp [RunsNone])
  refine guards_ite (fun _ => ask _ (by simp)) fun _ => ?_
  refine guards_ite (fun _ => ask _ (by simp)) fun _ => ?_
  refine guards_ite (fun _ => ask _ (by simp)) fun _ => ?_
  refine guards_ite (fun _ => (out (send _)).bind fun _ => guards_update fun _ h => h) fun _ => ?_
  exact guards_ite (fun _ => out (by simp [RunsNone])) fun _ => out (send _)

/-- The trades that the events of some outputs run. -/
def runs (os : List Web.Out) : List Ptree := (os.filterMap posted?).filterMap run?

theorem runs_eq_nil {os : List Web.Out} (h : ∀ o ∈ os, RunsNone o) : runs os = [] := by
  rw [runs, List.filterMap_filterMap, List.filterMap_eq_nil_iff]
  intro o ho
  cases o with
  | send => rfl
  | event e =>
    cases e with
    | tradeRun data => exact absurd rfl (h _ ho data)
    | _ => rfl

theorem runsNone_of_reply {k : ℕ} {e : String} {o : Web.Out} (h : o.Reply k e) : RunsNone o := by
  obtain ⟨t, rfl, -⟩ := h
  exact fun data he => by cases he

/-- A message runs a trade if and only if it is such a command of the admin. -/
theorem runs_onReceive (lib : Library) (k : ℕ) (msg : Bytes) (s : Server) :
    runs ((onReceive lib k msg).run s).calls =
      (if s.id k = 0 then do
        let text ← (decode64 msg).toOption
        let pt ← lib.readJson text
        if pt.get "c" = .ok "runTrade" then some pt else none
      else none : Option Ptree).toList := by
  have none_of {os : List Web.Out} {x : Option Ptree} (ho : ∀ o ∈ os, RunsNone o) (hx : x = none) :
      runs os = x.toList := by
    rw [runs_eq_nil ho, hx]
    rfl
  unfold onReceive
  rcases ht : decode64 msg with x | text
  · exact none_of (by simp [run_bind]) (by split <;> rfl)
  rw [run_bind_done (run_attempt_ok text s), Outcome.after_nil]
  rcases hpt : lib.readJson text with _ | pt
  · obtain ⟨o, hr, ho⟩ := run_errorMessage k 3 s
    refine none_of ?_ (by simp [Except.toOption, hpt])
    rw [hr]
    simpa using runsNone_of_reply ho
  simp only
  rcases hc : pt.get "c" with x | cmd
  · exact none_of (by simp [run_bind]) (by simp [Except.toOption, hpt, hc])
  rw [run_bind_done (run_attempt_ok cmd s), Outcome.after_nil]
  by_cases hrun : cmd = "runTrade"
  · subst hrun
    rw [if_neg (by decide), run_bind_done (run_self s), Outcome.after_nil]
    by_cases hid : s.id k = 0
    · simp [hid, commandDecoder, run_bind, post, runs, posted?, run?, Except.toOption, hpt, hc]
    · rw [if_neg hid]
      refine none_of ?_ rfl
      split
      · simp
      · obtain ⟨o, hr, ho⟩ := run_errorMessage k 2 s
        have hdecoded : (commandDecoder k "runTrade" pt).run s = .done () s [o] := by
          rw [commandDecoder, run_bind_done (run_self s), Outcome.after_nil, if_pos rfl, if_pos hid,
            hr]
        rw [hdecoded]
        simpa using runsNone_of_reply ho
  · refine none_of ?_ (by simp [Except.toOption, hpt, hc, hrun])
    split
    · obtain ⟨s', -, os, hr, ho⟩ := authUser_spec k pt s
      rw [hr]
      exact fun o h => runsNone_of_reply (ho o h)
    · rw [run_bind_done (run_self s), Outcome.after_nil]
      split
      · simp
      · exact (runsNone_commandDecoder hrun k pt s trivial).2

theorem runs_receive (w : World) (k : ℕ) (msg : Bytes) :
    runs (w.step lib (.receive k msg)).2 = (command lib k w (.receive k msg)).toList := by
  simp only [World.step, World.handle, command, true_and]
  by_cases ha : w.alive = true
  · by_cases hp : w.phase k = .reading
    · simp only [ha, hp, if_true, true_and]
      exact runs_onReceive lib k msg w.server
    · simp [ha, hp, runs]
  · simp [ha, runs]

/-- What the strand of a session posts in a step is what its message asks for. -/
theorem runs_step {sys : System F} (k : ℕ) (e : Event F) :
    ((sys.step lib others e).2.flatMap (Out.posted (.session k))).filterMap run? =
      commands lib k sys e := by
  unfold commands
  by_cases ha : sys.web.alive = true
  · rw [step, if_pos ha]
    cases e with
    | web e =>
      simp only [handle, posted_web, Event.web?, Option.bind_some]
      cases e with
      | receive j msg =>
        by_cases hj : j = k
        · subst hj
          have hs : sender (.receive j msg) = .session j := rfl
          rw [if_pos hs]
          exact runs_receive sys.web j msg
        · rw [if_neg (by simpa [sender] using hj)]
          simp [command, hj]
      | _ => rfl
    | add s =>
      simp only [handle, Event.web?, Option.bind_none]
      split
      · rfl
      · split
        · rfl
        · simp [onQueue]
    | post | handlerPost | goOn | strand => simp [handle, onQueue, Event.web?]
    | dispatcher => simp [handle, onQueue, onTrading, Event.web?]
    | expire | handle => simp [handle, onTrading, Event.web?]
  · rw [step, if_neg ha]
    cases e with
    | web e => cases e <;> simp [Event.web?, command, ha]
    | _ => rfl

theorem runs_run {sys : System F} (k : ℕ) (es : List (Event F)) :
    (((system lib others).emitted sys es).flatMap (Out.posted (.session k))).filterMap run? =
      (system lib others).expanded (commands lib k) sys es := by
  induction es generalizing sys with
  | nil => rfl
  | cons e es ih =>
    have hstep : (((system lib others).emit sys e).flatMap (Out.posted (.session k))).filterMap
        run? = commands lib k sys e := runs_step k e
    rw [Machine.emitted_cons, List.flatMap_append, List.filterMap_append, hstep, ih]
    rfl

/-! ### Other sources -/

theorem posted_of_tells {h : Srv Unit} {s : Server} (ht : Tells h s) :
    (h.run s).calls.filterMap posted? = [] := by
  rw [List.filterMap_eq_nil_iff]
  intro o ho
  obtain ⟨k, data, rfl, -⟩ := ht.2 o ho
  rfl

/-- Only messages make the web server post. -/
theorem posted_of_not_receive (w : World) {e : Web.Event} (he : ∀ k msg, e ≠ .receive k msg) :
    (w.step lib e).2.filterMap posted? = [] := by
  unfold World.step
  split
  · cases e with
    | receive k msg => exact absurd rfl (he k msg)
    | accept => rfl
    | onHandshake | onAccept | readError | writeError =>
      simp only [World.handle]
      split <;> rfl
    | onClose k =>
      simp only [World.handle]
      split <;> rfl
    | send data client => exact posted_of_tells (tells_send data client _)
    | onPrice data => exact posted_of_tells (tells_onPrice lib data _)
    | onBinanceError data => exact posted_of_tells (tells_onBinanceError lib data _)
    | onAccount data => exact posted_of_tells (tells_onAccount lib data _)
    | onOrdersList data => exact posted_of_tells (tells_onOrdersList lib data _)
    | onTradeSteps symbol posList => exact posted_of_tells (tells_onTradeSteps symbol posList _)
  · rfl

theorem posted_step_of_not_session {sys : System F} {s : Source} (hs : ∀ k, s ≠ .session k)
    (e : Event F) : (sys.step lib others e).2.flatMap (Out.posted s) = [] := by
  unfold step
  split
  · cases e with
    | web e =>
      simp only [handle, posted_web]
      split
      · next h =>
        refine posted_of_not_receive sys.web fun k msg he => ?_
        subst he
        exact hs k h.symm
      · rfl
    | add s' =>
      simp only [handle]
      split
      · rfl
      · split
        · rfl
        · simp [onQueue]
    | post | handlerPost | goOn | strand => simp [handle, onQueue]
    | dispatcher => simp [handle, onQueue, onTrading]
    | expire | handle => simp [handle, onTrading]
  · rfl

theorem posted_run_of_not_session (lib : Library) (others : ℕ → Bool) (sys : System F) {s : Source}
    (hs : ∀ k, s ≠ .session k) (es : List (Event F)) :
    ((system lib others).emitted sys es).flatMap (Out.posted s) = [] := by
  induction es generalizing sys with
  | nil => rfl
  | cons e es ih =>
    rw [Machine.emitted_cons, List.flatMap_append, ih, List.append_nil]
    exact posted_step_of_not_session hs e

/-- What the web server posts is posted by a session. -/
theorem source_of_handled {sys₀ : System F} (hq : sys₀.queue = {}) (ho : ∀ s, sys₀.outbox s = [])
    {es : List (Event F)} {h : Kind} {p : Posted F} {e : WebEvent}
    (hm : (h, p) ∈ handled (queueOuts ((system lib others).emitted sys₀ es)))
    (hp : p.data = .inl e) : ∃ k, p.source = some (.session k) := by
  have hsound : Sound (handlersMap others) _ _ := sound_system lib hq es
  have hwell := wellPosted_run lib others sys₀ es
  obtain ⟨x, hx, hxp⟩ := List.mem_filterMap.mp (hsound.handled_isPrefix.subset hm)
  obtain ⟨kind, -, hkind⟩ := Option.map_eq_some_iff.mp hxp
  have hxp : x.2 = p := (Prod.mk.inj hkind).2
  obtain ⟨s, hs⟩ := (hwell x hx).2 e (hxp ▸ hp)
  rw [hxp] at hs
  by_cases hk : ∃ k, s = .session k
  · obtain ⟨k, rfl⟩ := hk
    exact ⟨k, hs⟩
  · have hnone := posted_run_of_not_session lib others sys₀ (fun k h => hk ⟨k, h⟩) es
    have hstart := (handled_isPrefix lib others s hq (ho s) es).1
    rw [hnone, List.prefix_nil, flatMap_handled] at hstart
    have hmem : e ∈ (handled (queueOuts ((system lib others).emitted sys₀ es))).filterMap
        fun x => fromSource s x.2 :=
      List.mem_filterMap.mpr ⟨_, hm, by simp [fromSource, hp, hs]⟩
    rw [hstart] at hmem
    cases hmem

/-! ### What the script is told -/

/-- The trade that the script is told to run, in an event that the session posted. -/
def tradeOf (k : ℕ) (x : Option Source × Message F) : Option (Json F) :=
  if x.1 = some (.session k) then
    match x.2 with
    | .tradeRun data => data
    | _ => none
  else none

/-- The trades that the script is told to run from a session. -/
def runsFrom (k : ℕ) (os : List (Out F)) : List (Json F) :=
  (os.filterMap Out.told?).filterMap (tradeOf k)

theorem told_run (sys : System F) (es : List (Event F)) :
    ((system lib others).emitted sys es).filterMap Out.told? =
      (queueOuts ((system lib others).emitted sys es)).filterMap told? := by
  induction es generalizing sys with
  | nil => rfl
  | cons e es ih =>
    have hstep : ((system lib others).emit sys e).filterMap Out.told? = _ := told_step e
    simp only [Machine.emitted_cons, queueOuts, List.filterMap_append] at ih ⊢
    rw [hstep, ih]
    rfl

omit [Runtime F] in
theorem message?_eq_tradeRun {data : WebEvent ⊕ Foreign F} {trade : Option (Json F)}
    (h : message? data = some (.tradeRun trade)) :
    ∃ pt : Ptree, data = .inl (.tradeRun pt) ∧ trade = some pt.writeJson := by
  unfold message? at h
  split at h
  case h_1 pt => exact ⟨pt, rfl, by simpa using h.symm⟩
  case h_5 data =>
    obtain ⟨report, -, hm⟩ := Option.bind_eq_some_iff.mp h
    split at hm <;> cases hm
  all_goals cases h

omit [Runtime F] in
/-- Of a handled event of a session the script is told what the session posted. -/
theorem tradeOf_told (k : ℕ) (h : Kind) (p : Posted F) :
    (told? (.handled h p)).bind (tradeOf k) =
      ((fromSource (.session k) p).bind run?).map Ptree.writeJson := by
  obtain ⟨source, data⟩ := p
  by_cases hs : source = some (.session k)
  · subst hs
    cases data with
    | inl e => cases e <;> simp [told?, message?, tradeOf, fromSource, run?]
    | inr f =>
      have hnone : fromSource (.session k) (⟨some (.session k), .inr f⟩ : Posted F) = none := rfl
      rw [hnone]
      cases f with
      | orderReport report =>
        cases report with
        | none => rfl
        | some report =>
          simp only [told?, message?, Option.bind_some]
          split <;> simp [tradeOf]
      | _ => simp [told?, message?, tradeOf]
  · have hnone : fromSource (.session k) ⟨source, data⟩ = none := by
      cases data <;> simp [fromSource, hs]
    rw [hnone]
    cases hm : message? data <;> simp [told?, tradeOf, hm, hs]

omit [Runtime F] in
theorem runsFrom_eq (k : ℕ) {os : List (Out F)}
    (ht : os.filterMap Out.told? = (queueOuts os).filterMap told?) :
    runsFrom k os =
      ((os.flatMap (Out.handled (.session k))).filterMap run?).map Ptree.writeJson := by
  rw [runsFrom, ht, flatMap_handled, handled, List.filterMap_filterMap, List.filterMap_filterMap,
    List.filterMap_filterMap, List.map_filterMap]
  refine List.filterMap_congr fun q _ => ?_
  cases q with
  | handled h p => exact tradeOf_told k h p
  | _ => rfl

/-- What the script is told are the messages of its part of the run. -/
theorem told_of_trading (sys₀ : System F) (es : List (Event F)) :
    ((system lib others).expanded (tradingEvents others) sys₀ es).filterMap Trading.Event.message? =
      (((system lib others).emitted sys₀ es).filterMap Out.told?).map Prod.snd := by
  induction es generalizing sys₀ with
  | nil => rfl
  | cons e es ih =>
    have hstep : (tradingEvents others sys₀ e).filterMap Trading.Event.message? =
        (((system lib others).emit sys₀ e).filterMap Out.told?).map Prod.snd := messages_step e
    rw [Machine.expanded, List.filterMap_append, hstep, ih, Machine.emitted_cons,
      List.filterMap_append, List.map_append]

/-- In every run of the whole, the trades that the script is told to run from the session `k` are
those of the commands that `k` gave as the admin, in their order and each at most once, and all of
them when nothing is under way; it is told to run no others; and the script has gone through
exactly the messages that it was told. -/
theorem commands_reach_script (lib : Library) (others : ℕ → Bool) (adminPassword userPassword : String)
    (interface : Interface) (symbols : Symbols) (es : List (Event F)) :
    let sys₀ : System F := init adminPassword userPassword interface symbols
    let sys := (system lib others).run sys₀ es
    let os := (system lib others).emitted sys₀ es
    let given := fun k => (system lib others).expanded (commands lib k) sys₀ es
    (∀ k, runsFrom k os <+: (given k).map Ptree.writeJson ∧
      (sys.queue.Rests → sys.outbox (.session k) = [] →
        runsFrom k os = (given k).map Ptree.writeJson)) ∧
    (∀ source data, .told source (.tradeRun data) ∈ os →
      ∃ k, source = some (.session k) ∧ ∃ pt ∈ given k, data = some pt.writeJson) ∧
    ∃ ts, sys.trading = Application.trading.run sys₀.trading ts ∧
      ts.filterMap Trading.Event.message? = (os.filterMap Out.told?).map Prod.snd := by
  intro sys₀ sys os given
  have hgiven (k : ℕ) : (os.flatMap (Out.posted (.session k))).filterMap run? = given k :=
    runs_run k es
  have hall (k : ℕ) := handled_isPrefix lib others (.session k) (rfl : sys₀.queue = {}) rfl es
  have hruns (k : ℕ) : runsFrom k os = _ := runsFrom_eq k (told_run sys₀ es)
  have hpre (k : ℕ) : runsFrom k os <+: (given k).map Ptree.writeJson := by
    rw [hruns, ← hgiven]
    exact ((hall k).1.filterMap run?).map Ptree.writeJson
  refine ⟨fun k => ⟨hpre k, fun hq ho => ?_⟩, fun source data hm => ?_, ?_⟩
  · rw [hruns, ← hgiven, (hall k).2 hq ho]
  · have htold : (source, Message.tradeRun data) ∈ (queueOuts os).filterMap told? := by
      rw [← told_run sys₀ es]
      exact List.mem_filterMap.mpr ⟨_, hm, rfl⟩
    obtain ⟨q, hq, hqt⟩ := List.mem_filterMap.mp htold
    cases q with
    | handled h p =>
      obtain ⟨m, hmessage, he⟩ := Option.map_eq_some_iff.mp hqt
      obtain ⟨rfl, rfl⟩ := Prod.mk.inj he
      obtain ⟨pt, hp, rfl⟩ := message?_eq_tradeRun hmessage
      obtain ⟨k, hk⟩ := source_of_handled (rfl : sys₀.queue = {}) (fun _ => rfl)
        (List.mem_filterMap.mpr ⟨_, hq, rfl⟩) hp
      have hfrom : (pt.writeJson : Json F) ∈ runsFrom k os :=
        List.mem_filterMap.mpr ⟨_, List.mem_filterMap.mpr ⟨_, hm, rfl⟩, by simp [tradeOf, hk]⟩
      obtain ⟨pt', hpt', heq⟩ := List.mem_map.mp ((hpre k).subset hfrom)
      exact ⟨k, hk, pt', hpt', congrArg some heq.symm⟩
    | _ => cases hqt
  · exact ⟨_, (trading_run lib others sys₀ es).1, told_of_trading sys₀ es⟩

end System

end BotTrader.Application
