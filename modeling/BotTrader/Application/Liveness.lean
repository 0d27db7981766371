import BotTrader.Application.Delivery

/-! That every event is handled at last, if every thread goes on at last. -/

namespace BotTrader.Application

open Automata

variable {T K D H : Type} [DecidableEq T] {eventHandlersMap : K → Option H}
  {q : Queue T K D H} {a : Action T K D} {es : ℕ → Action T K D}

/-! ### What lasts -/

theorem calls_next {caller : Option T} {call : AddEvent K D} (h : q.calls caller = some call)
    (ha : a ≠ .goOn caller) :
    ((eventQueue eventHandlersMap).next q a).calls caller = some call := by
  refine next_of_moves (fun q' => q'.calls caller = some call) h fun q' os hm => ?_
  cases hm with
  | @addEvent other _ _ hc _ =>
    have hne : caller ≠ other := fun he => by simp [← he, h] at hc
    simpa [Function.update_of_ne hne] using h
  | @pushBack other _ _ | @unlock other _ | @post other _ =>
    have hne : caller ≠ other := fun he => ha (he ▸ rfl)
    simpa [Function.update_of_ne hne] using h
  | _ => exact h

theorem run_next {run : Dispatcher H} (h : q.run = some run) (ha : a ≠ .dispatcher) :
    ((eventQueue eventHandlersMap).next q a).run = some run := by
  refine next_of_moves (fun q' => q'.run = some run) h fun q' os hm => ?_
  cases hm with
  | addEvent | pushBack | unlock | post => exact h
  | strand hr _ => simp [hr] at h
  | _ => exact absurd rfl ha

/-- The list is not emptied but by `pop_front`. -/
theorem eventList_next (h : q.eventList ≠ [])
    (ha : a = .dispatcher → q.run ≠ some .popFront) :
    ((eventQueue eventHandlersMap).next q a).eventList ≠ [] := by
  refine next_of_moves (fun q' => q'.eventList ≠ []) h fun q' os hm => ?_
  cases hm with
  | pushBack => simp
  | popFront hr _ => exact absurd hr (ha rfl)
  | _ => exact h

theorem posted_next (hr : q.run = none) (hp : 0 < q.posted) (ha : a ≠ .strand) :
    ((eventQueue eventHandlersMap).next q a).run = none ∧
      0 < ((eventQueue eventHandlersMap).next q a).posted := by
  refine next_of_moves (fun q' => q'.run = none ∧ 0 < q'.posted) ⟨hr, hp⟩ fun q' os hm => ?_
  cases hm with
  | addEvent | pushBack | unlock => exact ⟨hr, hp⟩
  | post => exact ⟨hr, Nat.succ_pos _⟩
  | strand => exact absurd rfl ha
  | _ => simp_all

/-- A run that is at the front, or looks whether there is one, comes nearer to `pop_front`. -/
def Dispatcher.left : Dispatcher H → ℕ
  | .popFront => 0
  | .lock => 1
  | .handler => 2
  | .call _ => 3
  | .find => 4
  | .size => 5
  | .unlock => 6

theorem left_next {run : Dispatcher H} (hr : q.run = some run) (hp : run ≠ .popFront)
    (hl : q.eventList ≠ []) (he : (eventQueue eventHandlersMap).Enabled q .dispatcher) :
    ∃ run', ((eventQueue eventHandlersMap).next q .dispatcher).run = some run' ∧
      run'.left < run.left ∧ ((eventQueue eventHandlersMap).next q .dispatcher).eventList ≠ [] := by
  obtain ⟨q', os, hm⟩ := enabled_iff.mp he
  rw [hm.step.1]
  cases hm with
  | popFront hr' _ => exact absurd (Option.some.inj (hr.symm.trans hr')) hp
  | sizeZero _ hl' => exact absurd hl' hl
  | size hr' _ | find hr' _ _ | findEnd hr' _ _ | call hr' _ | handler hr' _ | lock hr' _
  | unlockRun hr' =>
    obtain rfl := Option.some.inj (hr.symm.trans hr')
    exact ⟨_, rfl, by simp [Dispatcher.left], hl⟩

/-! ### What comes at last -/

variable (eventHandlersMap) in
/-- The queue at a time. -/
abbrev queueAt (es : ℕ → Action T K D) (n : ℕ) : Queue T K D H :=
  (eventQueue eventHandlersMap).stateAt {} es n

variable (eventHandlersMap) in
/-- What was seen of it before. -/
abbrev seenAt (es : ℕ → Action T K D) (n : ℕ) : List (Output K D H) :=
  (eventQueue eventHandlersMap).outputsAt {} es n

variable (eventHandlersMap) in
/-- A call of `add_event` goes on at last, the strand begins what is posted, and the run goes on:
the handlers return, and it is not kept from a lock that is free again and again. -/
structure FairSchedule (es : ℕ → Action T K D) : Prop where
  goOn : ∀ caller, (eventQueue eventHandlersMap).Fair {} es (.goOn caller)
  strand : (eventQueue eventHandlersMap).Fair {} es .strand
  dispatcher : (eventQueue eventHandlersMap).Fair {} es .dispatcher

variable (eventHandlersMap) in
theorem sound_at (es : ℕ → Action T K D) (n : ℕ) :
    Sound eventHandlersMap (queueAt eventHandlersMap es n) (seenAt eventHandlersMap es n) :=
  sound_run _

theorem queueAt_succ {n : ℕ} {q' : Queue T K D H} {os : List (Output K D H)} (he : es n = a)
    (hm : Moves eventHandlersMap (queueAt eventHandlersMap es n) a q' os) :
    queueAt eventHandlersMap es (n + 1) = q' ∧
      seenAt eventHandlersMap es (n + 1) = seenAt eventHandlersMap es n ++ os := by
  rw [queueAt, seenAt, Machine.stateAt_succ, Machine.outputsAt_succ, he]
  exact ⟨hm.step.1, congrArg _ hm.step.2⟩

/-- A call that goes on. -/
theorem call_goesOn (hf : FairSchedule eventHandlersMap es) {caller : Option T}
    {call : AddEvent K D} {n : ℕ}
    (h : (queueAt eventHandlersMap es n).calls caller = some call) :
    ∃ m ≥ n, (queueAt eventHandlersMap es m).calls caller = some call ∧
      queueAt eventHandlersMap es (m + 1) = (queueAt eventHandlersMap es m).goOn caller := by
  have hstep := (hf.goOn caller).happens (P := fun q => q.calls caller = some call)
    (fun m hm ha => calls_next hm ha) (fun m => ⟨m, le_rfl, fun hm => ?_⟩) h
  · obtain ⟨m, hm, hc, he, -⟩ := hstep
    refine ⟨m, hm, hc, (Machine.stateAt_succ _ es m).trans ?_⟩
    rw [he]
    rfl
  · cases call with
    | pushBack event => exact enabled_iff.mpr ⟨_, _, .pushBack hm⟩
    | unlock => exact enabled_iff.mpr ⟨_, _, .unlock hm⟩
    | post => exact enabled_iff.mpr ⟨_, _, .post hm⟩

theorem call_unlocks (hf : FairSchedule eventHandlersMap es) {caller : Option T} {n : ℕ}
    (h : (queueAt eventHandlersMap es n).calls caller = some .unlock) :
    ∃ m ≥ n, (queueAt eventHandlersMap es m).evMtx = none ∧
      (queueAt eventHandlersMap es m).calls caller = some .post := by
  obtain ⟨m, hm, hc, he⟩ := call_goesOn hf h
  refine ⟨m + 1, by omega, ?_⟩
  simp [he, Queue.goOn, hc]

theorem call_posts (hf : FairSchedule eventHandlersMap es) {caller : Option T} {n : ℕ}
    (h : (queueAt eventHandlersMap es n).calls caller = some .post) :
    ∃ m ≥ n, 0 < (queueAt eventHandlersMap es m).posted ∧
      (queueAt eventHandlersMap es m).calls caller = none := by
  obtain ⟨m, hm, hc, he⟩ := call_goesOn hf h
  refine ⟨m + 1, by omega, ?_⟩
  simp [he, Queue.goOn, hc]

theorem call_pushes (hf : FairSchedule eventHandlersMap es) {caller : Option T} {event : K × D}
    {n : ℕ} (h : (queueAt eventHandlersMap es n).calls caller = some (.pushBack event)) :
    ∃ m ≥ n, (queueAt eventHandlersMap es m).eventList ≠ [] ∧
      (queueAt eventHandlersMap es m).calls caller = some .unlock := by
  obtain ⟨m, hm, hc, he⟩ := call_goesOn hf h
  refine ⟨m + 1, by omega, ?_⟩
  simp [he, Queue.goOn, hc]

/-- No call keeps its caller. -/
theorem call_returns (hf : FairSchedule eventHandlersMap es) (caller : Option T) (n : ℕ) :
    ∃ m ≥ n, (queueAt eventHandlersMap es m).calls caller = none := by
  have hpost {k : ℕ} (h : (queueAt eventHandlersMap es k).calls caller = some .post) :
      ∃ m ≥ k, (queueAt eventHandlersMap es m).calls caller = none := by
    obtain ⟨m, hm, -, hc⟩ := call_posts hf h
    exact ⟨m, hm, hc⟩
  have hunlock {k : ℕ} (h : (queueAt eventHandlersMap es k).calls caller = some .unlock) :
      ∃ m ≥ k, (queueAt eventHandlersMap es m).calls caller = none := by
    obtain ⟨m, hm, -, hc⟩ := call_unlocks hf h
    obtain ⟨m', hm', hc'⟩ := hpost hc
    exact ⟨m', hm.trans hm', hc'⟩
  cases hc : (queueAt eventHandlersMap es n).calls caller with
  | none => exact ⟨n, le_rfl, hc⟩
  | some call =>
    cases call with
    | post => exact hpost hc
    | unlock => exact hunlock hc
    | pushBack event =>
      obtain ⟨m, hm, -, hc⟩ := call_pushes hf hc
      obtain ⟨m', hm', hc'⟩ := hunlock hc
      exact ⟨m', hm.trans hm', hc'⟩

/-- A run waits for its handler and for the lock, and for nothing else. -/
theorem enabled_dispatcher {run : Dispatcher H} {n : ℕ}
    (hr : (queueAt eventHandlersMap es n).run = some run)
    (hh : run = .handler → (queueAt eventHandlersMap es n).calls none = none)
    (hl : run = .lock → (queueAt eventHandlersMap es n).evMtx = none) :
    (eventQueue eventHandlersMap).Enabled (queueAt eventHandlersMap es n) .dispatcher := by
  have hfront := (sound_at eventHandlersMap es n).front run hr
  apply enabled_iff.mpr
  cases run with
  | size =>
    cases he : (queueAt eventHandlersMap es n).eventList with
    | nil => exact ⟨_, _, .sizeZero hr he⟩
    | cons event events => exact ⟨_, _, .size hr he⟩
  | find =>
    obtain ⟨event, events, he⟩ := List.exists_cons_of_ne_nil (hfront trivial)
    cases hm : eventHandlersMap event.1 with
    | none => exact ⟨_, _, .findEnd hr he hm⟩
    | some handler => exact ⟨_, _, .find hr he hm⟩
  | call handler =>
    obtain ⟨event, events, he⟩ := List.exists_cons_of_ne_nil (hfront trivial)
    exact ⟨_, _, .call hr he⟩
  | handler => exact ⟨_, _, .handler hr (hh rfl)⟩
  | lock => exact ⟨_, _, .lock hr (hl rfl)⟩
  | popFront =>
    obtain ⟨event, events, he⟩ := List.exists_cons_of_ne_nil (hfront trivial)
    exact ⟨_, _, .popFront hr he⟩
  | unlock => exact ⟨_, _, .unlockRun hr⟩

/-- A run that has the lock unlocks it. -/
theorem run_unlocks (hf : FairSchedule eventHandlersMap es) {n : ℕ}
    (h : (queueAt eventHandlersMap es n).evMtx = some .dispatcher) :
    ∃ m ≥ n, (queueAt eventHandlersMap es m).evMtx = none := by
  have hgo {run : Dispatcher H} {k : ℕ} (hr : (queueAt eventHandlersMap es k).run = some run)
      (hh : run ≠ .handler) (hl : run ≠ .lock) : ∃ m ≥ k,
        (queueAt eventHandlersMap es m).run = some run ∧
          (eventQueue eventHandlersMap).Happens {} es .dispatcher m :=
    hf.dispatcher.happens (P := fun q => q.run = some run) (fun _ hm ha => run_next hm ha)
      (fun m => ⟨m, le_rfl, fun hm =>
        enabled_dispatcher hm (fun h => absurd h hh) fun h => absurd h hl⟩) hr
  have hunlock {k : ℕ} (hr : (queueAt eventHandlersMap es k).run = some .unlock) :
      ∃ m ≥ k, (queueAt eventHandlersMap es m).evMtx = none := by
    obtain ⟨m, hm, hr, he, -⟩ := hgo hr (by simp) (by simp)
    exact ⟨m + 1, by omega, by rw [(queueAt_succ he (.unlockRun hr)).1]⟩
  rcases (sound_at eventHandlersMap es n).dispatcher.mp h with hr | hr
  · obtain ⟨m, hm, hr, he, -⟩ := hgo hr (by simp) (by simp)
    have hl := (sound_at eventHandlersMap es m).front _ hr trivial
    obtain ⟨event, events, hl⟩ := List.exists_cons_of_ne_nil hl
    have hnext := (queueAt_succ he (.popFront hr hl)).1
    obtain ⟨m', hm', hfree⟩ := hunlock (k := m + 1) (by rw [hnext])
    exact ⟨m', by omega, hfree⟩
  · exact hunlock hr

/-- The lock is not held for good. -/
theorem lock_freed (hf : FairSchedule eventHandlersMap es) (n : ℕ) :
    ∃ m ≥ n, (queueAt eventHandlersMap es m).evMtx = none := by
  have hs := sound_at eventHandlersMap es n
  cases hm : (queueAt eventHandlersMap es n).evMtx with
  | none => exact ⟨n, le_rfl, hm⟩
  | some owner =>
    cases owner with
    | addEvent caller =>
      rcases (hs.caller caller).mp hm with ⟨event, hc⟩ | hc
      · obtain ⟨m, hm, -, hc⟩ := call_pushes hf hc
        obtain ⟨m', hm', hfree, -⟩ := call_unlocks hf hc
        exact ⟨m', hm.trans hm', hfree⟩
      · obtain ⟨m, hm, hfree, -⟩ := call_unlocks hf hc
        exact ⟨m, hm, hfree⟩
    | dispatcher => exact run_unlocks hf hm

/-- A run with a front goes on. -/
theorem run_goesOn (hf : FairSchedule eventHandlersMap es) {run : Dispatcher H} {n : ℕ}
    (hr : (queueAt eventHandlersMap es n).run = some run)
    (hl : (queueAt eventHandlersMap es n).eventList ≠ []) :
    ∃ m ≥ n, ((queueAt eventHandlersMap es m).run = some run ∧
      (queueAt eventHandlersMap es m).eventList ≠ []) ∧
        (eventQueue eventHandlersMap).Happens {} es .dispatcher m := by
  refine hf.dispatcher.happens (P := fun q => q.run = some run ∧ q.eventList ≠ [])
    (fun m hm ha => ⟨run_next hm.1 ha, eventList_next hm.2 fun he => absurd he ha⟩)
    (fun k => ?_) ⟨hr, hl⟩
  by_cases hh : run = .handler
  · obtain ⟨m, hm, hc⟩ := call_returns hf none k
    exact ⟨m, hm, fun hr => enabled_dispatcher hr.1 (fun _ => hc) fun h => by cases hh ▸ h⟩
  · obtain ⟨m, hm, hfree⟩ := lock_freed hf k
    exact ⟨m, hm, fun hr => enabled_dispatcher hr.1 (fun h => absurd h hh) fun _ => hfree⟩

/-- Until the time `m` more was taken off the list than until `n`. -/
def MorePopped (eventHandlersMap : K → Option H) (es : ℕ → Action T K D) (n m : ℕ) : Prop :=
  (popped (seenAt eventHandlersMap es n)).length < (popped (seenAt eventHandlersMap es m)).length

theorem popped_le (es : ℕ → Action T K D) {n m : ℕ} (h : n ≤ m) :
    (popped (seenAt eventHandlersMap es n)).length ≤
      (popped (seenAt eventHandlersMap es m)).length :=
  ((Machine.outputsAt_mono _ es h).filterMap _).length_le

theorem MorePopped.of_le {n m k : ℕ} (h : MorePopped eventHandlersMap es m k) (hn : n ≤ m) :
    MorePopped eventHandlersMap es n k :=
  (popped_le es hn).trans_lt h

theorem popFront_pops {n : ℕ} (he : es n = .dispatcher)
    (hr : (queueAt eventHandlersMap es n).run = some .popFront) :
    MorePopped eventHandlersMap es n (n + 1) := by
  have hl := (sound_at eventHandlersMap es n).front _ hr trivial
  obtain ⟨event, events, hl⟩ := List.exists_cons_of_ne_nil hl
  rw [MorePopped, (queueAt_succ he (.popFront hr hl)).2, popped_append]
  simp [popped]

/-- A run with a front takes it off the list. -/
theorem run_pops (hf : FairSchedule eventHandlersMap es) {run : Dispatcher H} {n : ℕ}
    (hr : (queueAt eventHandlersMap es n).run = some run)
    (hl : (queueAt eventHandlersMap es n).eventList ≠ []) :
    ∃ m ≥ n, MorePopped eventHandlersMap es n m := by
  -- Every step of the run comes nearer to `pop_front`.
  generalize hleft : run.left = left
  induction left using Nat.strong_induction_on generalizing run n with
  | _ left ih =>
    obtain ⟨m, hm, ⟨hr', hl'⟩, he, hen⟩ := run_goesOn hf hr hl
    have hnext : queueAt eventHandlersMap es (m + 1) =
        (eventQueue eventHandlersMap).next (queueAt eventHandlersMap es m) .dispatcher := by
      rw [queueAt, Machine.stateAt_succ, he]
    by_cases hp : run = .popFront
    · exact ⟨m + 1, by omega, (popFront_pops he (hp ▸ hr')).of_le hm⟩
    · obtain ⟨run', hrun, hlt, hlist⟩ := left_next hr' hp hl' hen
      rw [← hnext] at hrun hlist
      obtain ⟨k, hk, hmore⟩ := ih _ (hleft ▸ hlt) hrun hlist rfl
      exact ⟨k, by omega, hmore.of_le (by omega)⟩

/-- What is on the list stays there until it is taken off. -/
theorem eventList_lasts {n : ℕ} (h : (queueAt eventHandlersMap es n).eventList ≠ []) {m : ℕ}
    (hm : n ≤ m) :
    (queueAt eventHandlersMap es m).eventList ≠ [] ∨ MorePopped eventHandlersMap es n m := by
  induction m, hm using Nat.le_induction with
  | base => exact .inl h
  | succ m hm ih =>
    rcases ih with hl | hmore
    · by_cases hp : es m = .dispatcher ∧ (queueAt eventHandlersMap es m).run = some .popFront
      · exact .inr ((popFront_pops hp.1 hp.2).of_le hm)
      · left
        rw [queueAt, Machine.stateAt_succ]
        exact eventList_next hl fun he hr => hp ⟨he, hr⟩
    · exact .inr (hmore.trans_le (popped_le es (Nat.le_succ m)))

/-- A posted run takes the front off the list, or the run before it does. -/
theorem posted_pops (hf : FairSchedule eventHandlersMap es) {n : ℕ}
    (hp : 0 < (queueAt eventHandlersMap es n).posted)
    (hl : (queueAt eventHandlersMap es n).eventList ≠ []) :
    ∃ m ≥ n, MorePopped eventHandlersMap es n m := by
  cases hr : (queueAt eventHandlersMap es n).run with
  | some run => exact run_pops hf hr hl
  | none =>
    have hstrand := hf.strand.happens
      (P := fun q => (q.run = none ∧ 0 < q.posted) ∧ q.eventList ≠ [])
      (fun m hm ha => ⟨posted_next hm.1.1 hm.1.2 ha,
        eventList_next hm.2 fun _ h => by cases hm.1.1.symm.trans h⟩)
      (fun m => ⟨m, le_rfl, fun hm => ?_⟩) ⟨⟨hr, hp⟩, hl⟩
    · obtain ⟨m, hm, ⟨⟨hr, hp⟩, hl⟩, he, -⟩ := hstrand
      obtain ⟨k, hk⟩ := Nat.exists_eq_add_of_lt hp
      have hnext := (queueAt_succ he (.strand hr hk)).1
      obtain ⟨k, hk, hmore⟩ := run_pops hf (n := m + 1) (by rw [hnext]) (by rw [hnext]; exact hl)
      exact ⟨k, by omega, hmore.of_le (by omega)⟩
    · obtain ⟨k, hk⟩ := Nat.exists_eq_add_of_lt hm.1.2
      exact enabled_iff.mpr ⟨_, _, .strand hm.1.1 hk⟩

/-- What is on the list is taken off at last. -/
theorem eventList_pops (hf : FairSchedule eventHandlersMap es) {n : ℕ}
    (hl : (queueAt eventHandlersMap es n).eventList ≠ []) :
    ∃ m ≥ n, MorePopped eventHandlersMap es n m := by
  have hposted {caller : Option T} {k : ℕ} (hk : n ≤ k)
      (hc : (queueAt eventHandlersMap es k).calls caller = some .post) :
      ∃ m ≥ n, MorePopped eventHandlersMap es n m := by
    obtain ⟨m, hm, hp, -⟩ := call_posts hf hc
    rcases eventList_lasts hl (hk.trans hm) with hl' | hmore
    · obtain ⟨k', hk', hmore⟩ := posted_pops hf hp hl'
      exact ⟨k', by omega, hmore.of_le (by omega)⟩
    · exact ⟨m, by omega, hmore⟩
  rcases (sound_at eventHandlersMap es n).waiting hl with hr | hp | ⟨caller, hc | hc⟩
  · obtain ⟨run, hr⟩ := Option.ne_none_iff_exists'.mp hr
    exact run_pops hf hr hl
  · exact posted_pops hf hp hl
  · obtain ⟨m, hm, -, hc⟩ := call_unlocks hf hc
    exact hposted hm hc
  · exact hposted le_rfl hc

omit [DecidableEq T] in
theorem exists_of_pushing (h : q.pushing ≠ []) :
    ∃ caller event, q.calls caller = some (.pushBack event) := by
  unfold Queue.pushing at h
  split at h
  · split at h
    · next hc => exact ⟨_, _, hc⟩
    · exact absurd rfl h
  · exact absurd rfl h

variable (eventHandlersMap) in
theorem added_mono (es : ℕ → Action T K D) {n m : ℕ} (h : n ≤ m) :
    added (seenAt eventHandlersMap es n) <+: added (seenAt eventHandlersMap es m) :=
  (Machine.outputsAt_mono _ es h).filterMap _

/-- An event that was added is taken off at last. -/
theorem added_pops (hf : FairSchedule eventHandlersMap es) {n : ℕ}
    (h : (popped (seenAt eventHandlersMap es n)).length <
      (added (seenAt eventHandlersMap es n)).length) :
    ∃ m ≥ n, MorePopped eventHandlersMap es n m := by
  have hs := sound_at eventHandlersMap es n
  by_cases hl : (queueAt eventHandlersMap es n).eventList = []
  · have hpush : (queueAt eventHandlersMap es n).pushing ≠ [] := by
      intro hpush
      rw [hs.added_eq, hl, hpush, List.append_nil, List.append_nil] at h
      exact lt_irrefl _ h
    obtain ⟨caller, event, hc⟩ := exists_of_pushing hpush
    obtain ⟨m, hm, hl, -⟩ := call_pushes hf hc
    obtain ⟨k, hk, hmore⟩ := eventList_pops hf hl
    exact ⟨k, by omega, hmore.of_le hm⟩
  · exact eventList_pops hf hl

/-- So all that were added are taken off. -/
theorem all_popped (hf : FairSchedule eventHandlersMap es) (n : ℕ) {k : ℕ}
    (hk : k ≤ (added (seenAt eventHandlersMap es n)).length) :
    ∃ m ≥ n, k ≤ (popped (seenAt eventHandlersMap es m)).length := by
  induction k with
  | zero => exact ⟨n, le_rfl, Nat.zero_le _⟩
  | succ k ih =>
    obtain ⟨m, hm, hpop⟩ := ih (by omega)
    by_cases hlt : k < (popped (seenAt eventHandlersMap es m)).length
    · exact ⟨m, hm, hlt⟩
    · have hadded := (added_mono eventHandlersMap es hm).length_le
      obtain ⟨m', hm', hmore⟩ := added_pops hf (n := m) (by omega)
      exact ⟨m', by omega, by unfold MorePopped at hmore; omega⟩

/-- At rest nothing goes on by itself. -/
theorem Queue.Rests.not_enabled (h : q.Rests) (ha : ∀ caller event, a ≠ .addEvent caller event) :
    ¬(eventQueue eventHandlersMap).Enabled q a := by
  rw [enabled_iff]
  rintro ⟨q', os, hm⟩
  cases hm with
  | addEvent => exact ha _ _ rfl
  | pushBack hc | unlock hc | post hc => cases (h.calls _).symm.trans hc
  | strand _ hp => cases h.posted.symm.trans hp
  | size hr _ | sizeZero hr _ | find hr _ _ | findEnd hr _ _ | call hr _ | handler hr _
  | lock hr _ | popFront hr _ | unlockRun hr => cases h.run.symm.trans hr

/-- A run that has come to rest is fair. -/
theorem fairSchedule_of_rests {l : List (Action T K D)}
    (h : ((eventQueue eventHandlersMap).run {} l).Rests) :
    FairSchedule eventHandlersMap fun n => l.getD n .strand := by
  have hstay : (eventQueue eventHandlersMap).next ((eventQueue eventHandlersMap).run {} l)
      .strand = (eventQueue eventHandlersMap).run {} l :=
    not_not.mp (h.not_enabled (by simp))
  have hend (a : Action T K D) (ha : ∀ caller event, a ≠ .addEvent caller event) :
      (eventQueue eventHandlersMap).Fair {} (fun n => l.getD n .strand) a :=
    .of_disabled l.length fun n hn => by
      rw [Machine.stateAt_getD hstay hn]
      exact h.not_enabled ha
  exact ⟨fun caller => hend _ (by simp), hend _ (by simp), hend _ (by simp)⟩

/-- In any interleaving the events that have a handler are passed to it in the order in which
their calls of `add_event` took the lock, none twice, and none is missing when everything has
come to rest. Whenever an event is on the list a run of `dispatcher` is active or posted, or a
call that has appended has yet to post one. If the schedule is fair no event waits for ever. -/
theorem delivers (eventHandlersMap : K → Option H) :
    (∀ es : List (Action T K D),
      let q := (eventQueue eventHandlersMap).run {} es
      let os := (eventQueue eventHandlersMap).emitted {} es
      handled os <+: deliveries eventHandlersMap (added os) ∧
        (q.eventList ≠ [] → q.run ≠ none ∨ 0 < q.posted ∨
          ∃ caller, q.calls caller = some .unlock ∨ q.calls caller = some .post) ∧
        (q.Rests → handled os = deliveries eventHandlersMap (added os))) ∧
    ∀ es : ℕ → Action T K D, FairSchedule eventHandlersMap es → ∀ n, ∃ m ≥ n,
      deliveries eventHandlersMap (added (seenAt eventHandlersMap es n)) <+:
        handled (seenAt eventHandlersMap es m) := by
  constructor
  · intro es q os
    have hs : Sound eventHandlersMap q os := sound_run es
    exact ⟨hs.handled_isPrefix, hs.waiting, hs.handled_of_rests⟩
  · intro es hf n
    obtain ⟨m, hm, hlen⟩ := all_popped hf n le_rfl
    have hs := sound_at eventHandlersMap es m
    have hpre : added (seenAt eventHandlersMap es n) <+: popped (seenAt eventHandlersMap es m) :=
      List.prefix_of_prefix_length_le (added_mono eventHandlersMap es hm) hs.popped_isPrefix hlen
    exact ⟨m, hm, (hpre.filterMap _).trans hs.prefix_handled⟩

/-- One thread adds an event, whose handler adds another one. -/
def addTwo : List (Action Unit Bool ℕ) :=
  [.addEvent (some ()) (true, 1), .goOn (some ()), .goOn (some ()), .goOn (some ()), .strand,
    .dispatcher, .dispatcher, .dispatcher, .addEvent none (false, 2), .goOn none, .goOn none,
    .goOn none] ++ List.replicate 12 .dispatcher ++ [.strand, .dispatcher]

theorem delivers_addTwo : ∃ m ≥ 20, [(true, 1), (false, 2)] <+:
    handled (seenAt (fun k => some k) (fun n => addTwo.getD n .strand) m) := by
  have hrests : ((eventQueue fun k => some k).run {} addTwo).Rests :=
    ⟨fun caller => by cases caller <;> rfl, rfl, rfl⟩
  exact (delivers fun k => some k).2 _ (fairSchedule_of_rests hrests) 20

/-- Between the lock and the post of a call the list is not empty and no run is posted. -/
theorem not_posted_between : ¬∀ es : List (Action Unit Bool ℕ),
    let q := (eventQueue fun k => some k).run {} es
    q.eventList ≠ [] → q.run ≠ none ∨ 0 < q.posted := by
  intro h
  have hq := h [.addEvent (some ()) (true, 1), .goOn (some ()), .goOn (some ())] (by decide)
  revert hq
  decide

end BotTrader.Application
