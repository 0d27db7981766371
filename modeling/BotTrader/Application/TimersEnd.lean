import BotTrader.Application.Timers

/-! Timers that are stopped or deleted. Neither recalls a handler that is queued without an error
code: the function of a stopped timer is still called for it, and on a deleted timer it runs on an
object that is gone. Nothing else is left of the waits. -/

namespace BotTrader.Application.TimerMap

open Automata

variable {φ : Type} {t : TimerMap φ} {id j : ℕ}

/-! ### Stopped timers -/

/-- The commands that an event gives. -/
def Event.commands : Event φ → List (Command φ)
  | .command c => [c]
  | .expire _ => []
  | .handle _ cmds _ => cmds

/-- The command starts a timer of one of these names. -/
def Command.Starts (names : String → Prop) : Command φ → Prop
  | .start n _ _ => names n
  | _ => False

/-- From `t` to `t'` nothing begins a wait of the object, and its mode stays. -/
structure Idles (id : ℕ) (t : TimerMap φ) (r : TimerMap φ × List (Out φ)) : Prop where
  begun : total (Out.begun id) r.2 = 0
  mode : ∀ x', r.1.objects id = some x' → ∃ x, t.objects id = some x ∧ x'.periodic = x.periodic

theorem idles_rfl : Idles id t (t, []) := ⟨rfl, fun x hx => ⟨x, hx, rfl⟩⟩

theorem Idles.append {r r' : TimerMap φ × List (Out φ)} (h : Idles id t r) (h' : Idles id r.1 r') :
    Idles id t (r'.1, r.2 ++ r'.2) := by
  refine ⟨by rw [total_append, h.begun, h'.begun], fun x' hx' => ?_⟩
  obtain ⟨y, hy, hmode⟩ := h'.mode x' hx'
  obtain ⟨x, hx, hmode'⟩ := h.mode y hy
  exact ⟨x, hx, hmode.trans hmode'⟩

theorem idles_cancel (t : TimerMap φ) (j : ℕ) : Idles id t (t.cancel j) := by
  unfold cancel
  cases hx : t.objects j with
  | none => exact idles_rfl
  | some x =>
    refine ⟨by simp [Out.begun], fun x' hx' => ?_⟩
    by_cases h : id = j
    · subst h
      obtain rfl : { x with waiting := 0 } = x' := by simpa using hx'
      exact ⟨x, hx, rfl⟩
    · rw [put_objects, Function.update_of_ne h] at hx'
      exact ⟨x', hx', rfl⟩

theorem idles_run (h : id ≠ j) (again : Bool) : Idles id t (t.run j again) := by
  unfold run
  cases hx : t.objects j with
  | none => exact idles_rfl
  | some x =>
    refine ⟨by cases again <;> simp [Out.begun, Ne.symm h], fun x' hx' => ?_⟩
    rw [put_objects, Function.update_of_ne h] at hx'
    exact ⟨x', hx', rfl⟩

theorem idles_startObject (h : id ≠ j) (interval : ℤ) (periodic : Bool) :
    Idles id t (t.startObject j interval periodic) := by
  unfold startObject
  cases hx : t.objects j with
  | none => exact idles_rfl
  | some x =>
    have hrun := idles_run (t := t.put j (some { x with interval := interval, periodic := periodic })
      []) h false
    refine ⟨hrun.begun, fun x' hx' => ?_⟩
    obtain ⟨y, hy, hmode⟩ := hrun.mode x' hx'
    rw [put_objects, Function.update_of_ne h] at hy
    exact ⟨y, hy, hmode⟩

/-- The object can only be reached under these names, and is not a new one. -/
structure Only (ns : String → Prop) (id : ℕ) (t : TimerMap φ) : Prop where
  wellFormed : t.WellFormed
  names : ∀ n, t.names n = some id → ns n
  known : id < t.fresh

variable {ns : String → Prop} {name : String}

@[simp] theorem fresh_cancel (t : TimerMap φ) (id : ℕ) : (t.cancel id).1.fresh = t.fresh := by
  unfold cancel
  cases t.objects id <;> rfl

@[simp] theorem fresh_run (t : TimerMap φ) (id : ℕ) (again : Bool) :
    (t.run id again).1.fresh = t.fresh := by
  unfold run
  cases t.objects id <;> rfl

@[simp] theorem names_run (t : TimerMap φ) (id : ℕ) (again : Bool) :
    (t.run id again).1.names = t.names := by
  unfold run
  cases t.objects id <;> rfl

@[simp] theorem names_startObject (t : TimerMap φ) (id : ℕ) (interval : ℤ) (periodic : Bool) :
    (t.startObject id interval periodic).1.names = t.names := by
  unfold startObject
  cases t.objects id <;> simp

@[simp] theorem fresh_startObject (t : TimerMap φ) (id : ℕ) (interval : ℤ) (periodic : Bool) :
    (t.startObject id interval periodic).1.fresh = t.fresh := by
  unfold startObject
  cases t.objects id <;> simp

theorem fresh_perform_le (t : TimerMap φ) (c : Command φ) : t.fresh ≤ (t.perform c).1.fresh := by
  cases c with
  | add m func => cases h : t.names m <;> simp [perform, h]
  | del m => cases h : t.names m <;> simp [perform, h]
  | start m interval periodic => cases h : t.names m <;> simp [perform, h]
  | stop m => cases h : t.names m <;> simp [perform, h]

/-- A command gives a name to new objects only. -/
theorem names_perform {n : String} (hid : id < t.fresh) (c : Command φ)
    (hn : (t.perform c).1.names n = some id) : t.names n = some id := by
  cases c with
  | add m func =>
    cases h : t.names m with
    | some k => simpa [perform, h] using hn
    | none =>
      simp only [perform, h, emplace_names, Function.update_apply] at hn
      split at hn
      · have := Option.some.inj hn
        omega
      · exact hn
  | del m =>
    cases h : t.names m with
    | none => simpa [perform, h] using hn
    | some k =>
      simp only [perform, h, erase_names, names_cancel, Function.update_apply] at hn
      split at hn
      · cases hn
      · exact hn
  | start m interval periodic => cases h : t.names m <;> simpa [perform, h] using hn
  | stop m => cases h : t.names m <;> simpa [perform, h] using hn

theorem only_perform (h : Only ns id t) (c : Command φ) : Only ns id (t.perform c).1 :=
  ⟨wellFormed_perform h.wellFormed c, fun n hn => h.names n (names_perform h.known c hn),
    h.known.trans_le (fresh_perform_le t c)⟩

theorem idles_perform (h : Only ns id t) {c : Command φ} (hc : ¬c.Starts ns) :
    Idles id t (t.perform c) := by
  cases c with
  | add m func =>
    simp only [perform]
    cases hm : t.names m with
    | some k => exact idles_rfl
    | none =>
      refine ⟨rfl, fun x' hx' => ⟨x', ?_, rfl⟩⟩
      rwa [emplace_objects, Function.update_of_ne h.known.ne] at hx'
  | del m =>
    simp only [perform]
    cases hm : t.names m with
    | none => exact idles_rfl
    | some k =>
      have hidles : Idles id t (t.cancel k) := idles_cancel t k
      obtain ⟨hb, hmode⟩ := hidles
      refine ⟨hb, fun x' hx' => hmode x' ?_⟩
      by_cases hk : id = k
      · simp [hk] at hx'
      · rwa [erase_objects, Function.update_of_ne hk] at hx'
  | start m interval periodic =>
    simp only [perform]
    cases hm : t.names m with
    | none => exact idles_rfl
    | some k =>
      refine idles_startObject ?_ interval periodic
      rintro rfl
      exact hc (h.names m hm)
  | stop m =>
    simp only [perform]
    cases hm : t.names m with
    | none => exact idles_rfl
    | some k => exact idles_cancel t k

theorem performs_of_only (h : Only ns id t) {cs : List (Command φ)}
    (hcs : ∀ c ∈ cs, ¬c.Starts ns) :
    Only ns id (t.performs cs).1 ∧ Idles id t (t.performs cs) := by
  induction cs generalizing t with
  | nil => exact ⟨h, idles_rfl⟩
  | cons c cs ih =>
    rw [List.forall_mem_cons] at hcs
    obtain ⟨honly, hidles⟩ := ih (only_perform h c) hcs.2
    exact ⟨honly, (idles_perform h hcs.1).append hidles⟩

/-- The object has no wait left, or is not periodic. -/
structure Stopped (ns : String → Prop) (id : ℕ) (t : TimerMap φ) : Prop extends Only ns id t where
  rest : t.waits id = 0 ∨ ∀ x, t.objects id = some x → x.periodic = false

/-- What idles stays stopped. -/
theorem Stopped.idles {r : TimerMap φ × List (Out φ)} (h : Stopped ns id t)
    (ho : Only ns id r.1) (hi : Idles id t r) (hb : Balanced id t r) : Stopped ns id r.1 := by
  refine ⟨ho, h.rest.imp (fun hw => ?_) fun hp x' hx' => ?_⟩
  · have hb' := hb
    rw [Balanced, hi.begun] at hb'
    omega
  · obtain ⟨x, hx, hmode⟩ := hi.mode x' hx'
    rw [hmode, hp x hx]

theorem only_again (h : Only ns id t) (j : ℕ) : Only ns id (t.again j).1 := by
  refine ⟨wellFormed_again h.wellFormed j, ?_, ?_⟩
  · intro n hn
    refine h.names n ?_
    unfold again at hn
    cases hx : t.objects j with
    | none => simpa [hx] using hn
    | some x => cases hp : x.periodic <;> simpa [hx, hp] using hn
  · unfold again
    cases t.objects j with
    | none => exact h.known
    | some x => cases hp : x.periodic <;> simpa [hp] using h.known

/-- The function of a stopped timer does not begin another wait. -/
theorem idles_again (h : j = id → ∀ x, t.objects id = some x → x.periodic = false) :
    Idles id t (t.again j) := by
  unfold again
  cases hx : t.objects j with
  | none => exact ⟨rfl, fun x hx => ⟨x, hx, rfl⟩⟩
  | some x =>
    simp only
    split
    · next hp =>
      refine idles_run ?_ true
      rintro rfl
      simp [h rfl x hx] at hp
    · exact idles_rfl

/-- A queued handler of an object that may still call is one of its waits. -/
theorem waits_pos_of_queued {i : ℕ} (h : t.queue[i]? = some ⟨id, false⟩) : 0 < t.waits id := by
  have hc : 0 < t.queue.count ⟨id, false⟩ := List.count_pos_iff.mpr (List.mem_of_getElem? h)
  exact Nat.add_pos_right _ hc

theorem stopped_step (h : Stopped ns id t) {e : Event φ}
    (he : ∀ c ∈ e.commands, ¬c.Starts ns) :
    Stopped ns id (t.step e).1 ∧ total (Out.begun id) (t.step e).2 = 0 := by
  suffices Only ns id (t.step e).1 ∧ Idles id t (t.step e) from
    ⟨h.idles this.1 this.2 (balanced_step h.wellFormed e), this.2.begun⟩
  cases e with
  | command c =>
    exact ⟨only_perform h.toOnly c, idles_perform h.toOnly (he c (by simp [Event.commands]))⟩
  | expire j =>
    refine ⟨⟨wellFormed_expire h.wellFormed j, ?_, ?_⟩, rfl, fun x' hx' => ?_⟩
    · intro n hn
      refine h.names n ?_
      simp only [step, expire] at hn
      cases hx : t.objects j <;> simpa [hx] using hn
    · simp only [step, expire]
      cases t.objects j <;> exact h.known
    · simp only [step, expire] at hx'
      cases hx : t.objects j with
      | none =>
        rw [hx] at hx'
        exact ⟨x', hx', rfl⟩
      | some x =>
        simp only [hx, put_objects, Function.update_apply] at hx'
        split at hx'
        · next hj =>
          subst hj
          exact ⟨x, hx, by rw [← Option.some.inj hx']⟩
        · exact ⟨x', hx', rfl⟩
  | handle i cmds raises =>
    simp only [step]
    cases hq : t.queue[i]? with
    | none => exact ⟨h.toOnly, idles_rfl⟩
    | some q =>
      have honly : Only ns id ({ t with queue := t.queue.eraseIdx i } : TimerMap φ) :=
        ⟨wellFormed_queue h.wellFormed _, h.names, h.known⟩
      have hcmds : ∀ c ∈ cmds, ¬c.Starts ns := he
      obtain ⟨hp, hidles⟩ := performs_of_only honly hcmds
      have hmode : q.aborted = false → q.id = id → ∀ x,
          (({ t with queue := t.queue.eraseIdx i } : TimerMap φ).performs cmds).1.objects id =
            some x → x.periodic = false := by
        intro ha hj x' hx'
        have hq' : q = ⟨id, false⟩ := by rw [← ha, ← hj]
        obtain ⟨x, hx, hmode⟩ := hidles.mode x' hx'
        have hpos := waits_pos_of_queued (hq' ▸ hq)
        rw [hmode, h.rest.resolve_left (by omega) x hx]
      simp only [timeout]
      split
      · exact ⟨honly, rfl, fun x hx => ⟨x, hx, rfl⟩⟩
      next ha =>
        cases hx : t.objects q.id with
        | none => exact ⟨honly, rfl, fun x hx => ⟨x, hx, rfl⟩⟩
        | some x =>
          simp only
          split
          · exact ⟨hp, by simpa [Out.begun] using hidles.begun, hidles.mode⟩
          · have hagain := hidles.append (idles_again (hmode (by simpa using ha)))
            exact ⟨only_again hp q.id, by simpa [Out.begun] using hagain.begun, hagain.mode⟩

/-- From a stopped timer on, only the waits that are left can end. -/
theorem ended_of_stopped (h : Stopped ns id t) {es : List (Event φ)}
    (he : ∀ e ∈ es, ∀ c ∈ e.commands, ¬c.Starts ns) :
    total (Out.ended id) ((timers φ).emitted t es) ≤ t.waits id := by
  have hbegun : total (Out.begun id) ((timers φ).emitted t es) = 0 := by
    induction es generalizing t with
    | nil => rfl
    | cons e es ih =>
      rw [List.forall_mem_cons] at he
      obtain ⟨hnext, hzero⟩ := stopped_step h he.1
      rw [Machine.emitted_cons, total_append]
      exact Nat.add_eq_zero_iff.mpr ⟨hzero, ih hnext he.2⟩
  have hb := Machine.run_balance (M := timers φ) (P := fun _ _ => True) WellFormed
    (fun t => t.waits id) (Out.begun id) (Out.ended id) (fun _ e ht _ => wellFormed_step ht e)
    (fun _ e ht _ => balanced_step ht e) h.wellFormed
    (Machine.along_of_forall _ (fun _ _ => trivial) _ es)
  omega

/-- After a cancellation only queued handlers are left of the waits. -/
theorem waits_cancel (h : t.objects id ≠ none) :
    (t.cancel id).1.waits id = t.queue.count ⟨id, false⟩ := by
  unfold cancel
  cases hx : t.objects id with
  | none => exact absurd hx h
  | some x =>
    rw [waits_put_self]
    simp

theorem known_of_named (hwf : t.WellFormed) (hn : t.names name = some id) : id < t.fresh := by
  have hf := hwf.fresh id
  by_contra hlt
  exact hwf.named name id hn (hf (by omega))

/-- How often the function of the object was called. -/
def Out.calls (id : ℕ) : Out φ → ℕ
  | .called j _ => if j = id then 1 else 0
  | _ => 0

theorem calls_le_ended (id : ℕ) (os : List (Out φ)) :
    total (Out.calls id) os ≤ total (Out.ended id) os := by
  induction os with
  | nil => exact Nat.le_refl _
  | cons o os ih =>
    rw [total_cons, total_cons]
    cases o <;> simp only [Out.calls, Out.ended] <;> omega

/-- When a timer is stopped, outside of the handlers of timers, its function is called at most as
often as handlers of it are queued then, until it is started again; provided that it is not
periodic, or none is queued. A periodic timer that its own function stops goes on. -/
theorem calls_after_stop {es es' : List (Event φ)}
    (hn : ((timers φ).run {} es).names name = some id)
    (hq : ((timers φ).run {} es).queue.count ⟨id, false⟩ = 0 ∨
      ∀ x, ((timers φ).run {} es).objects id = some x → x.periodic = false)
    (he : ∀ e ∈ es', ∀ c ∈ e.commands, ¬c.Starts (· = name)) :
    total (Out.calls id)
        ((timers φ).emitted ((timers φ).run {} es) (.command (.stop name) :: es')) ≤
      ((timers φ).run {} es).queue.count ⟨id, false⟩ := by
  have hwf := wellFormed_run_of (wellFormed_empty (φ := φ)) es
  generalize (timers φ).run {} es = t at *
  have honly : Only (· = name) id t :=
    ⟨hwf, fun n h => hwf.unique n name id h hn, known_of_named hwf hn⟩
  have hstep : t.step (.command (.stop name)) = t.cancel id := by simp [step, perform, hn]
  have hwaits := waits_cancel (hwf.named name id hn)
  have hstop : Stopped (· = name) id (t.cancel id).1 := by
    refine ⟨hstep ▸ only_perform honly (.stop name), ?_⟩
    rw [hwaits]
    refine hq.imp_right fun hp x' hx' => ?_
    obtain ⟨x, hx, hmode⟩ := (idles_cancel t id).mode x' hx'
    rw [hmode, hp x hx]
  have hended := ended_of_stopped hstop he
  have hcalls := calls_le_ended id ((timers φ).emitted (t.cancel id).1 es')
  have hout : total (Out.calls id) (t.cancel id).2 = 0 := by
    unfold cancel
    cases t.objects id <;> simp [Out.calls]
  show total (Out.calls id) ((t.step _).2 ++ (timers φ).emitted (t.step _).1 es') ≤ _
  rw [hstep, total_append, hout]
  omega

/-! ### Deleted timers -/

/-- A timer is started, and its deadline is reached. -/
def ranOut : List (Event Unit) :=
  [.command (.add "compl" ()), .command (.start "compl" 5 false), .expire 0]

theorem calls_after_stop_ranOut :
    ((timers Unit).run {} ranOut).names "compl" = some 0 ∧
      total (Out.calls 0) ((timers Unit).emitted ((timers Unit).run {} ranOut)
        [.command (.stop "compl"), .handle 0 [] false]) ≤ 1 := by
  have hn : ((timers Unit).run {} ranOut).names "compl" = some 0 := by decide
  refine ⟨hn, calls_after_stop hn (.inr fun x hx => ?_) ?_⟩
  · obtain rfl : { func := (), interval := 5, waiting := 0 } = x := by
      simpa [ranOut, timers, step, perform, startObject, run, expire] using hx
    rfl
  · simp [Event.commands]

end BotTrader.Application.TimerMap
