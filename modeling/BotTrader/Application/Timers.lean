import Mathlib.Logic.Function.Basic
import Mathlib.Tactic.Simps.Basic
import BotTrader.Automata.Balance

/-! The timers of the script. A timer is an object with a deadline timer of Asio; the map knows
it by a name, and its handlers are queued with the object, not with the name. A cancelled wait
has its handler queued too, with an error code. What a timer calls may use the map itself. -/

namespace BotTrader.Application

open Automata

/-- `Timer` -/
structure Timer (φ : Type) where
  func : φ
  interval : ℤ := 0
  periodic : Bool := false
  /-- Waits on the deadline timer that are pending. -/
  waiting : ℕ := 0

/-- A queued handler: of which object, and whether with an error code. -/
structure Queued where
  id : ℕ
  aborted : Bool
  deriving DecidableEq

/-- `TimerMap`, the objects and the queue of their handlers. -/
structure TimerMap (φ : Type) where
  names : String → Option ℕ := fun _ => none
  objects : ℕ → Option (Timer φ) := fun _ => none
  fresh : ℕ := 0
  queue : List Queued := []

namespace TimerMap

/-- What can be asked of the map. -/
inductive Command (φ : Type) where
  | add (name : String) (func : φ)
  | del (name : String)
  | start (name : String) (interval : ℤ) (periodic : Bool)
  | stop (name : String)

/-- What becomes of waits and objects. -/
inductive Out (φ : Type) where
  /-- A start began a wait. -/
  | armed (id : ℕ)
  /-- A periodic timer began its next wait. -/
  | rearmed (id : ℕ)
  /-- A wait was cancelled. -/
  | cancelled (id : ℕ)
  /-- The function of the timer was called. -/
  | called (id : ℕ) (func : φ)
  /-- A handler without an error code ran on a deleted object. -/
  | stray (id : ℕ)
  /-- The object was deleted while its function ran. -/
  | gone (id : ℕ)

variable {φ : Type}

/-- A new state of an object, and handlers queued. -/
@[simps -fullyApplied] def put (t : TimerMap φ) (id : ℕ) (x : Option (Timer φ))
    (handlers : List Queued) : TimerMap φ :=
  { t with objects := Function.update t.objects id x, queue := t.queue ++ handlers }

/-- `cancel` of the deadline timer -/
def cancel (t : TimerMap φ) (id : ℕ) : TimerMap φ × List (Out φ) :=
  match t.objects id with
  | none => (t, [])
  | some x => (t.put id (some { x with waiting := 0 }) (List.replicate x.waiting ⟨id, true⟩),
      List.replicate x.waiting (.cancelled id))

/-- `run`, called by `start` or again by `timeout`: `expires_from_now` cancels what is
pending. -/
def run (t : TimerMap φ) (id : ℕ) (again : Bool) : TimerMap φ × List (Out φ) :=
  match t.objects id with
  | none => (t, [])
  | some x => (t.put id (some { x with waiting := 1 }) (List.replicate x.waiting ⟨id, true⟩),
      List.replicate x.waiting (.cancelled id) ++ [if again then .rearmed id else .armed id])

/-- `start` of a timer -/
def startObject (t : TimerMap φ) (id : ℕ) (interval : ℤ) (periodic : Bool) :
    TimerMap φ × List (Out φ) :=
  match t.objects id with
  | none => (t, [])
  | some x => (t.put id (some { x with interval := interval, periodic := periodic }) []).run id
      false

/-- A new timer under a new name. -/
@[simps -fullyApplied] def emplace (t : TimerMap φ) (name : String) (func : φ) : TimerMap φ :=
  { t with
    names := Function.update t.names name (some t.fresh)
    objects := Function.update t.objects t.fresh (some { func := func })
    fresh := t.fresh + 1 }

/-- The name goes, and with it the object. -/
@[simps -fullyApplied] def erase (t : TimerMap φ) (name : String) (id : ℕ) : TimerMap φ :=
  { t with
    names := Function.update t.names name none
    objects := Function.update t.objects id none }

/-- `add_timer`, `del_timer`, `start_timer`, `stop_timer`. A second timer of a name is dropped. -/
def perform (t : TimerMap φ) : Command φ → TimerMap φ × List (Out φ)
  | .add name func => match t.names name with
    | some _ => (t, [])
    | none => (t.emplace name func, [])
  | .del name => match t.names name with
    | none => (t, [])
    | some id => ((t.cancel id).1.erase name id, (t.cancel id).2)
  | .start name interval periodic => match t.names name with
    | none => (t, [])
    | some id => t.startObject id interval periodic
  | .stop name => match t.names name with
    | none => (t, [])
    | some id => t.cancel id

/-- Commands one after the other. -/
def performs : TimerMap φ → List (Command φ) → TimerMap φ × List (Out φ)
  | t, [] => (t, [])
  | t, c :: cs => ((t.perform c).1.performs cs |>.1, (t.perform c).2 ++ ((t.perform c).1.performs cs).2)

/-- What happens to the map: a command from outside, a deadline that is reached, or a queued
handler that runs, whose function gives commands of its own and may raise. -/
inductive Event (φ : Type) where
  | command (c : Command φ)
  | expire (id : ℕ)
  | handle (i : ℕ) (cmds : List (Command φ)) (raises : Bool)

/-- The deadline is reached: all waits of the object have their handlers queued. -/
def expire (t : TimerMap φ) (id : ℕ) : TimerMap φ :=
  match t.objects id with
  | none => t
  | some x => t.put id (some { x with waiting := 0 }) (List.replicate x.waiting ⟨id, false⟩)

/-- `timeout` after its function: `m_periodic` is read then. -/
def again (t : TimerMap φ) (id : ℕ) : TimerMap φ × List (Out φ) :=
  match t.objects id with
  | none => (t, [.gone id])
  | some x => if x.periodic then t.run id true else (t, [])

/-- `timeout`, without its handler in the queue -/
def timeout (t : TimerMap φ) (h : Queued) (cmds : List (Command φ)) (raises : Bool) :
    TimerMap φ × List (Out φ) :=
  if h.aborted then (t, [])
  else match t.objects h.id with
    | none => (t, [.stray h.id])
    | some x =>
      let (t, out) := t.performs cmds
      if raises then (t, .called h.id x.func :: out)
      else ((t.again h.id).1, .called h.id x.func :: (out ++ (t.again h.id).2))

def step (t : TimerMap φ) : Event φ → TimerMap φ × List (Out φ)
  | .command c => t.perform c
  | .expire id => (t.expire id, [])
  | .handle i cmds raises => match t.queue[i]? with
    | none => (t, [])
    | some h => { t with queue := t.queue.eraseIdx i }.timeout h cmds raises

/-- The timers under commands, deadlines and handlers in any order. -/
def timers (φ : Type) : Machine (TimerMap φ) (Event φ) (Out φ) where
  next t e := (t.step e).1
  emit t e := (t.step e).2

/-! ### What becomes of a wait -/

/-- Waits of the object that can still call its function. -/
def waits (t : TimerMap φ) (id : ℕ) : ℕ :=
  (t.objects id).elim 0 Timer.waiting + t.queue.count ⟨id, false⟩

def Out.begun (id : ℕ) : Out φ → ℕ
  | .armed j | .rearmed j => if j = id then 1 else 0
  | _ => 0

def Out.ended (id : ℕ) : Out φ → ℕ
  | .cancelled j | .called j _ | .stray j => if j = id then 1 else 0
  | _ => 0

/-- The waits that were there and those begun are those that ended and those that are left. -/
def Balanced (id : ℕ) (t : TimerMap φ) (r : TimerMap φ × List (Out φ)) : Prop :=
  t.waits id + total (Out.begun id) r.2 = total (Out.ended id) r.2 + r.1.waits id

variable {t : TimerMap φ} {id j : ℕ}

theorem balanced_rfl : Balanced id t (t, []) := by simp [Balanced]

theorem Balanced.append {r r' : TimerMap φ × List (Out φ)} (h : Balanced id t r)
    (h' : Balanced id r.1 r') : Balanced id t (r'.1, r.2 ++ r'.2) := by
  simp only [Balanced, total_append] at h h' ⊢
  omega

theorem waits_put_self (t : TimerMap φ) (id : ℕ) (x : Option (Timer φ)) (n : ℕ) (b : Bool) :
    (t.put id x (List.replicate n ⟨id, b⟩)).waits id =
      x.elim 0 Timer.waiting + (t.queue.count ⟨id, false⟩ + if b then 0 else n) := by
  cases b <;> simp [waits, put, List.count_replicate]

theorem waits_put_of_ne (h : id ≠ j) (x : Option (Timer φ)) (n : ℕ) (b : Bool) :
    (t.put id x (List.replicate n ⟨id, b⟩)).waits j = t.waits j := by
  have hq : (List.replicate n (⟨id, b⟩ : Queued)).count ⟨j, false⟩ = 0 := by
    simp [List.count_replicate, h]
  simp [waits, put, Function.update_of_ne h.symm, hq]

theorem balanced_cancel (t : TimerMap φ) (id : ℕ) : Balanced j t (t.cancel id) := by
  unfold cancel
  cases hx : t.objects id with
  | none => exact balanced_rfl
  | some x =>
    by_cases h : id = j
    · subst h
      have hw := waits_put_self t id (some { x with waiting := 0 }) x.waiting true
      simp only [Balanced, hw, total_replicate]
      simp [waits, hx, Out.begun, Out.ended]
    · simp only [Balanced, waits_put_of_ne h, total_replicate]
      simp [Out.begun, Out.ended, h]

theorem balanced_run {x : Timer φ} (hx : t.objects id = some x) (again : Bool) :
    Balanced j t (t.run id again) := by
  simp only [run, hx]
  by_cases h : id = j
  · subst h
    have hw := waits_put_self t id (some { x with waiting := 1 }) x.waiting true
    simp only [Balanced, hw, total_append, total_replicate]
    cases again <;> simp [waits, hx, Out.begun, Out.ended] <;> omega
  · simp only [Balanced, waits_put_of_ne h, total_append, total_replicate]
    cases again <;> simp [Out.begun, Out.ended, h]

theorem balanced_startObject (interval : ℤ) (periodic : Bool) :
    Balanced j t (t.startObject id interval periodic) := by
  unfold startObject
  cases hx : t.objects id with
  | none => exact balanced_rfl
  | some x =>
    have hput : (t.put id (some { x with interval := interval, periodic := periodic }) []).waits j =
        t.waits j := by
      by_cases h : id = j
      · subst h
        simp [waits, put, hx]
      · simp [waits, put, Function.update_of_ne (Ne.symm h)]
    have hself : (t.put id (some { x with interval := interval, periodic := periodic }) []).objects
        id = some { x with interval := interval, periodic := periodic } := by simp [put]
    have hrun := balanced_run (j := j) hself false
    rwa [Balanced, hput] at hrun

theorem balanced_perform (t : TimerMap φ) (c : Command φ) (hf : t.objects t.fresh = none) :
    Balanced j t (t.perform c) := by
  cases c with
  | add name func =>
    simp only [perform]
    cases t.names name with
    | some id => exact balanced_rfl
    | none =>
      by_cases h : t.fresh = j
      · subst h
        simp [Balanced, waits, hf]
      · simp [Balanced, waits, Function.update_of_ne (Ne.symm h)]
  | del name =>
    simp only [perform]
    cases t.names name with
    | none => exact balanced_rfl
    | some id =>
      have hc := balanced_cancel (j := j) t id
      have hz : (t.cancel id).1.waits j = ((t.cancel id).1.erase name id).waits j := by
        by_cases h : id = j
        · subst h
          unfold cancel
          cases hx : t.objects id <;> simp [waits, hx]
        · simp [waits, Function.update_of_ne (Ne.symm h)]
      rw [Balanced, hz] at hc
      exact hc
  | start name interval periodic =>
    simp only [perform]
    cases t.names name with
    | none => exact balanced_rfl
    | some id => exact balanced_startObject interval periodic
  | stop name =>
    simp only [perform]
    cases t.names name with
    | none => exact balanced_rfl
    | some id => exact balanced_cancel t id

/-! ### Objects and their names -/

/-- Every object has one name, new objects are new, and no timer waits twice. -/
structure WellFormed (t : TimerMap φ) : Prop where
  named : ∀ name id, t.names name = some id → t.objects id ≠ none
  alive : ∀ id, t.objects id ≠ none → ∃ name, t.names name = some id
  unique : ∀ name name' id, t.names name = some id → t.names name' = some id → name = name'
  fresh : ∀ id, t.fresh ≤ id → t.objects id = none
  single : ∀ id x, t.objects id = some x → x.waiting ≤ 1

/-- An object gets a new state. -/
theorem WellFormed.put {x : Timer φ} (h : t.WellFormed) (hx : t.objects id ≠ none)
    (hw : x.waiting ≤ 1) (handlers : List Queued) : (t.put id (some x) handlers).WellFormed := by
  have hdom (j : ℕ) : (t.put id (some x) handlers).objects j = none ↔ t.objects j = none := by
    by_cases hj : j = id
    · subst hj
      simp [hx]
    · simp [Function.update_of_ne hj]
  constructor
  · intro name j hn
    rw [ne_eq, hdom]
    exact h.named name j hn
  · intro j hj
    rw [ne_eq, hdom] at hj
    exact h.alive j hj
  · exact h.unique
  · intro j hj
    rw [hdom]
    exact h.fresh j hj
  · intro j y hy
    by_cases hj : j = id
    · subst hj
      obtain rfl : x = y := by simpa using hy
      exact hw
    · rw [put_objects, Function.update_of_ne hj] at hy
      exact h.single j y hy

theorem wellFormed_queue (h : t.WellFormed) (queue : List Queued) :
    ({ t with queue := queue } : TimerMap φ).WellFormed :=
  ⟨h.named, h.alive, h.unique, h.fresh, h.single⟩

theorem wellFormed_cancel (h : t.WellFormed) (id : ℕ) : (t.cancel id).1.WellFormed := by
  unfold cancel
  cases hx : t.objects id with
  | none => exact h
  | some x => exact h.put (by simp [hx]) (Nat.zero_le _) _

theorem wellFormed_run (h : t.WellFormed) (id : ℕ) (again : Bool) :
    (t.run id again).1.WellFormed := by
  unfold run
  cases hx : t.objects id with
  | none => exact h
  | some x => exact h.put (by simp [hx]) (Nat.le_refl _) _

theorem wellFormed_startObject (h : t.WellFormed) (id : ℕ) (interval : ℤ) (periodic : Bool) :
    (t.startObject id interval periodic).1.WellFormed := by
  unfold startObject
  cases hx : t.objects id with
  | none => exact h
  | some x =>
    have hne : t.objects id ≠ none := by simp [hx]
    have hput := h.put (x := { x with interval := interval, periodic := periodic }) hne
      (h.single id x hx) []
    exact wellFormed_run hput id false

theorem wellFormed_emplace {name : String} (h : t.WellFormed) (hn : t.names name = none)
    (func : φ) : (t.emplace name func).WellFormed := by
  have hnew (n : String) (j : ℕ) (hj : t.names n = some j) : j ≠ t.fresh := by
    rintro rfl
    exact h.named n _ hj (h.fresh _ (Nat.le_refl _))
  -- Only the new name is that of the new object.
  have hnames (n : String) (j : ℕ) : (t.emplace name func).names n = some j ↔
      n = name ∧ j = t.fresh ∨ n ≠ name ∧ t.names n = some j := by
    by_cases hname : n = name
    · simp [hname, eq_comm]
    · simp [hname]
  constructor
  · intro n j hj
    rcases (hnames n j).mp hj with ⟨-, rfl⟩ | ⟨-, hj⟩
    · simp
    · rw [emplace_objects, Function.update_of_ne (hnew n j hj)]
      exact h.named n j hj
  · intro j hj
    by_cases hfresh : j = t.fresh
    · exact ⟨name, (hnames _ _).mpr (.inl ⟨rfl, hfresh⟩)⟩
    · rw [emplace_objects, Function.update_of_ne hfresh] at hj
      obtain ⟨n, hn'⟩ := h.alive j hj
      exact ⟨n, (hnames _ _).mpr (.inr ⟨fun e => by simp [e, hn] at hn', hn'⟩)⟩
  · intro n n' j hj hj'
    rcases (hnames n j).mp hj with ⟨rfl, rfl⟩ | ⟨-, hj⟩ <;>
      rcases (hnames n' _).mp hj' with ⟨rfl, hf⟩ | ⟨-, hj'⟩
    · rfl
    · exact absurd rfl (hnew n' _ hj')
    · exact absurd hf (hnew n j (by assumption))
    · exact h.unique n n' j hj hj'
  · intro j hj
    have hj' : t.fresh + 1 ≤ j := hj
    rw [emplace_objects, Function.update_of_ne (by omega)]
    exact h.fresh j (by omega)
  · intro j x hx
    by_cases hfresh : j = t.fresh
    · subst hfresh
      obtain rfl : { func := func } = x := by simpa using hx
      exact Nat.zero_le _
    · rw [emplace_objects, Function.update_of_ne hfresh] at hx
      exact h.single j x hx

theorem wellFormed_erase {name : String} (h : t.WellFormed) (hn : t.names name = some id) :
    (t.erase name id).WellFormed := by
  have hnames (n : String) (j : ℕ) : (t.erase name id).names n = some j ↔
      n ≠ name ∧ t.names n = some j := by
    by_cases hname : n = name
    · simp [hname]
    · simp [hname]
  have hobjects (j : ℕ) : (t.erase name id).objects j = if j = id then none else t.objects j := by
    rw [erase_objects, Function.update_apply]
  constructor
  · intro n j hj
    obtain ⟨hname, hj⟩ := (hnames n j).mp hj
    rw [hobjects]
    split
    · next he => exact absurd (h.unique n name id (he ▸ hj) hn) hname
    · exact h.named n j hj
  · intro j hj
    rw [hobjects] at hj
    split at hj
    · exact absurd rfl hj
    · next hne =>
      obtain ⟨n, hn'⟩ := h.alive j hj
      refine ⟨n, (hnames n j).mpr ⟨?_, hn'⟩⟩
      rintro rfl
      exact hne (Option.some.inj (hn'.symm.trans hn))
  · intro n n' j hj hj'
    exact h.unique n n' j ((hnames n j).mp hj).2 ((hnames n' j).mp hj').2
  · intro j hj
    rw [hobjects]
    split
    · rfl
    · exact h.fresh j hj
  · intro j x hx
    rw [hobjects] at hx
    split at hx
    · cases hx
    · exact h.single j x hx

@[simp] theorem names_cancel (t : TimerMap φ) (id : ℕ) : (t.cancel id).1.names = t.names := by
  unfold cancel
  cases t.objects id <;> rfl

theorem wellFormed_perform (h : t.WellFormed) (c : Command φ) : (t.perform c).1.WellFormed := by
  cases c with
  | add name func =>
    simp only [perform]
    cases hn : t.names name with
    | some id => exact h
    | none => exact wellFormed_emplace h hn func
  | del name =>
    simp only [perform]
    cases hn : t.names name with
    | none => exact h
    | some id => exact wellFormed_erase (wellFormed_cancel h id) (by rw [names_cancel, hn])
  | start name interval periodic =>
    simp only [perform]
    cases t.names name with
    | none => exact h
    | some id => exact wellFormed_startObject h id interval periodic
  | stop name =>
    simp only [perform]
    cases t.names name with
    | none => exact h
    | some id => exact wellFormed_cancel h id

theorem wellFormed_performs (h : t.WellFormed) (cs : List (Command φ)) :
    (t.performs cs).1.WellFormed := by
  induction cs generalizing t with
  | nil => exact h
  | cons c cs ih => exact ih (wellFormed_perform h c)

theorem balanced_performs (h : t.WellFormed) (cs : List (Command φ)) :
    Balanced j t (t.performs cs) := by
  induction cs generalizing t with
  | nil => exact balanced_rfl
  | cons c cs ih =>
    have hc := balanced_perform (j := j) t c (h.fresh _ (Nat.le_refl _))
    exact hc.append (ih (wellFormed_perform h c))

theorem wellFormed_expire (h : t.WellFormed) (id : ℕ) : (t.expire id).WellFormed := by
  unfold expire
  cases hx : t.objects id with
  | none => exact h
  | some x => exact h.put (by simp [hx]) (Nat.zero_le _) _

/-- A deadline moves waits to the queue. -/
theorem waits_expire (t : TimerMap φ) (id : ℕ) : (t.expire id).waits j = t.waits j := by
  unfold expire
  cases hx : t.objects id with
  | none => rfl
  | some x =>
    by_cases h : id = j
    · subst h
      rw [waits_put_self]
      simp [waits, hx, Nat.add_comm]
    · exact waits_put_of_ne h _ _ _

theorem wellFormed_again (h : t.WellFormed) (id : ℕ) : (t.again id).1.WellFormed := by
  unfold again
  cases hx : t.objects id with
  | none => exact h
  | some x =>
    simp only
    split
    · exact wellFormed_run h id true
    · exact h

theorem balanced_again (t : TimerMap φ) (id : ℕ) : Balanced j t (t.again id) := by
  unfold again
  cases hx : t.objects id with
  | none => simp [Balanced, Out.begun, Out.ended]
  | some x =>
    simp only
    split
    · exact balanced_run hx true
    · exact balanced_rfl

theorem wellFormed_timeout (h : t.WellFormed) (q : Queued) (cmds : List (Command φ))
    (raises : Bool) : (t.timeout q cmds raises).1.WellFormed := by
  unfold timeout
  split
  · exact h
  · cases t.objects q.id with
    | none => exact h
    | some x =>
      simp only
      split
      · exact wellFormed_performs h cmds
      · exact wellFormed_again (wellFormed_performs h cmds) q.id

/-- A handler without an error code ends a wait of its object, one with an error code none. -/
theorem balanced_timeout (h : t.WellFormed) (q : Queued) (cmds : List (Command φ)) (raises : Bool) :
    (t.waits j + if q = ⟨j, false⟩ then 1 else 0) +
        total (Out.begun j) (t.timeout q cmds raises).2 =
      total (Out.ended j) (t.timeout q cmds raises).2 + (t.timeout q cmds raises).1.waits j := by
  obtain ⟨id, aborted⟩ := q
  unfold timeout
  cases aborted with
  | true => simp
  | false =>
    simp only [Bool.false_eq_true, if_false, Queued.mk.injEq, and_true]
    cases hx : t.objects id with
    | none => simp [Out.begun, Out.ended, Nat.add_comm]
    | some x =>
      have hp := balanced_performs (j := j) h cmds
      have ha := hp.append (balanced_again (j := j) (t.performs cmds).1 id)
      simp only [Balanced] at hp ha
      cases raises
      · simp only [Bool.false_eq_true, if_false, total_cons, Out.begun, Out.ended]
        omega
      · simp only [if_true, total_cons, Out.begun, Out.ended]
        omega

omit φ in
/-- A handler that is taken from the queue is one less there. -/
theorem count_eraseIdx {queue : List Queued} {i : ℕ} {q : Queued} (h : queue[i]? = some q)
    (q' : Queued) : (queue.eraseIdx i).count q' + (if q = q' then 1 else 0) = queue.count q' := by
  obtain ⟨hi, rfl⟩ := List.getElem?_eq_some_iff.mp h
  have hc := (List.getElem_cons_eraseIdx_perm hi).count_eq q'
  simpa only [List.count_cons, beq_iff_eq] using hc

theorem waits_eraseIdx {i : ℕ} {q : Queued} (h : t.queue[i]? = some q) :
    ({ t with queue := t.queue.eraseIdx i } : TimerMap φ).waits j +
      (if q = ⟨j, false⟩ then 1 else 0) = t.waits j := by
  have hc := count_eraseIdx h ⟨j, false⟩
  simp only [waits]
  omega

/-! ### Runs -/

theorem wellFormed_step (h : t.WellFormed) (e : Event φ) : ((timers φ).next t e).WellFormed := by
  cases e with
  | command c => exact wellFormed_perform h c
  | expire id => exact wellFormed_expire h id
  | handle i cmds raises =>
    show (t.step (.handle i cmds raises)).1.WellFormed
    simp only [step]
    cases t.queue[i]? with
    | none => exact h
    | some q => exact wellFormed_timeout (wellFormed_queue h _) q cmds raises

theorem balanced_step (h : t.WellFormed) (e : Event φ) : Balanced j t (t.step e) := by
  cases e with
  | command c => exact balanced_perform t c (h.fresh _ (Nat.le_refl _))
  | expire id =>
    simp only [step, Balanced, waits_expire, total_nil]
    omega
  | handle i cmds raises =>
    simp only [step]
    cases hq : t.queue[i]? with
    | none => exact balanced_rfl
    | some q =>
      have ht := balanced_timeout (j := j) (wellFormed_queue h (t.queue.eraseIdx i)) q cmds raises
      rw [waits_eraseIdx hq] at ht
      exact ht

theorem wellFormed_empty : ({} : TimerMap φ).WellFormed := by
  constructor <;> simp

theorem wellFormed_run_of (h : t.WellFormed) (es : List (Event φ)) :
    ((timers φ).run t es).WellFormed :=
  Machine.run_invariant WellFormed (P := fun _ _ => True) (fun _ e ht _ => wellFormed_step ht e) h
    (Machine.along_of_forall _ (fun _ _ => trivial) _ _)

/-- Whatever the order of commands, deadlines and handlers, every wait of a timer ends once: it
is cancelled, or calls the function, or finds the object deleted; or it is still there, and then
no second one is pending. -/
theorem waits_end_once (es : List (Event φ)) (id : ℕ) :
    let t := (timers φ).run {} es
    let out := (timers φ).emitted {} es
    total (Out.begun id) out = total (Out.ended id) out + t.waits id ∧
      ∀ x, t.objects id = some x → x.waiting ≤ 1 := by
  intro t out
  have hb := Machine.run_balance (M := timers φ) (P := fun _ _ => True) WellFormed
    (fun t => t.waits id) (Out.begun id) (Out.ended id) (fun _ e ht _ => wellFormed_step ht e)
    (fun _ e ht _ => balanced_step ht e) wellFormed_empty
    (Machine.along_of_forall _ (fun _ _ => trivial) _ es)
  have hz : ({} : TimerMap φ).waits id = 0 := rfl
  rw [hz, Nat.zero_add] at hb
  exact ⟨hb, (wellFormed_run_of wellFormed_empty es).single id⟩

end TimerMap

end BotTrader.Application
