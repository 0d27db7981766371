import Mathlib.Data.List.Basic

/-! Deterministic event machines. A machine answers an event with a next state
and a list of outputs; an event that cannot happen in a state leaves the state
alone and emits nothing, so every list of events is a run. Proved here: runs
compose, an invariant that one step keeps holds along a run (also one that
speaks of the outputs so far, and one that only steps meeting a condition
keep), what every step conserves a run conserves, and a simulation between two
machines carries whole runs over. -/

namespace BotTrader.Automata

/-- Next state and outputs of an event. -/
structure Machine (σ ε ω : Type*) where
  next : σ → ε → σ
  emit : σ → ε → List ω

namespace Machine

variable {σ ε ω τ ε' ω' : Type*} (M : Machine σ ε ω) (N : Machine τ ε' ω')

def run (s : σ) (es : List ε) : σ := es.foldl M.next s

/-- All outputs of a run, oldest first. -/
def emitted : σ → List ε → List ω
  | _, [] => []
  | s, e :: es => M.emit s e ++ emitted (M.next s e) es

/-- Inputs and outputs of a run in the order in which they happen. -/
def trace : σ → List ε → List (ε ⊕ ω)
  | _, [] => []
  | s, e :: es => .inl e :: ((M.emit s e).map .inr ++ trace (M.next s e) es)

/-- Every step of the run meets `P` in the state that it starts from. -/
def Along (P : σ → ε → Prop) : σ → List ε → Prop
  | _, [] => True
  | s, e :: es => P s e ∧ Along P (M.next s e) es

/-- The same machine, of whose outputs only those that `view` keeps are seen. -/
def observe (view : ω → Option ω') : Machine σ ε ω' where
  next := M.next
  emit s e := (M.emit s e).filterMap view

@[simp] theorem run_nil (s : σ) : M.run s [] = s := rfl

@[simp] theorem run_cons (s : σ) (e : ε) (es : List ε) :
    M.run s (e :: es) = M.run (M.next s e) es := rfl

@[simp] theorem emitted_nil (s : σ) : M.emitted s [] = [] := rfl

@[simp] theorem emitted_cons (s : σ) (e : ε) (es : List ε) :
    M.emitted s (e :: es) = M.emit s e ++ M.emitted (M.next s e) es := rfl

@[simp] theorem trace_nil (s : σ) : M.trace s [] = [] := rfl

@[simp] theorem trace_cons (s : σ) (e : ε) (es : List ε) :
    M.trace s (e :: es) = .inl e :: ((M.emit s e).map .inr ++ M.trace (M.next s e) es) := rfl

@[simp] theorem along_nil (P : σ → ε → Prop) (s : σ) : M.Along P s [] := trivial

@[simp] theorem along_cons (P : σ → ε → Prop) (s : σ) (e : ε) (es : List ε) :
    M.Along P s (e :: es) ↔ P s e ∧ M.Along P (M.next s e) es := Iff.rfl

theorem run_append (s : σ) (es fs : List ε) : M.run s (es ++ fs) = M.run (M.run s es) fs :=
  List.foldl_append

theorem emitted_append (s : σ) (es fs : List ε) :
    M.emitted s (es ++ fs) = M.emitted s es ++ M.emitted (M.run s es) fs := by
  induction es generalizing s with
  | nil => rfl
  | cons e es ih => simp [ih]

theorem along_append (P : σ → ε → Prop) (s : σ) (es fs : List ε) :
    M.Along P s (es ++ fs) ↔ M.Along P s es ∧ M.Along P (M.run s es) fs := by
  induction es generalizing s with
  | nil => simp
  | cons e es ih => simp [ih, and_assoc]

theorem along_of_forall {P : σ → ε → Prop} (h : ∀ s e, P s e) (s : σ) (es : List ε) :
    M.Along P s es := by
  induction es generalizing s with
  | nil => trivial
  | cons e es ih => exact ⟨h s e, ih _⟩

instance decidableAlong {P : σ → ε → Prop} [∀ s e, Decidable (P s e)] :
    ∀ s es, Decidable (M.Along P s es)
  | _, [] => .isTrue trivial
  | s, e :: es =>
    have : Decidable (M.Along P (M.next s e) es) := decidableAlong (M.next s e) es
    inferInstanceAs (Decidable (P s e ∧ M.Along P (M.next s e) es))

/-- A condition on the events alone is a condition along the run. -/
theorem along_of_mem {Q : ε → Prop} (s : σ) (es : List ε) (h : ∀ e ∈ es, Q e) :
    M.Along (fun _ e => Q e) s es := by
  induction es generalizing s with
  | nil => trivial
  | cons e es ih => exact ⟨h e (by simp), ih _ fun e he => h e (by simp [he])⟩

/-- What holds of the splits of a list at an element, by the place of this element. -/
theorem forall_split_cons {α : Type*} {Q : List α → α → List α → Prop} (x : α) (xs : List α) :
    (∀ us v vs, x :: xs = us ++ v :: vs → Q us v vs) ↔
      Q [] x xs ∧ ∀ us v vs, xs = us ++ v :: vs → Q (x :: us) v vs := by
  constructor
  · intro h
    exact ⟨h [] x xs rfl, fun us v vs he => h (x :: us) v vs (by rw [he, List.cons_append])⟩
  · rintro ⟨hhead, htail⟩ us v vs he
    obtain _ | ⟨u, us⟩ := us
    · obtain ⟨rfl, rfl⟩ := List.cons.inj he
      exact hhead
    · obtain ⟨rfl, he'⟩ := List.cons.inj he
      exact htail us v vs he'

section Invariants

variable {M} {P : σ → ε → Prop}

/-- What a step meeting `P` keeps, a run of such steps keeps. -/
theorem run_invariant (I : σ → Prop) (hstep : ∀ s e, I s → P s e → I (M.next s e)) {s : σ}
    {es : List ε} (hs : I s) (h : M.Along P s es) : I (M.run s es) := by
  induction es generalizing s with
  | nil => exact hs
  | cons e es ih => exact ih (hstep s e hs h.1) h.2

/-- The same for an invariant of the state and all outputs so far. -/
theorem run_history (I : σ → List ω → Prop)
    (hstep : ∀ s os e, I s os → P s e → I (M.next s e) (os ++ M.emit s e)) {s : σ} {os : List ω}
    {es : List ε} (hs : I s os) (h : M.Along P s es) :
    I (M.run s es) (os ++ M.emitted s es) := by
  induction es generalizing s os with
  | nil => simpa using hs
  | cons e es ih => simpa [List.append_assoc] using ih (hstep s os e hs h.1) h.2

/-- The same for an invariant of the state and the trace so far. -/
theorem run_trace (I : σ → List (ε ⊕ ω) → Prop)
    (hstep : ∀ s h e, I s h → P s e →
      I (M.next s e) (h ++ .inl e :: (M.emit s e).map .inr)) {s : σ} {h : List (ε ⊕ ω)}
    {es : List ε} (hs : I s h) (ha : M.Along P s es) : I (M.run s es) (h ++ M.trace s es) := by
  induction es generalizing s h with
  | nil => simpa using hs
  | cons e es ih => simpa [List.append_assoc] using ih (hstep s h e hs ha.1) ha.2

/-- If every step from the invariant emits only outputs in `Q`, so does the run. -/
theorem emitted_invariant (I : σ → Prop) (Q : ω → Prop)
    (hstep : ∀ s e, I s → P s e → I (M.next s e))
    (hemit : ∀ s e, I s → P s e → ∀ o ∈ M.emit s e, Q o) {s : σ} {es : List ε} (hs : I s)
    (h : M.Along P s es) : ∀ o ∈ M.emitted s es, Q o := by
  induction es generalizing s with
  | nil => simp
  | cons e es ih =>
    intro o ho
    rcases List.mem_append.mp ho with ho | ho
    · exact hemit s e hs h.1 o ho
    · exact ih (hstep s e hs h.1) h.2 o ho

/-- What goes in comes out in its order, but for what is pending: a law of one step is one
of the run. -/
theorem run_conserves {α : Type*} (I : σ → Prop) (pending : σ → List α) (ins : ε → List α)
    (outs : ω → List α) (hstep : ∀ s e, I s → P s e → I (M.next s e))
    (hlaw : ∀ s e, I s → P s e →
      pending s ++ ins e = (M.emit s e).flatMap outs ++ pending (M.next s e))
    {s : σ} {es : List ε} (hs : I s) (h : M.Along P s es) :
    pending s ++ es.flatMap ins = (M.emitted s es).flatMap outs ++ pending (M.run s es) := by
  induction es generalizing s with
  | nil => simp
  | cons e es ih =>
    have hrest := ih (hstep s e hs h.1) h.2
    rw [List.flatMap_cons, ← List.append_assoc, hlaw s e hs h.1, List.append_assoc, hrest,
      emitted_cons, List.flatMap_append, List.append_assoc, run_cons]

end Invariants

section Simulation

/-- `N` follows `M` through the relation `R`: the event `e` of `M` in state `s`
is the event `label s e` of `N`, and the outputs of `N` are what `view` keeps
of the outputs of `M`. -/
structure Simulates (R : σ → τ → Prop) (label : σ → ε → ε') (view : ω → Option ω') : Prop where
  next : ∀ {s t}, R s t → ∀ e, R (M.next s e) (N.next t (label s e))
  emit : ∀ {s t}, R s t → ∀ e, (M.emit s e).filterMap view = N.emit t (label s e)

/-- The events of `N` that a run of `M` amounts to. -/
def labels (label : σ → ε → ε') : σ → List ε → List ε'
  | _, [] => []
  | s, e :: es => label s e :: labels label (M.next s e) es

variable {M N} {R : σ → τ → Prop} {label : σ → ε → ε'} {view : ω → Option ω'}

theorem Simulates.run (h : M.Simulates N R label view) {s : σ} {t : τ} (hr : R s t)
    (es : List ε) : R (M.run s es) (N.run t (M.labels label s es)) := by
  induction es generalizing s t with
  | nil => exact hr
  | cons e es ih => exact ih (h.next hr e)

theorem Simulates.emitted (h : M.Simulates N R label view) {s : σ} {t : τ} (hr : R s t)
    (es : List ε) :
    (M.emitted s es).filterMap view = N.emitted t (M.labels label s es) := by
  induction es generalizing s t with
  | nil => rfl
  | cons e es ih =>
    simp only [emitted_cons, List.filterMap_append, h.emit hr e, ih (h.next hr e)]
    rfl

/-- A condition that one step carries over is carried over along the run. -/
theorem Simulates.along (h : M.Simulates N R label view) {P : σ → ε → Prop} {Q : τ → ε' → Prop}
    (hpq : ∀ s t e, R s t → P s e → Q t (label s e)) {s : σ} {t : τ} (hr : R s t)
    {es : List ε} (hp : M.Along P s es) : N.Along Q t (M.labels label s es) := by
  induction es generalizing s t with
  | nil => trivial
  | cons e es ih => exact ⟨hpq s t e hr hp.1, ih (h.next hr e) hp.2⟩

end Simulation

end Machine

end BotTrader.Automata
