import Mathlib.Data.List.Basic

/-! Handlers of a stateful object that can raise. A handler reads and updates
the object, calls out to its environment, and either returns or raises; an
exception undoes nothing, so the state and the calls made up to it remain. The
simp set below evaluates a handler on a given state. -/

namespace BotTrader.Automata

@[simp] theorem except_ok_bind {ε α β : Type} (a : α) (f : α → Except ε β) :
    (Except.ok a >>= f) = f a := rfl

@[simp] theorem except_error_bind {ε α β : Type} (x : ε) (f : α → Except ε β) :
    (Except.error x >>= f) = .error x := rfl

@[simp] theorem except_pure {ε α : Type} (a : α) : (pure a : Except ε α) = .ok a := rfl

theorem exists_bind_eq_ok {ε α β : Type} {x : Except ε α} {f : α → Except ε β} :
    (∃ b, (x >>= f) = .ok b) ↔ ∃ a, x = .ok a ∧ ∃ b, f a = .ok b := by
  cases x <;> simp

theorem exists_map_eq_ok {ε α β : Type} (x : Except ε α) (f : α → β) :
    (∃ b, (x >>= fun a => pure (f a)) = .ok b) ↔ ∃ a, x = .ok a := by
  cases x <;> simp

/-- A loop ends without an exception if no round can raise. -/
theorem exists_foldlM_eq_ok {ε α β : Type} {f : β → α → Except ε β} {P : α → Prop}
    (h : ∀ b a, (∃ b', f b a = .ok b') ↔ P a) (l : List α) (b : β) :
    (∃ b', l.foldlM f b = .ok b') ↔ ∀ a ∈ l, P a := by
  induction l generalizing b with
  | nil => simp [List.foldlM]
  | cons a l ih =>
    show (∃ b', (f b a >>= fun c => l.foldlM f c) = .ok b') ↔ _
    rw [exists_bind_eq_ok, List.forall_mem_cons, ← h b a]
    simp only [ih, exists_and_right]

/-- What a handler leaves behind. -/
inductive Outcome (σ ω ε α : Type) where
  | done (value : α) (state : σ) (calls : List ω)
  | raised (error : ε) (state : σ) (calls : List ω)

namespace Outcome

variable {σ ω ε α : Type}

def state : Outcome σ ω ε α → σ
  | done _ s _ => s
  | raised _ s _ => s

def calls : Outcome σ ω ε α → List ω
  | done _ _ o => o
  | raised _ _ o => o

/-- The exception that escaped, if any. -/
def error : Outcome σ ω ε α → Option ε
  | done _ _ _ => none
  | raised x _ _ => some x

/-- The value or the exception. -/
def result : Outcome σ ω ε α → Except ε α
  | done a _ _ => .ok a
  | raised x _ _ => .error x

/-- Put calls made earlier in front. -/
def after (o : List ω) : Outcome σ ω ε α → Outcome σ ω ε α
  | done a s o' => done a s (o ++ o')
  | raised x s o' => raised x s (o ++ o')

@[simp] theorem state_done (a : α) (s : σ) (o : List ω) :
    (done a s o : Outcome σ ω ε α).state = s := rfl

@[simp] theorem state_raised (x : ε) (s : σ) (o : List ω) :
    (raised x s o : Outcome σ ω ε α).state = s := rfl

@[simp] theorem calls_done (a : α) (s : σ) (o : List ω) :
    (done a s o : Outcome σ ω ε α).calls = o := rfl

@[simp] theorem calls_raised (x : ε) (s : σ) (o : List ω) :
    (raised x s o : Outcome σ ω ε α).calls = o := rfl

@[simp] theorem error_done (a : α) (s : σ) (o : List ω) :
    (done a s o : Outcome σ ω ε α).error = none := rfl

@[simp] theorem error_raised (x : ε) (s : σ) (o : List ω) :
    (raised x s o : Outcome σ ω ε α).error = some x := rfl

@[simp] theorem result_done (a : α) (s : σ) (o : List ω) :
    (done a s o : Outcome σ ω ε α).result = .ok a := rfl

@[simp] theorem result_raised (x : ε) (s : σ) (o : List ω) :
    (raised x s o : Outcome σ ω ε α).result = .error x := rfl

@[simp] theorem after_done (o : List ω) (a : α) (s : σ) (o' : List ω) :
    (done a s o' : Outcome σ ω ε α).after o = done a s (o ++ o') := rfl

@[simp] theorem after_raised (o : List ω) (x : ε) (s : σ) (o' : List ω) :
    (raised x s o' : Outcome σ ω ε α).after o = raised x s (o ++ o') := rfl

@[simp] theorem after_nil (r : Outcome σ ω ε α) : r.after [] = r := by
  cases r <;> rfl

@[simp] theorem error_after (o : List ω) (r : Outcome σ ω ε α) : (r.after o).error = r.error := by
  cases r <;> rfl

@[simp] theorem result_after (o : List ω) (r : Outcome σ ω ε α) : (r.after o).result = r.result := by
  cases r <;> rfl

@[simp] theorem state_after (o : List ω) (r : Outcome σ ω ε α) : (r.after o).state = r.state := by
  cases r <;> rfl

@[simp] theorem calls_after (o : List ω) (r : Outcome σ ω ε α) :
    (r.after o).calls = o ++ r.calls := by
  cases r <;> rfl

end Outcome

/-- A handler over an object of type `σ`, with calls `ω` and exceptions `ε`. -/
def Handler (σ ω ε α : Type) := σ → Outcome σ ω ε α

namespace Handler

variable {σ ω ε α β : Type}

def run (h : Handler σ ω ε α) (s : σ) : Outcome σ ω ε α := h s

instance : Monad (Handler σ ω ε) where
  pure a := fun s => .done a s []
  bind h f := fun s => match h.run s with
    | .done a s' o => ((f a).run s').after o
    | .raised x s' o => .raised x s' o

/-- The object as it stands. -/
def self : Handler σ ω ε σ := fun s => .done s s []

def update (f : σ → σ) : Handler σ ω ε Unit := fun s => .done () (f s) []

def call (o : ω) : Handler σ ω ε Unit := fun s => .done () s [o]

def raise (x : ε) : Handler σ ω ε α := fun s => .raised x s []

/-- A computation that does not touch the object but can raise. -/
def attempt : Except ε α → Handler σ ω ε α
  | .ok a => pure a
  | .error x => raise x

/-- `try h except x: g` -/
def tryExcept [DecidableEq ε] (x : ε) (h g : Handler σ ω ε α) : Handler σ ω ε α :=
  fun s => match h.run s with
    | .done a s' o => .done a s' o
    | .raised y s' o => if y = x then (g.run s').after o else .raised y s' o

@[simp] theorem run_pure (a : α) (s : σ) : (pure a : Handler σ ω ε α).run s = .done a s [] := rfl

@[simp] theorem run_self (s : σ) : (self : Handler σ ω ε σ).run s = .done s s [] := rfl

@[simp] theorem run_update (f : σ → σ) (s : σ) :
    (update f : Handler σ ω ε Unit).run s = .done () (f s) [] := rfl

@[simp] theorem run_call (o : ω) (s : σ) :
    (call o : Handler σ ω ε Unit).run s = .done () s [o] := rfl

@[simp] theorem run_raise (x : ε) (s : σ) :
    (raise x : Handler σ ω ε α).run s = .raised x s [] := rfl

@[simp] theorem run_attempt_ok (a : α) (s : σ) :
    (attempt (.ok a) : Handler σ ω ε α).run s = .done a s [] := rfl

@[simp] theorem run_attempt_error (x : ε) (s : σ) :
    (attempt (.error x) : Handler σ ω ε α).run s = .raised x s [] := rfl

theorem run_bind (h : Handler σ ω ε α) (f : α → Handler σ ω ε β) (s : σ) :
    (h >>= f).run s = match h.run s with
      | .done a s' o => ((f a).run s').after o
      | .raised x s' o => .raised x s' o := rfl

theorem run_bind_done {h : Handler σ ω ε α} {f : α → Handler σ ω ε β} {s s' : σ} {a : α}
    {o : List ω} (e : h.run s = .done a s' o) : (h >>= f).run s = ((f a).run s').after o := by
  rw [run_bind, e]

theorem run_bind_raised {h : Handler σ ω ε α} {f : α → Handler σ ω ε β} {s s' : σ} {x : ε}
    {o : List ω} (e : h.run s = .raised x s' o) : (h >>= f).run s = .raised x s' o := by
  rw [run_bind, e]

/-- A computation that can raise, and what follows it, end without an exception. -/
theorem error_attempt_bind {x : Except ε α} {f : α → Handler σ ω ε β} {s : σ} :
    ((attempt x >>= f).run s).error = none ↔ ∃ a, x = .ok a ∧ ((f a).run s).error = none := by
  cases x with
  | error e => simp [run_bind]
  | ok a =>
    rw [run_bind_done (run_attempt_ok a s), Outcome.after_nil]
    simp

theorem error_ite_iff {c Q : Prop} [Decidable c] {h g : Handler σ ω ε α} {s : σ}
    (e : c → ((h.run s).error = none ↔ Q)) (e' : ¬c → ((g.run s).error = none ↔ Q)) :
    ((if c then h else g).run s).error = none ↔ Q := by
  split
  · next hc => exact e hc
  · next hc => exact e' hc

theorem run_tryExcept [DecidableEq ε] (x : ε) (h g : Handler σ ω ε α) (s : σ) :
    (tryExcept x h g).run s = match h.run s with
      | .done a s' o => .done a s' o
      | .raised y s' o => if y = x then (g.run s').after o else .raised y s' o := rfl

/-- What follows does not change the object. -/
theorem state_bind_quiet {h : Handler σ ω ε α} {f : α → Handler σ ω ε β}
    (hf : ∀ a t, ((f a).run t).state = t) (s : σ) : ((h >>= f).run s).state = (h.run s).state := by
  rw [run_bind]
  rcases h.run s with ⟨a, t, o⟩ | ⟨x, t, o⟩
  · simp [hf]
  · rfl

/-- Nor does the branch of an exception. -/
theorem state_tryExcept_quiet [DecidableEq ε] {x : ε} {h g : Handler σ ω ε α}
    (hg : ∀ t, (g.run t).state = t) (s : σ) : ((tryExcept x h g).run s).state = (h.run s).state := by
  rw [run_tryExcept]
  rcases h.run s with ⟨a, t, o⟩ | ⟨y, t, o⟩
  · rfl
  · simp only [Outcome.state_raised]
    split
    · rw [Outcome.state_after, hg]
    · rfl

/-- A loop ends without an exception if no round raises, whatever the object. -/
theorem error_forM_iff {γ : Type} {k : γ → Handler σ ω ε Unit} {P : γ → Prop}
    (hk : ∀ x s, ((k x).run s).error = none ↔ P x) (items : List γ) (s : σ) :
    ((items.forM k).run s).error = none ↔ ∀ x ∈ items, P x := by
  induction items generalizing s with
  | nil => exact ⟨fun _ _ h => absurd h List.not_mem_nil, fun _ => rfl⟩
  | cons x xs ih =>
    show ((k x >>= fun _ => xs.forM k).run s).error = none ↔ _
    rw [List.forall_mem_cons, ← hk x s, run_bind]
    rcases (k x).run s with ⟨_, t, o⟩ | ⟨y, t, o⟩
    · simp only [Outcome.error_after, ih, Outcome.error_done, true_and]
    · simp

/-- A loop whose rounds leave the object alone and never raise. -/
theorem run_forM_quiet {γ : Type} {k : γ → Handler σ ω ε Unit}
    (hk : ∀ x s, ∃ o, (k x).run s = .done () s o) (items : List γ) (s : σ) :
    ∃ o, (items.forM k).run s = .done () s o := by
  induction items with
  | nil => exact ⟨[], rfl⟩
  | cons x xs ih =>
    obtain ⟨o, ho⟩ := hk x s
    obtain ⟨o', ho'⟩ := ih
    refine ⟨o ++ o', ?_⟩
    show (k x >>= fun _ => xs.forM k).run s = _
    rw [run_bind_done ho, ho', Outcome.after_done]

section Specifications

variable {ω' : Type} (view : ω → Option ω')

/-- From `s` the handler returns `a` in `s'`, and `view` keeps `os` of its calls. -/
def Returns (h : Handler σ ω ε α) (s : σ) (a : α) (s' : σ) (os : List ω') : Prop :=
  ∃ calls, h.run s = .done a s' calls ∧ calls.filterMap view = os

/-- From `s` the handler raises in `s'`, and `view` keeps `os` of its calls. -/
def Raises (h : Handler σ ω ε α) (s s' : σ) (os : List ω') : Prop :=
  ∃ x calls, h.run s = .raised x s' calls ∧ calls.filterMap view = os

/-- From `s` the handler ends in `s'` either way, and `view` keeps `os` of its calls. -/
def Leaves (h : Handler σ ω ε α) (s s' : σ) (os : List ω') : Prop :=
  (h.run s).state = s' ∧ (h.run s).calls.filterMap view = os

variable {view} {h : Handler σ ω ε α} {f : α → Handler σ ω ε β} {s s' s'' : σ} {a : α}
  {os os' : List ω'}

theorem Returns.error_eq (e : h.Returns view s a s' os) : (h.run s).error = none := by
  obtain ⟨calls, hr, -⟩ := e
  rw [hr, Outcome.error_done]

theorem Raises.error_ne (e : h.Raises view s s' os) : (h.run s).error ≠ none := by
  obtain ⟨x, calls, hr, -⟩ := e
  simp [hr]

theorem Returns.leaves (e : h.Returns view s a s' os) : h.Leaves view s s' os := by
  obtain ⟨calls, hr, rfl⟩ := e
  exact ⟨by rw [hr, Outcome.state_done], by rw [hr, Outcome.calls_done]⟩

theorem Raises.leaves (e : h.Raises view s s' os) : h.Leaves view s s' os := by
  obtain ⟨x, calls, hr, rfl⟩ := e
  exact ⟨by rw [hr, Outcome.state_raised], by rw [hr, Outcome.calls_raised]⟩

theorem Returns.bind {b : β} (e : h.Returns view s a s' os)
    (e' : (f a).Returns view s' b s'' os') : (h >>= f).Returns view s b s'' (os ++ os') := by
  obtain ⟨calls, hr, rfl⟩ := e
  obtain ⟨calls', hr', rfl⟩ := e'
  refine ⟨calls ++ calls', ?_, List.filterMap_append⟩
  rw [run_bind_done hr, hr', Outcome.after_done]

theorem returns_update (u : σ → σ) : (update u : Handler σ ω ε Unit).Returns view s () (u s) [] :=
  ⟨[], rfl, rfl⟩

/-- A loop without an exception: what the rounds do adds up, and so does what is seen of
their calls. -/
theorem returns_forM {γ δ : Type} {k : γ → Handler σ ω ε Unit} {P : γ → Prop}
    {R : σ → σ → List δ → Prop} {e : γ → List δ} {g : γ → List ω'} (refl : ∀ s, R s s [])
    (trans : ∀ {s t u l l'}, R s t l → R t u l' → R s u (l ++ l'))
    (hk : ∀ x s, P x → ∃ t, (k x).Returns view s () t (g x) ∧ R s t (e x)) (items : List γ)
    (hP : ∀ x ∈ items, P x) (s : σ) :
    ∃ t, (items.forM k).Returns view s () t (items.flatMap g) ∧ R s t (items.flatMap e) := by
  induction items generalizing s with
  | nil => exact ⟨s, ⟨[], rfl, rfl⟩, refl s⟩
  | cons x xs ih =>
    obtain ⟨t, ht, hr⟩ := hk x s (hP x List.mem_cons_self)
    obtain ⟨u, hu, hr'⟩ := ih (fun y hy => hP y (List.mem_cons_of_mem x hy)) t
    exact ⟨u, ht.bind hu, trans hr hr'⟩

theorem Returns.bind_leaves (e : h.Returns view s a s' os)
    (e' : (f a).Leaves view s' s'' os') : (h >>= f).Leaves view s s'' (os ++ os') := by
  obtain ⟨calls, hr, rfl⟩ := e
  obtain ⟨rfl, rfl⟩ := e'
  rw [Leaves, run_bind_done hr]
  exact ⟨Outcome.state_after _ _, by rw [Outcome.calls_after, List.filterMap_append]⟩

end Specifications

section Frames

/-- From `s` the handler stays within `R`, and all its calls meet `P`. -/
def Keeps (R : σ → σ → Prop) (P : ω → Prop) (h : Handler σ ω ε α) (s : σ) : Prop :=
  R s (h.run s).state ∧ ∀ o ∈ (h.run s).calls, P o

variable {R : σ → σ → Prop} {P : ω → Prop} {h g : Handler σ ω ε α} {f : α → Handler σ ω ε β}
  {s : σ}

theorem keeps_update {u : σ → σ} (hu : R s (u s)) : (update u : Handler σ ω ε Unit).Keeps R P s :=
  ⟨hu, by simp⟩

theorem Keeps.bind (trans : ∀ {s t u}, R s t → R t u → R s u) (e : h.Keeps R P s)
    (e' : ∀ a t, R s t → (f a).Keeps R P t) : (h >>= f).Keeps R P s := by
  obtain ⟨hr, ho⟩ := e
  rcases hh : h.run s with ⟨a, t, o⟩ | ⟨x, t, o⟩
  · rw [hh] at hr ho
    obtain ⟨hr', ho'⟩ := e' a t hr
    rw [Keeps, run_bind_done hh, Outcome.state_after, Outcome.calls_after]
    refine ⟨trans hr hr', fun c hc => ?_⟩
    rcases List.mem_append.mp hc with hc | hc
    · exact ho c hc
    · exact ho' c hc
  · rw [Keeps, run_bind_raised hh]
    rw [hh] at hr ho
    exact ⟨hr, ho⟩

theorem keeps_self_bind {f : σ → Handler σ ω ε α} (e : (f s).Keeps R P s) :
    (self >>= f).Keeps R P s := by
  simpa [Keeps, run_bind] using e

theorem keeps_ite {c : Prop} [Decidable c] (e : c → h.Keeps R P s) (e' : ¬c → g.Keeps R P s) :
    (if c then h else g).Keeps R P s := by
  split
  · next hc => exact e hc
  · next hc => exact e' hc

section Reflexive

variable (refl : ∀ s, R s s)

include refl

theorem keeps_pure (a : α) : (pure a : Handler σ ω ε α).Keeps R P s := ⟨refl s, by simp⟩

theorem keeps_call {o : ω} (ho : P o) : (call o : Handler σ ω ε Unit).Keeps R P s :=
  ⟨refl s, by simpa using ho⟩

theorem keeps_attempt_bind {x : Except ε α} (e : ∀ a, x = .ok a → (f a).Keeps R P s) :
    (attempt x >>= f).Keeps R P s := by
  cases x with
  | error x => exact ⟨refl s, by simp [run_bind]⟩
  | ok a => simpa [Keeps, run_bind] using e a rfl

end Reflexive

theorem keeps_tryExcept [DecidableEq ε] {x : ε} (trans : ∀ {s t u}, R s t → R t u → R s u)
    (e : h.Keeps R P s) (e' : ∀ t, R s t → g.Keeps R P t) : (tryExcept x h g).Keeps R P s := by
  obtain ⟨hr, ho⟩ := e
  rw [Keeps, run_tryExcept]
  rcases hh : h.run s with ⟨a, t, o⟩ | ⟨y, t, o⟩
  · simpa [hh] using And.intro hr ho
  · rw [hh] at hr ho
    obtain ⟨hr', ho'⟩ := e' t hr
    by_cases hy : y = x
    · simp only [hy, if_true, Outcome.state_after, Outcome.calls_after]
      refine ⟨trans hr hr', fun c hc => ?_⟩
      rcases List.mem_append.mp hc with hc | hc
      · exact ho c hc
      · exact ho' c hc
    · simpa [hy] using And.intro hr ho

theorem keeps_forM {γ : Type} {k : γ → Handler σ ω ε Unit} (refl : ∀ s, R s s)
    (trans : ∀ {s t u}, R s t → R t u → R s u) (items : List γ)
    (e : ∀ x ∈ items, ∀ s, (k x).Keeps R P s) (s : σ) : (items.forM k).Keeps R P s := by
  induction items generalizing s with
  | nil => exact keeps_pure refl _
  | cons x xs ih =>
    exact (e x (by simp) s).bind trans fun _ t _ => ih (fun y hy => e y (by simp [hy])) t

end Frames

section Guards

/-- From an object in `I` the handler ends in one, and all its calls meet `P`. -/
def Guards (I : σ → Prop) (P : ω → Prop) (h : Handler σ ω ε α) : Prop :=
  ∀ s, I s → I (h.run s).state ∧ ∀ o ∈ (h.run s).calls, P o

variable {I : σ → Prop} {P : ω → Prop} {h g : Handler σ ω ε α} {f : α → Handler σ ω ε β}

theorem guards_pure (a : α) : (pure a : Handler σ ω ε α).Guards I P :=
  fun _ hs => ⟨hs, by simp⟩

theorem guards_raise (x : ε) : (raise x : Handler σ ω ε α).Guards I P :=
  fun _ hs => ⟨hs, by simp⟩

theorem guards_update {u : σ → σ} (hu : ∀ s, I s → I (u s)) :
    (update u : Handler σ ω ε Unit).Guards I P :=
  fun s hs => ⟨hu s hs, by simp⟩

theorem guards_call {o : ω} (ho : P o) : (call o : Handler σ ω ε Unit).Guards I P :=
  fun _ hs => ⟨hs, by simpa using ho⟩

theorem guards_attempt (x : Except ε α) : (attempt x : Handler σ ω ε α).Guards I P := by
  cases x with
  | ok a => exact guards_pure a
  | error x => exact guards_raise x

theorem Guards.bind (e : h.Guards I P) (e' : ∀ a, (f a).Guards I P) : (h >>= f).Guards I P := by
  intro s hs
  obtain ⟨hi, ho⟩ := e s hs
  rw [run_bind]
  rcases hh : h.run s with ⟨a, t, o⟩ | ⟨x, t, o⟩
  · rw [hh] at hi ho
    obtain ⟨hi', ho'⟩ := e' a t hi
    refine ⟨by rwa [Outcome.state_after], fun c hc => ?_⟩
    rw [Outcome.calls_after] at hc
    rcases List.mem_append.mp hc with hc | hc
    · exact ho c hc
    · exact ho' c hc
  · rw [hh] at hi ho
    exact ⟨hi, ho⟩

/-- What follows may rely on the object that is read being in `I`. -/
theorem guards_self_bind {f : σ → Handler σ ω ε β} (e : ∀ s, I s → (f s).Guards I P) :
    (self >>= f).Guards I P := by
  intro s hs
  have hf := e s hs s hs
  simpa [run_bind] using hf

theorem guards_ite {c : Prop} [Decidable c] (e : c → h.Guards I P) (e' : ¬c → g.Guards I P) :
    (if c then h else g).Guards I P := by
  split
  · next hc => exact e hc
  · next hc => exact e' hc

theorem Guards.tryExcept [DecidableEq ε] {x : ε} (e : h.Guards I P) (e' : g.Guards I P) :
    (tryExcept x h g).Guards I P := by
  intro s hs
  obtain ⟨hi, ho⟩ := e s hs
  rw [run_tryExcept]
  rcases hh : h.run s with ⟨a, t, o⟩ | ⟨y, t, o⟩
  · rw [hh] at hi ho
    exact ⟨hi, ho⟩
  · rw [hh] at hi ho
    obtain ⟨hi', ho'⟩ := e' t hi
    by_cases hy : y = x
    · simp only [hy, if_true, Outcome.state_after, Outcome.calls_after]
      refine ⟨hi', fun c hc => ?_⟩
      rcases List.mem_append.mp hc with hc | hc
      · exact ho c hc
      · exact ho' c hc
    · simp only [hy, if_false]
      exact ⟨hi, ho⟩

theorem guards_forM {γ : Type} {k : γ → Handler σ ω ε Unit} (hk : ∀ x, (k x).Guards I P)
    (items : List γ) : (items.forM k).Guards I P := by
  induction items with
  | nil => exact guards_pure ()
  | cons x xs ih => exact (hk x).bind fun _ => ih

end Guards

section Blind

variable {h : Handler σ ω ε α} {f : α → Handler σ ω ε β}

/-- The result is the same on every object. -/
def Blind (h : Handler σ ω ε α) : Prop := ∃ r, ∀ s, (h.run s).result = r

theorem blind_pure (a : α) : (pure a : Handler σ ω ε α).Blind := ⟨.ok a, fun _ => rfl⟩

theorem blind_update (f : σ → σ) : (update f : Handler σ ω ε Unit).Blind := ⟨.ok (), fun _ => rfl⟩

theorem blind_attempt (x : Except ε α) : (attempt x : Handler σ ω ε α).Blind := by
  cases x with
  | ok a => exact ⟨.ok a, fun _ => rfl⟩
  | error x => exact ⟨.error x, fun _ => rfl⟩

theorem Blind.bind (e : h.Blind) (e' : ∀ a, (f a).Blind) : (h >>= f).Blind := by
  obtain ⟨r, hr⟩ := e
  cases r with
  | error x =>
    refine ⟨.error x, fun s => ?_⟩
    have hs := hr s
    rw [run_bind]
    cases hh : h.run s with
    | done a t o => simp [hh] at hs
    | raised y t o => simpa [hh] using hs
  | ok a =>
    obtain ⟨r', hr'⟩ := e' a
    refine ⟨r', fun s => ?_⟩
    have hs := hr s
    rw [run_bind]
    cases hh : h.run s with
    | done b t o =>
      obtain rfl : b = a := by simpa [hh] using hs
      rw [Outcome.result_after, hr']
    | raised y t o => simp [hh] at hs

theorem blind_forM {γ : Type} {k : γ → Handler σ ω ε Unit} (hk : ∀ x, (k x).Blind)
    (items : List γ) : (items.forM k).Blind := by
  induction items with
  | nil => exact blind_pure ()
  | cons x xs ih => exact (hk x).bind fun _ => ih

end Blind

end Handler

end BotTrader.Automata
