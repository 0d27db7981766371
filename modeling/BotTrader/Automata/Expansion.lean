import BotTrader.Automata.Machine

/-! One machine followed by another at a finer grain: a step of the first amounts to any number
of steps of the second, which depends on where the first is. -/

namespace BotTrader.Automata.Machine

variable {σ ε ω τ ε' ω' : Type*} (M : Machine σ ε ω) (N : Machine τ ε' ω')

/-- The events that a run amounts to. -/
def expanded (label : σ → ε → List ε') : σ → List ε → List ε'
  | _, [] => []
  | s, e :: es => label s e ++ expanded label (M.next s e) es

variable {M N} {label : σ → ε → List ε'}

/-- A relation of the two states and of the outputs so far that a step keeps, a run keeps. -/
theorem run_expanded {R : σ → List ω → τ → Prop}
    (hstep : ∀ s os t e, R s os t → R (M.next s e) (os ++ M.emit s e) (N.run t (label s e)))
    {s : σ} {os : List ω} {t : τ} (h : R s os t) (es : List ε) :
    R (M.run s es) (os ++ M.emitted s es) (N.run t (M.expanded label s es)) := by
  induction es generalizing s os t with
  | nil => simpa [expanded] using h
  | cons e es ih =>
    have hrest := ih (hstep s os t e h)
    rw [List.append_assoc] at hrest
    simpa only [run_cons, emitted_cons, expanded, run_append] using hrest

/-- The same for a relation of the two states. -/
theorem state_expanded {R : σ → τ → Prop}
    (hnext : ∀ s t e, R s t → R (M.next s e) (N.run t (label s e))) {s : σ} {t : τ} (h : R s t)
    (es : List ε) : R (M.run s es) (N.run t (M.expanded label s es)) := by
  induction es generalizing s t with
  | nil => exact h
  | cons e es ih => simpa only [run_cons, expanded, run_append] using ih (hnext s t e h)

/-- What `N` shows of each step of `M`, it shows of the run. -/
theorem emitted_expanded {R : σ → τ → Prop} {view : ω → Option ω'}
    (hnext : ∀ s t e, R s t → R (M.next s e) (N.run t (label s e)))
    (hemit : ∀ s t e, R s t → (M.emit s e).filterMap view = N.emitted t (label s e))
    {s : σ} {t : τ} (h : R s t) (es : List ε) :
    (M.emitted s es).filterMap view = N.emitted t (M.expanded label s es) := by
  induction es generalizing s t with
  | nil => rfl
  | cons e es ih =>
    have hrest := ih (hnext s t e h)
    simp only [emitted_cons, expanded, List.filterMap_append, emitted_append, hemit s t e h, hrest]

/-- What comes in, by what each step takes in the state that it starts from, goes out in its order,
but for what is pending. -/
theorem expanded_conserves {α : Type*} {P : σ → ε → Prop} (I : σ → Prop) (pending : σ → List α)
    (ins : σ → ε → List α) (outs : ω → Option α) (hstep : ∀ s e, I s → P s e → I (M.next s e))
    (hlaw : ∀ s e, I s → P s e →
      pending s ++ ins s e = (M.emit s e).filterMap outs ++ pending (M.next s e))
    {s : σ} {es : List ε} (hs : I s) (h : M.Along P s es) :
    pending s ++ M.expanded ins s es = (M.emitted s es).filterMap outs ++ pending (M.run s es) := by
  induction es generalizing s with
  | nil => simp [expanded]
  | cons e es ih =>
    have hrest := ih (hstep s e hs h.1) h.2
    rw [expanded, ← List.append_assoc, hlaw s e hs h.1, List.append_assoc, hrest, emitted_cons,
      List.filterMap_append, List.append_assoc, run_cons]

theorem expanded_append (s : σ) (es fs : List ε) : M.expanded label s (es ++ fs) =
    M.expanded label s es ++ M.expanded label (M.run s es) fs := by
  induction es generalizing s with
  | nil => rfl
  | cons e es ih => simp only [List.cons_append, expanded, run_cons, ih, List.append_assoc]

/-- What a run takes in, one of its steps takes in. -/
theorem exists_of_mem_expanded {x : ε'} {s : σ} {es : List ε} (h : x ∈ M.expanded label s es) :
    ∃ us e vs, es = us ++ e :: vs ∧ x ∈ label (M.run s us) e := by
  induction es generalizing s with
  | nil => cases h
  | cons e es ih =>
    rcases List.mem_append.mp h with h | h
    · exact ⟨[], e, es, rfl, h⟩
    · obtain ⟨us, e', vs, rfl, hx⟩ := ih h
      exact ⟨e :: us, e', vs, rfl, hx⟩

/-- What a run takes in step by step, by the states of `M` or by those of `N`. -/
theorem expanded_expanded {α : Type*} {R : σ → τ → Prop} {ins : σ → ε → List α}
    {ins' : τ → ε' → List α} (hnext : ∀ s t e, R s t → R (M.next s e) (N.run t (label s e)))
    (hins : ∀ s t e, R s t → ins s e = N.expanded ins' t (label s e)) {s : σ} {t : τ} (h : R s t)
    (es : List ε) : M.expanded ins s es = N.expanded ins' t (M.expanded label s es) := by
  induction es generalizing s t with
  | nil => rfl
  | cons e es ih =>
    rw [expanded, expanded, expanded_append, ← hins s t e h, ih (hnext s t e h)]

end BotTrader.Automata.Machine
