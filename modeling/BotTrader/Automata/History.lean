import Mathlib.Data.List.Induction

/-! Histories that mix events with outputs: what holds of the first output, and
of each two outputs with nothing but events between them. A history grows at
its end, by an event or by an output. -/

namespace BotTrader.Automata.History

variable {ε ω : Type*} {h : List (ε ⊕ ω)} {e : ε} {o : ω}

/-- The first output of the history meets `P`. -/
def First (P : ω → Prop) (h : List (ε ⊕ ω)) : Prop :=
  ∀ (es : List ε) o rest, h = es.map .inl ++ .inr o :: rest → P o

/-- Each output is related to the next one, with the events between the two. -/
def Consecutive (R : ω → List ε → ω → Prop) (h : List (ε ⊕ ω)) : Prop :=
  ∀ pre o (es : List ε) o' post, h = pre ++ .inr o :: (es.map .inl ++ .inr o' :: post) → R o es o'

/-- The last output of the history is `o`, and `es` came after it. -/
def Since (o : ω) (es : List ε) (h : List (ε ⊕ ω)) : Prop :=
  ∃ pre, h = pre ++ .inr o :: es.map .inl

/-- Where a list that ends in `x` holds an element `a`. -/
theorem append_singleton_eq {α : Type*} {l r h : List α} {a x : α}
    (he : h ++ [x] = l ++ a :: r) : r = [] ∧ a = x ∧ h = l ∨ ∃ r', h = l ++ a :: r' ∧ r = r' ++ [x] := by
  rcases List.eq_nil_or_concat r with rfl | ⟨r', y, rfl⟩
  · obtain ⟨rfl, hx⟩ := List.append_inj' he rfl
    exact .inl ⟨rfl, (List.singleton_inj.mp hx).symm, rfl⟩
  · rw [List.concat_eq_append] at he ⊢
    have he' : h ++ [x] = (l ++ a :: r') ++ [y] := by simpa using he
    obtain ⟨rfl, hx⟩ := List.append_inj' he' rfl
    exact .inr ⟨r', rfl, by rw [List.singleton_inj.mp hx]⟩

section First

variable {P : ω → Prop}

theorem first_nil : First P ([] : List (ε ⊕ ω)) := by
  simp [First]

theorem First.event (hf : First P h) : First P (h ++ [.inl e]) := by
  intro es o rest he
  rcases append_singleton_eq he with ⟨-, ho, -⟩ | ⟨rest', rfl, -⟩
  · cases ho
  · exact hf es o rest' rfl

theorem First.output (hf : First P h) (ho : ∀ es : List ε, h = es.map .inl → P o) :
    First P (h ++ [.inr o]) := by
  intro es o' rest he
  rcases append_singleton_eq he with ⟨-, ho', rfl⟩ | ⟨rest', rfl, -⟩
  · cases ho'
    exact ho es rfl
  · exact hf es o' rest' rfl

theorem First.imp {Q : ω → Prop} (hf : First P h) (hq : ∀ o, P o → Q o) : First Q h :=
  fun es o rest he => hq o (hf es o rest he)

theorem First.of_map {ω' : Type*} {f : ω' → ω} {h : List (ε ⊕ ω')}
    (hf : First P (h.map (Sum.map id f))) : First (fun o => P (f o)) h :=
  fun es o rest he => hf es (f o) (rest.map (Sum.map id f)) (by simp [he])

end First

section Consecutive

variable {R : ω → List ε → ω → Prop}

theorem consecutive_nil : Consecutive R ([] : List (ε ⊕ ω)) := by
  simp [Consecutive]

theorem Consecutive.event (hc : Consecutive R h) : Consecutive R (h ++ [.inl e]) := by
  intro pre o es o' post he
  rw [← List.cons_append, ← List.append_assoc] at he
  rcases append_singleton_eq he with ⟨-, ho, -⟩ | ⟨post', rfl, -⟩
  · cases ho
  · exact hc pre o es o' post' (by simp)

theorem Consecutive.output (hc : Consecutive R h) (ho : ∀ o' es, Since o' es h → R o' es o) :
    Consecutive R (h ++ [.inr o]) := by
  intro pre o₁ es o₂ post he
  rw [← List.cons_append, ← List.append_assoc] at he
  rcases append_singleton_eq he with ⟨-, ho', rfl⟩ | ⟨post', rfl, -⟩
  · cases ho'
    exact ho o₁ es ⟨pre, rfl⟩
  · exact hc pre o₁ es o₂ post' (by simp)

theorem Consecutive.imp {S : ω → List ε → ω → Prop} (hc : Consecutive R h)
    (hs : ∀ o es o', R o es o' → S o es o') : Consecutive S h :=
  fun pre o es o' post he => hs o es o' (hc pre o es o' post he)

theorem Consecutive.of_map {ω' : Type*} {f : ω' → ω} {h : List (ε ⊕ ω')}
    (hc : Consecutive R (h.map (Sum.map id f))) :
    Consecutive (fun o es o' => R (f o) es (f o')) h := fun pre o es o' post he =>
  hc (pre.map (Sum.map id f)) (f o) es (f o') (post.map (Sum.map id f)) (by simp [he])

end Consecutive

section Since

variable {o' : ω} {es es' : List ε}

theorem Since.event (hs : Since o es h) : Since o (es ++ [e]) (h ++ [.inl e]) := by
  obtain ⟨pre, rfl⟩ := hs
  exact ⟨pre, by simp⟩

theorem since_output (h : List (ε ⊕ ω)) (o : ω) : Since o ([] : List ε) (h ++ [.inr o]) := ⟨h, rfl⟩

/-- The last output and what came after it are unique. -/
theorem Since.unique (hs : Since o es h) (hs' : Since o' es' h) : o = o' ∧ es = es' := by
  induction es using List.reverseRecOn generalizing h es' with
  | nil =>
    obtain ⟨pre, rfl⟩ := hs
    obtain ⟨pre', he⟩ := hs'
    rcases append_singleton_eq he with ⟨hn, ho, -⟩ | ⟨r, -, hr⟩
    · cases ho
      exact ⟨rfl, (List.map_eq_nil_iff.mp hn).symm⟩
    · have hm : Sum.inr o ∈ es'.map Sum.inl := by simp [hr]
      simp at hm
  | append_singleton es e ih =>
    obtain ⟨pre, rfl⟩ := hs
    obtain ⟨pre', he⟩ := hs'
    rcases List.eq_nil_or_concat es' with rfl | ⟨es'', e', rfl⟩
    · have he' : (pre ++ .inr o :: es.map .inl) ++ [.inl e] = pre' ++ .inr o' :: [] := by
        simpa using he
      rcases append_singleton_eq he' with ⟨-, ho, -⟩ | ⟨r, -, hr⟩
      · cases ho
      · simp at hr
    · simp only [List.concat_eq_append, List.map_append, List.map_cons, List.map_nil] at he
      rw [← List.cons_append, ← List.append_assoc, ← List.cons_append, ← List.append_assoc] at he
      obtain ⟨he', hx⟩ := List.append_inj' he rfl
      obtain ⟨rfl, rfl⟩ := ih ⟨pre, rfl⟩ ⟨pre', he'⟩
      simpa using hx

/-- A history with a last output is not one of events alone. -/
theorem Since.not_events (hs : Since o es h) (he : h = es'.map .inl) : False := by
  obtain ⟨pre, rfl⟩ := hs
  have hm : Sum.inr o ∈ es'.map (Sum.inl : ε → ε ⊕ ω) := by simp [← he]
  simp at hm

end Since

end BotTrader.Automata.History
