import BotTrader.Control.Refinement
import BotTrader.Python.Rational
import BotTrader.Strategy.Messages

/-! Whether a stop is final. A stop that finds a deletion pending leaves
`change_mode` as it is, so the end of the deleted order brings the trade back;
every other stop is final. -/

namespace BotTrader.Control

open Automata Python Strategy

/-! ### The abstract symbol -/

section Abstract

variable {π : Type} {name : Fin 2 → ℕ → String} {c : State π} {i : Input π}

/-- A symbol that trades no more without a new start. -/
def State.Off (c : State π) : Prop :=
  c.phase = .idle ∨ (∃ j, c.phase = .deleting j) ∧ c.changeMode = false

def Input.IsStart : Input π → Prop
  | .start _ _ _ => True
  | _ => False

/-- An input other than a start keeps a symbol off, and issues nothing. -/
theorem off_step (name : Fin 2 → ℕ → String) (h : c.Off) (hi : ¬i.IsStart) :
    ((machine name).next c i).Off ∧ ((machine name).emit c i).filterMap Act.ticket? = [] := by
  have hs := step_cases name c i
  generalize (machine name).next c i = c' at hs ⊢
  generalize (machine name).emit c i = acts at hs ⊢
  cases hs with
  | skip => exact ⟨h, rfl⟩
  | begin | beginAndPlace | reload | change => exact absurd trivial hi
  | place hw | confirm hw => simp [State.Off, hw] at h
  | rest hw | fill hw => rcases hw with hw | hw <;> simp [State.Off, hw] at h
  | halt hc =>
    have hm : c.changeMode = false := by
      rcases h with hp | ⟨-, hm⟩
      · simp [hp] at hc
      · exact hm
    exact ⟨.inr ⟨⟨_, rfl⟩, hm⟩, rfl⟩
  | resume hp hm => simp [State.Off, hp, hm] at h
  | canceled => exact ⟨.inl rfl, rfl⟩
  | timeout => exact ⟨.inl rfl, rfl⟩

theorem off_run {is : List (Input π)} (h : c.Off) (hi : ∀ i ∈ is, ¬i.IsStart) :
    ((machine name).emitted c is).filterMap Act.ticket? = [] := by
  induction is generalizing c with
  | nil => rfl
  | cons i is ih =>
    obtain ⟨ho, he⟩ := off_step name h (hi i (by simp))
    rw [Machine.emitted_cons, List.filterMap_append, he, ih ho fun j hj => hi j (by simp [hj])]
    rfl

/-- A stop puts a symbol off, unless it finds a change of data pending. -/
theorem off_stop (h : ¬(c.changeMode = true ∧ c.phase.Tracking)) :
    ((machine name).next c .stop).Off := by
  have hs := step_cases name c .stop
  generalize (machine name).next c .stop = c' at hs ⊢
  generalize (machine name).emit c .stop = acts at hs
  cases hs with
  | skip _ _ hp => exact .inl (hp rfl)
  | place _ hi => simp at hi
  | halt hc =>
    have ht : c.phase.Tracking := by
      rcases hc with ⟨hc | hc, -⟩ | hc <;> simp [hc, Phase.Tracking]
    refine .inr ⟨⟨_, rfl⟩, ?_⟩
    simpa [ht, State.cancel] using h
  | rest => exact .inl rfl

end Abstract

/-! ### The script -/

section Script

variable {F : Type} [Runtime F]

/-- A trade-run message whose `a` is `'start'`. -/
def IsStart : Event F → Prop
  | .tradeRun data => ∃ a, data.lookup "a" = some a ∧ a.isStr "start" = true
  | _ => False

theorem isStart_input {d : SymbolData F} {e : Event F} (h : ¬IsStart e) :
    ¬(input d e).IsStart := by
  cases e with
  | tradeRun data =>
    simp only [IsStart, not_exists, not_and, input] at h ⊢
    split
    · next a side ha hp => simp [h a ha, Input.IsStart]
    · simp [Input.IsStart]
  | price price =>
    simp only [input]
    split <;> simp [Input.IsStart]
  | _ => simp [input, Input.IsStart]

theorem isStart_labels {d : SymbolData F} {es : List (Event F)} (h : ∀ e ∈ es, ¬IsStart e) :
    ∀ i ∈ bot.labels input d es, ¬i.IsStart := by
  induction es generalizing d with
  | nil => simp [Machine.labels]
  | cons e es ih =>
    intro i hi
    rcases List.mem_cons.mp hi with rfl | hi
    · exact isStart_input (h e (by simp))
    · exact ih (fun e' he => h e' (by simp [he])) i hi

/-- After the message `data`, unless it is a start or fails, no order is issued
before the next start. -/
def StopFinal (d : SymbolData F) (data : Dict F) : Prop :=
  (d.react (.tradeRun data)).error = none → ¬IsStart (.tradeRun data : Event F) →
    ∀ es : List (Event F), (∀ e ∈ es, ¬IsStart e) → ordersOf (bot.next d (.tradeRun data)) es = []

theorem input_stop {d : SymbolData F} {data : Dict F} (he : (d.react (.tradeRun data)).error = none)
    (hs : ¬IsStart (.tradeRun data : Event F)) : input d (.tradeRun data) = .stop := by
  rcases ha : data.lookup "a" with _ | a
  · simp [SymbolData.react, Event.handler, run_onTradeRun_keyError (.inl ha)] at he
  rcases hp : data.lookup "p" with _ | side
  · simp [SymbolData.react, Event.handler, run_onTradeRun_keyError (.inr hp)] at he
  have hg : ¬a.isStr "start" = true := fun hg => hs ⟨a, ha, hg⟩
  simp [input, ha, hp, hg]

/-- A stop is final in every run, unless it comes while a change of data waits
for the end of the tracked order. -/
theorem stop_final (symbol : String) (es : List (Event F)) (data : Dict F)
    (h : ¬((bot.run (SymbolData.init symbol) es).changeMode = true ∧
      (bot.run (SymbolData.init symbol) es).waitOrderAct = true)) :
    StopFinal (bot.run (SymbolData.init symbol) es) data := by
  intro he hs fs hf
  obtain ⟨c, hc⟩ := reachable_models symbol es
  rw [waitOrderAct_iff hc, ← hc.changeMode] at h
  have hn := (bot_simulates symbol).next hc (.tradeRun data)
  rw [input_stop he hs] at hn
  have ht := tickets_of_run hn fs
  rw [off_run (off_stop h) (isStart_labels hf)] at ht
  exact List.map_eq_nil_iff.mp ht

/-- The stop of a waiting trade is final. -/
theorem stop_final_waiting : StopFinal (bot.run (SymbolData.init (F := ℚ) "BTC")
    [.tradeRun (command "start" "BUY")]) (command "stop" "BUY") :=
  stop_final "BTC" _ _ (by decide +kernel)

end Script

/-! ### A stop that is not final -/

/-- The data of a confirmed order are changed. -/
def changed : List (Event ℚ) := confirmedOrder ++ [.tradeRun (command "start" "BUY")]

/-- The end of the deleted order, and a price that crosses the trigger again. -/
def afterStop : List (Event ℚ) := [.orderReport canceledReport, .price (.str "9")]

/-- The deletion ends after the stop, and the next price places the order again. -/
theorem stop_not_final : ¬∀ (symbol : String) (es : List (Event ℚ)) (data : Dict ℚ),
    StopFinal (bot.run (SymbolData.init symbol) es) data := by
  intro h
  have hs : ¬IsStart (.tradeRun (command "stop" "BUY") : Event ℚ) := by
    rintro ⟨a, ha, hg⟩
    obtain rfl : a = .str "stop" := by simpa [command] using ha.symm
    simp [Json.isStr] at hg
  have he : ((bot.run (SymbolData.init "BTC") changed).react
      (.tradeRun (command "stop" "BUY"))).error = none := by decide +kernel
  have ho := h "BTC" changed (command "stop" "BUY") he hs afterStop (by simp [afterStop, IsStart])
  have hl : (ordersOf (bot.next (bot.run (SymbolData.init "BTC") changed)
      (.tradeRun (command "stop" "BUY"))) afterStop).length = 1 := by decide +kernel
  simp [ho] at hl

end BotTrader.Control
