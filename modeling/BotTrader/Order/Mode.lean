import BotTrader.Order.Sound

/-! The order dialogue and the input mode. The engine does not read the mode, and it sets it to
the mode of the commands only; while the mode is that of the orders, a call of the engine ends at a
question. -/

namespace BotTrader.Order

open Automata Handler Telegram

variable {F : Type} [LexicalCast F] {d d' : TOrder F} {data : String} {text? : Option String}
  {calls : List (Call F)} {field : F → BncOrder F → BncOrder F} {name : String}

/-! ### Nothing depends on the mode -/

theorem ReadsPrice.inMode (h : ReadsPrice data field name d d' calls) (mode : InputMode) :
    ReadsPrice data field name (d.setInputMode mode) (d'.setInputMode mode) calls := by
  cases h with
  | kept hr => exact .kept hr
  | number hr hx => exact .number hr hx

/-- What a pass does to the mode. -/
def Sets (f : InputMode → InputMode) : Prop := f = id ∨ f = fun _ => .command

theorem Sets.comp {f g : InputMode → InputMode} (hf : Sets f) (hg : Sets g) : Sets (g ∘ f) := by
  obtain rfl | rfl := hg
  · exact hf
  · exact .inr rfl

namespace TOrder

omit [LexicalCast F]

variable (mode : InputMode) (d : TOrder F)

theorem named_setInputMode (name : String) :
    (d.setInputMode mode).named name = (d.named name).setInputMode mode := by
  unfold named
  rw [apply_ite (setInputMode mode)]
  rfl

theorem sided_setInputMode (side : String) :
    (d.setInputMode mode).sided side = (d.sided side).setInputMode mode := by
  unfold sided
  rw [apply_ite (setInputMode mode)]
  rfl

theorem namedCalls_setInputMode (name : String) :
    (d.setInputMode mode).namedCalls name = d.namedCalls name := by
  unfold namedCalls
  rw [d.named_setInputMode]
  rfl

theorem named_inputMode (name : String) : (d.named name).inputMode = d.inputMode := by
  unfold named
  split <;> rfl

end TOrder

/-- Whatever the mode is, the pass is the same. -/
theorem Pass.inMode (h : Pass data d text? d' calls) :
    ∃ f, Sets f ∧ d'.inputMode = f d.inputMode ∧
      ∀ mode, Pass data (d.setInputMode mode) text? (d'.setInputMode (f mode)) calls := by
  have kept (hm : d'.inputMode = d.inputMode)
      (h : ∀ mode, Pass data (d.setInputMode mode) text? (d'.setInputMode mode) calls) :
      ∃ f, Sets f ∧ d'.inputMode = f d.inputMode ∧
        ∀ mode, Pass data (d.setInputMode mode) text? (d'.setInputMode (f mode)) calls :=
    ⟨id, .inl rfl, hm, h⟩
  cases h with
  | startEmpty hs hl => exact ⟨_, .inr rfl, rfl, fun _ => .startEmpty hs hl⟩
  | orderResult hs => exact ⟨_, .inr rfl, rfl, fun _ => .orderResult hs⟩
  | deleteEmpty hs hl => exact ⟨_, .inr rfl, rfl, fun _ => .deleteEmpty hs hl⟩
  | delReady hs => exact ⟨_, .inr rfl, rfl, fun _ => .delReady hs⟩
  | listSymbol hs => exact ⟨_, .inr rfl, rfl, fun _ => .listSymbol hs⟩
  | start hs hl => exact kept (by simp) fun _ => .start hs hl
  | nameMany hs hl =>
    refine kept (by simp [d.named_inputMode]) fun mode => ?_
    have hpass : Pass data (d.setInputMode mode) _ _ _ := .nameMany hs hl
    rwa [d.named_setInputMode, d.namedCalls_setInputMode] at hpass
  | nameOne hs hl =>
    refine kept (by simp [d.named_inputMode]) fun mode => ?_
    have hpass : Pass data (d.setInputMode mode) _ _ _ := .nameOne hs hl
    rwa [d.named_setInputMode, d.namedCalls_setInputMode] at hpass
  | side hs =>
    refine kept (by simp [d.sided_inputMode]) fun mode => ?_
    have hpass : Pass data (d.setInputMode mode) _ _ _ := .side hs
    rwa [d.sided_setInputMode] at hpass
  | symbol hs => exact kept (by simp) fun _ => .symbol hs
  | inputType hs => exact kept (by simp) fun _ => .inputType hs
  | typeHelp hs hd => exact kept (by simp) fun _ => .typeHelp hs hd
  | type hs hd => exact kept (by simp) fun _ => .type hs hd
  | quantityError hs hx => exact kept (by simp) fun _ => .quantityError hs hx
  | quantityMarket hs hx ht => exact kept (by simp) fun _ => .quantityMarket hs hx ht
  | quantityLimit hs hx ht => exact kept (by simp) fun _ => .quantityLimit hs hx ht
  | quantityStop hs hx ht ht' => exact kept (by simp) fun _ => .quantityStop hs hx ht ht'
  | stopPriceError hs hr hx => exact kept (by simp) fun _ => .stopPriceError hs hr hx
  | priceError hs hr hx => exact kept (by simp) fun _ => .priceError hs hr hx
  | timeInForceHelp hs hd => exact kept (by simp) fun _ => .timeInForceHelp hs hd
  | timeInForce hs hd => exact kept (by simp) fun _ => .timeInForce hs hd
  | orderReady hs => exact kept (by simp) fun _ => .orderReady hs
  | delete hs hl => exact kept (by simp) fun _ => .delete hs hl
  | delNameMany hs hl => exact kept (by simp) fun _ => .delNameMany hs hl
  | delNameOne hs hl => exact kept (by simp) fun _ => .delNameOne hs hl
  | delSymbol hs => exact kept (by simp) fun _ => .delSymbol hs
  | listMany hs hl => exact kept (by simp) fun _ => .listMany hs hl
  | listOne hs hl => exact kept (by simp) fun _ => .listOne hs hl
  | idle hs => exact kept (by simp) fun _ => .idle hs
  | stopPriceLimit hs hi ht =>
    refine kept hi.frame.2.2 fun mode => ?_
    exact Pass.stopPriceLimit (d := d.setInputMode mode) hs (hi.inMode mode) ht
  | stopPrice hs hi ht =>
    refine kept hi.frame.2.2 fun mode => ?_
    exact Pass.stopPrice (d := d.setInputMode mode) hs (hi.inMode mode) ht
  | priceLimit hs hi ht =>
    refine kept hi.frame.2.2 fun mode => ?_
    exact Pass.priceLimit (d := d.setInputMode mode) hs (hi.inMode mode) ht
  | priceOther hs hi ht =>
    refine kept hi.frame.2.2 fun mode => ?_
    exact Pass.priceOther (d := d.setInputMode mode) hs (hi.inMode mode) ht

theorem Passes.inMode (h : Passes data d d' calls) :
    ∃ f, Sets f ∧ d'.inputMode = f d.inputMode ∧
      ∀ mode, Passes data (d.setInputMode mode) (d'.setInputMode (f mode)) calls := by
  induction h with
  | last h =>
    obtain ⟨f, hf, hmode, hpass⟩ := h.inMode
    exact ⟨f, hf, hmode, fun mode => .last (hpass mode)⟩
  | again h _ ih =>
    obtain ⟨f, hf, hmode, hpass⟩ := h.inMode
    obtain ⟨g, hg, hmode', hpasses⟩ := ih
    refine ⟨g ∘ f, hf.comp hg, ?_, fun mode => .again (hpass mode) (hpasses _)⟩
    rw [hmode', hmode]
    rfl

/-- An event is the same to dialogues that differ in the mode only. -/
theorem event_inMode (hl : d.symbolsList ≠ []) (mode : InputMode) (e : Event) :
    (dialogue.next (d.setInputMode mode) e).setInputMode .command =
        (dialogue.next d e).setInputMode .command ∧
      dialogue.emit (d.setInputMode mode) e = dialogue.emit d e := by
  rcases event_passes hl e with ⟨text, rfl, hp⟩ | ⟨st, he, hp⟩
  · obtain ⟨f, -, -, hpasses⟩ := hp.inMode
    have hp' := hpasses mode
    rw [hp'.next, hp'.emit]
    exact ⟨rfl, rfl⟩
  · have hopened : (d.setInputMode mode).opened st = d.opened st := rfl
    rw [← hopened] at hp
    rw [hp.next_opens he, hp.emit_opens he]
    exact ⟨rfl, rfl⟩

/-- A text leaves the mode or ends with the commands; what opens a dialogue sets its mode. -/
theorem event_inputMode (hl : d.symbolsList ≠ []) (e : Event) :
    (dialogue.next d e).inputMode = .command ∨
      (dialogue.next d e).inputMode = if e.opens = none then d.inputMode else .order := by
  rcases event_passes hl e with ⟨text, rfl, hp⟩ | ⟨st, he, hp⟩
  · obtain ⟨f, rfl | rfl, hmode, -⟩ := hp.inMode
    · exact .inr hmode
    · exact .inl hmode
  · rw [he, if_neg (by simp)]
    obtain ⟨f, rfl | rfl, hmode, -⟩ := hp.inMode
    · exact .inr hmode
    · exact .inl hmode

/-! ### Questions -/

/-- The states in which a question has been asked. -/
def State.Asks (st : State) : Prop :=
  st ∈ [.name, .symbol, .type, .side, .quantity, .stopPrice, .price, .timeInForce, .orderResult,
    .delName, .delSymbol, .listSymbol]

instance (st : State) : Decidable st.Asks := inferInstanceAs (Decidable (st ∈ _))

/-- The state is sound whatever the mode, and if the mode is that of the orders there is more to
come. -/
structure Listens (d : TOrder F) : Prop where
  sound : Sound (d.setInputMode .command)
  order : d.inputMode = .order → Sound d

omit [LexicalCast F] in
theorem Listens.setInputMode (h : Listens d) {mode : InputMode} (hm : mode ≠ .order) :
    Listens (d.setInputMode mode) :=
  ⟨h.sound, fun ho => absurd ho hm⟩

theorem Pass.listens (h : Pass data d text? d' calls) (hd : Listens d) : Listens d' := by
  obtain ⟨f, hf, hmode, hpass⟩ := h.inMode
  constructor
  case sound =>
    have hsound := (hpass .command).sound hd.sound
    obtain rfl | rfl := hf <;> exact hsound
  case order =>
    intro ho
    obtain rfl | rfl := hf
    · exact h.sound (hd.order (hmode.symm.trans ho))
    · cases hmode.symm.trans ho

theorem Passes.listens (h : Passes data d d' calls) (hd : Listens d) : Listens d' := by
  induction h with
  | last h => exact h.listens hd
  | again h _ ih => exact ih (h.listens hd)

omit [LexicalCast F] in
theorem listens_opened {e : Event} {st : State} (he : e.opens = some st) (d : TOrder F) :
    Listens (d.opened st) := by
  refine ⟨?_, fun _ => sound_opened he d⟩
  cases e with
  | setData => cases he
  | _ =>
    obtain rfl := Option.some.inj he
    trivial

theorem event_listens (hl : d.symbolsList ≠ []) (hd : Listens d) (e : Event) :
    Listens (dialogue.next d e) := by
  rcases event_passes hl e with ⟨text, -, hp⟩ | ⟨st, he, hp⟩
  · exact hp.listens hd
  · exact hp.listens (listens_opened he d)

/-- A pass that is the last one leaves a question, or another mode. -/
theorem Pass.asks (h : Pass data d none d' calls) (hd : d.inputMode = .order → Sound d)
    (hm : d'.inputMode = .order) : d'.state.Asks := by
  cases h with
  | startEmpty | orderResult | deleteEmpty | delReady => cases hm
  | quantityError hs => rw [hs]; decide
  | stopPriceError hs => rw [hs]; decide
  | priceError hs => rw [hs]; decide
  | priceOther hs hi => rw [hi.frame.1, hs]; decide
  | idle hs =>
    have hsound := hd hm
    rcases hs with hs | hs <;> simp [Sound, hs, hm] at hsound
  | _ => simp [State.Asks]

theorem Passes.asks (h : Passes data d d' calls) (hd : Listens d) (hm : d'.inputMode = .order) :
    d'.state.Asks := by
  induction h with
  | last h => exact h.asks hd.order hm
  | again h _ ih => exact ih (h.listens hd) hm

/-- While the mode is that of the orders, every event leaves a question. -/
theorem event_asks (hl : d.symbolsList ≠ []) (hd : Listens d) (e : Event)
    (hm : (dialogue.next d e).inputMode = .order) : (dialogue.next d e).state.Asks := by
  rcases event_passes hl e with ⟨text, -, hp⟩ | ⟨st, he, hp⟩
  · exact hp.asks hd hm
  · exact hp.asks (listens_opened he d) hm

end BotTrader.Order
