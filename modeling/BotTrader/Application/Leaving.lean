import BotTrader.Application.Conversation

/-! Whether the chat comes back to the commands. As long as the mode is that of the orders, also a
command is a text for the dialogue, so that a dialogue that cannot be left takes the whole chat
with it; nothing else does. -/

namespace BotTrader.Application

open Automata Handler Telegram
open Web (Interface)
open BotTrader.Order (TOrder BncOrder LexicalCast Stuck)

variable {F : Type} {intf : Interface} {lexicalCast : String → Option UInt16}

/-- The handler of the event leaves the mode and the dialogues alone. -/
def ChatEvent.Harmless : ChatEvent F → Prop
  | .tlg (.orderOps _) | .tlg .statistic | .tlg (.statData _) | .tlg (.orderData _) => False
  | .reqValue _ | .reqCommand _ _ _ => False
  | _ => True

namespace Conversation

/-- What only the script can bring about. -/
def Event.IsRequest : Event → Prop
  | .requestValue _ | .requestCommand _ _ _ => True
  | _ => False

variable [LexicalCast F] {c : Conversation F}

theorem handle_harmless {e : ChatEvent F} (he : e.Harmless) (c : Conversation F) :
    (c.handle intf lexicalCast e).1 = c := by
  cases e with
  | tlg e => cases e <;> first | rfl | cases he
  | reqValue | reqCommand => cases he
  | _ => rfl

/-- What the order dialogue posts is harmless. -/
theorem harmless_talk (c : Conversation F) (e : Order.Event) :
    ∃ es : List (ChatEvent F), (∀ p ∈ es, p.Harmless) ∧
      (c.talk e).1.eventList = c.eventList ++ es := by
  refine ⟨_, fun p hp => ?_, rfl⟩
  obtain ⟨call, -, hcall⟩ := List.mem_filterMap.mp hp
  cases call <;> cases hcall <;> trivial

/-! ### The trap -/

/-- The order dialogue hears every text and cannot be left. -/
structure Locked (c : Conversation F) : Prop where
  mode : c.inputMode = .order
  symbols : c.order.symbolsList ≠ []
  stuck : Stuck c.order
  events : ∀ p ∈ c.eventList, p.Harmless ∨ ∃ text, p = .tlg (.orderData text)

theorem Locked.talk (h : Locked c) (text : String) : Locked (c.talk (.setData text)).1 := by
  let d := c.order.setInputMode c.inputMode
  have hd : d.Defined := .inl h.symbols
  obtain ⟨d', calls, hp, -⟩ := hd.passes text
  obtain ⟨hs, hm⟩ := hp.stuck (d := d) h.stuck
  have hnext : Order.dialogue.next d (.setData text) = d' := hp.next
  obtain ⟨es, hes, hposts⟩ := harmless_talk c (.setData text)
  constructor
  case mode =>
    show (Order.dialogue.next d (.setData text)).inputMode = .order
    rw [hnext, hm]
    exact h.mode
  case symbols =>
    show (Order.dialogue.next d (.setData text)).symbolsList ≠ []
    rw [hnext, hp.symbolsList]
    exact h.symbols
  case stuck =>
    show Stuck (Order.dialogue.next d (.setData text))
    exact hnext ▸ hs
  case events =>
    intro p hp
    rw [hposts] at hp
    exact (List.mem_append.mp hp).elim (h.events p) fun hp => .inl (hes p hp)

omit [LexicalCast F] in
theorem Locked.post (h : Locked c) {es : List (ChatEvent F)}
    (hes : ∀ p ∈ es, p.Harmless ∨ ∃ text, p = .tlg (.orderData text)) : Locked (c.post es) :=
  ⟨h.mode, h.symbols, h.stuck, fun p hp => (List.mem_append.mp hp).elim (h.events p) (hes p)⟩

/-- No text and no event leads out of it; only the script does. -/
theorem Locked.step (h : Locked c) {e : Event} (he : ¬e.IsRequest) :
    Locked (c.step intf lexicalCast e).1 := by
  cases e with
  | update u =>
    show Locked (c.round intf u).1
    simp only [round, h.mode]
    exact h.post (by simp)
  | updateId id => exact h.post (by simp [ChatEvent.Harmless])
  | dispatcher =>
    show Locked (c.dispatcher intf lexicalCast).1
    unfold dispatcher
    split
    · exact h
    · next p ps hps =>
      have hrest : Locked { c with eventList := ps } :=
        ⟨h.mode, h.symbols, h.stuck, fun q hq => h.events q (hps ▸ List.mem_cons_of_mem p hq)⟩
      rcases h.events p (hps ▸ List.mem_cons_self) with hp | ⟨text, rfl⟩
      · rw [handle_harmless hp]
        exact hrest
      · exact hrest.talk text
  | requestValue | requestCommand => exact absurd trivial he

theorem Locked.run (h : Locked c) {es : List Event} (he : ∀ e ∈ es, ¬e.IsRequest) :
    Locked ((conversation intf lexicalCast).run c es) :=
  Machine.run_invariant (P := fun _ e => ¬e.IsRequest) Locked (fun _ _ hc he => hc.step he) h
    (Machine.along_of_mem _ _ _ he)

/-! ### The ways out -/

/-- The user and the dispatcher can bring the chat back to the commands. -/
def Returns (intf : Interface) (lexicalCast : String → Option UInt16) (c : Conversation F) : Prop :=
  ∃ es : List Event, (∀ e ∈ es, ¬e.IsRequest) ∧
    ((conversation intf lexicalCast).run c es).inputMode = .command

theorem returns_of_run (es : List Event) (he : ∀ e ∈ es, ¬e.IsRequest)
    (h : Returns intf lexicalCast ((conversation intf lexicalCast).run c es)) :
    Returns intf lexicalCast c := by
  obtain ⟨es', he', hm⟩ := h
  refine ⟨es ++ es', fun e h => (List.mem_append.mp h).elim (he e) (he' e), ?_⟩
  rwa [Machine.run_append]

theorem returns_of_command (h : c.inputMode = .command) : Returns intf lexicalCast c :=
  ⟨[], by simp, h⟩

/-- Harmless events are handled without a trace. -/
theorem returns_of_drained (h : ∀ p ∈ c.eventList, p.Harmless)
    (hr : Returns intf lexicalCast { c with eventList := [] }) : Returns intf lexicalCast c := by
  obtain ⟨mode, events, order, statistic⟩ := c
  induction events with
  | nil => exact hr
  | cons p ps ih =>
    refine returns_of_run [.dispatcher] (by simp [Event.IsRequest]) ?_
    have hnext : (conversation intf lexicalCast).run ⟨mode, p :: ps, order, statistic⟩
        [.dispatcher] = ⟨mode, ps, order, statistic⟩ := handle_harmless (h p List.mem_cons_self) _
    rw [hnext]
    exact ih (fun q hq => h q (List.mem_cons_of_mem p hq)) hr

/-- A text without commands. -/
def written (text : String) : Event := .update { message := { text := text } }

/-- A text that the order dialogue hears. -/
theorem run_written_order {order : TOrder F} {statistic : Statistic} (text : String) :
    (conversation intf lexicalCast).run ⟨.order, [], order, statistic⟩ [written text, .dispatcher] =
      (talk (.setData text) ⟨.order, [], order, statistic⟩).1 := rfl

/-- A text that the statistics hear. -/
theorem run_written_statistic {order : TOrder F} {statistic : Statistic} (text : String) :
    (conversation intf lexicalCast).run ⟨.statistic, [], order, statistic⟩
        [written text, .dispatcher] =
      (count lexicalCast (.setData text) ⟨.statistic, [], order, statistic⟩).1 := rfl

theorem not_isRequest_written {text : String} :
    ∀ e ∈ [written text, .dispatcher], ¬e.IsRequest := by
  simp [written, Event.IsRequest]

/-- Texts that end the order dialogue bring the commands back. -/
theorem returns_of_exits {texts : List String} (hs : c.order.symbolsList ≠ [])
    (hm : c.inputMode = .order) (hq : ∀ p ∈ c.eventList, p.Harmless)
    (h : (Order.dialogue.run (c.order.setInputMode .order) (texts.map .setData)).inputMode =
      .command) : Returns intf lexicalCast c := by
  induction texts generalizing c with
  | nil => cases h
  | cons text texts ih =>
    refine returns_of_drained hq ?_
    obtain ⟨mode, events, order, statistic⟩ := c
    obtain rfl : mode = .order := hm
    refine returns_of_run [written text, .dispatcher] not_isRequest_written ?_
    rw [run_written_order]
    let d' := Order.dialogue.next (order.setInputMode .order) (.setData text)
    have hmode : d'.inputMode = .command ∨ d'.inputMode = .order :=
      Order.event_inputMode (d := order.setInputMode .order) hs (.setData text)
    rcases hmode with hmode | hmode
    · exact returns_of_command hmode
    · obtain ⟨es, hes, hposts⟩ := harmless_talk (F := F) ⟨.order, [], order, statistic⟩
        (.setData text)
      refine ih ?_ hmode (fun p hp => hes p (by simpa [hposts] using hp)) ?_
      · exact Order.event_symbolsList (d := order.setInputMode .order) hs (.setData text) ▸ hs
      · have hset : d'.setInputMode .order = d' := by
          rw [← hmode]
          rfl
        show (Order.dialogue.run (d'.setInputMode .order) _).inputMode = .command
        rw [hset]
        exact h

/-- The statistics end with a text, whatever they have asked for. -/
theorem returns_of_statistic (h : Heard c) (hm : c.inputMode = .statistic) (hq : c.eventList = []) :
    Returns intf lexicalCast c := by
  obtain ⟨mode, events, order, state, d, b⟩ := c
  obtain rfl : mode = .statistic := hm
  obtain rfl : events = [] := hq
  refine returns_of_run [written "$c", .dispatcher] not_isRequest_written ?_
  rw [run_written_statistic]
  refine returns_of_command ?_
  have hcancel : Statistic.firstArg "$c" = "$c" := by decide
  rcases h.waits.resolve_left (h.statistic rfl) with hs | hs
  · obtain rfl : state = .SS_Symbol := hs
    simp [count, Statistic.statistic, Statistic.engine_symbol, hcancel, modeAfter]
  · obtain rfl : state = .SS_Period := hs
    simp only [count, Statistic.statistic, Statistic.engine_period, post_inputMode]
    cases lexicalCast (Statistic.firstArg "$c") <;> simp [modeAfter]

/-- Whatever is written and whatever the script asks, and when no event is left: the user can bring
the chat back to the commands, also without the script, unless the order dialogue is heard and is
on the way to a price that nothing follows. -/
theorem commands_again_iff (hx : ∃ val x, (LexicalCast.lexicalCast val : Option F) = some x)
    (intf : Interface) (lexicalCast : String → Option UInt16) (order : BncOrder F)
    {symbolsList : List String} (hl : symbolsList ≠ []) (es : List Event) :
    let c := (conversation intf lexicalCast).run (init order symbolsList) es
    c.eventList = [] →
      ((∃ es' : List Event, (∀ e ∈ es', ¬e.IsRequest) ∧
          ((conversation intf lexicalCast).run c es').inputMode = .command) ↔
        ¬(c.inputMode = .order ∧ Stuck c.order)) := by
  intro c hq
  have h : Heard c := heard_run intf lexicalCast order hl es
  constructor
  · rintro ⟨es', he, hm⟩ ⟨ho, hs⟩
    have hlocked : Locked c := ⟨ho, h.symbols, hs, by simp [hq]⟩
    have hmode : ((conversation intf lexicalCast).run c es').inputMode = .order :=
      (hlocked.run he).mode
    rw [hm] at hmode
    cases hmode
  · intro hs
    obtain ⟨val, x, hx⟩ := hx
    cases hm : c.inputMode with
    | command => exact returns_of_command hm
    | order =>
      have hstuck : ¬Stuck (c.order.setInputMode .order) := fun hd => hs ⟨hm, hd⟩
      have hd : (c.order.setInputMode .order).Defined := .inl h.symbols
      have hsound : Order.Sound (c.order.setInputMode .order) := hm ▸ h.listens.order hm
      obtain ⟨texts, ht⟩ := Order.exits_of_not_stuck hx hd hsound hstuck
      exact returns_of_exits h.symbols hm (by simp [hq]) ht
    | script =>
      refine returns_of_run [written ""] (by simp [written, Event.IsRequest])
        (returns_of_command ?_)
      show (c.round intf _).1.inputMode = .command
      simp only [round, hm]
      rfl
    | statistic => exact returns_of_statistic h hm hq
    | line => exact absurd hm h.line

/-- The user begins a stop-loss-limit order. -/
def stopLossLimit : List Event :=
  [.update { message := { text := "/order new", entities := [{ type := .bot_command }] } },
    .dispatcher, written "first", .dispatcher, written "STOP_LOSS_LIMIT", .dispatcher]

/-- The chat is lost. -/
theorem not_commands_again_stopLossLimit :
    ¬∃ es' : List Event, (∀ e ∈ es', ¬e.IsRequest) ∧
      ((conversation .IntfTlg fun _ => none).run ((conversation .IntfTlg fun _ => none).run
        (init Order.newDialogue.order ["BTC"]) stopLossLimit) es').inputMode = .command := by
  have hx : ∃ val x, (LexicalCast.lexicalCast val : Option ℚ) = some x := ⟨"1", 1, by decide +kernel⟩
  have hiff := commands_again_iff hx .IntfTlg (fun _ => none) Order.newDialogue.order
    (show ["BTC"] ≠ [] by decide) stopLossLimit rfl
  rw [hiff, not_not]
  exact ⟨by decide +kernel, by decide +kernel, .inl (by decide +kernel)⟩

end Conversation

end BotTrader.Application
