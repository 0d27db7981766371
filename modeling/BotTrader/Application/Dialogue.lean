import BotTrader.Application.Confirmation

/-! The order dialogue of the chat. The events wait in a queue and the mode decides which texts are
for the dialogue; what the dialogue hears is a list of calls all the same, and its state and the
orders that it confirms are those of the dialogue alone under these calls. -/

namespace BotTrader.Application

open Automata Handler Telegram
open Web (Interface)
open BotTrader.Order (TOrder BncOrder LexicalCast firstArg)

variable {F : Type}

/-- The call of `TOrder` that an event is. -/
def ChatEvent.call? (intf : Interface) : ChatEvent F → Option Order.Event
  | .tlg (.orderData text) => some (.setData text)
  | .tlg (.orderOps cmd) =>
    if intf ≠ .IntfTlg then none
    else match cmd with
      | .new _ => some .start
      | .delete _ => some .del
      | .list .opened => some .list
      | .list .all | .info => none
  | _ => none

namespace Conversation

/-- The call of `TOrder` in a step. -/
def called (intf : Interface) (c : Conversation F) : Event → List Order.Event
  | .dispatcher => (c.eventList.head?.bind (ChatEvent.call? intf)).toList
  | _ => []

/-- The order that is confirmed with a call. -/
def confirmedBy (d : TOrder F) : Order.Event → List (BncOrder F)
  | .setData text => if d.state = .orderResult ∧ firstArg text = "$e" then [d.order] else []
  | _ => []

/-- The dialogue of the chat is this one, whatever the mode is. -/
structure Plays (c : Conversation F) (d : TOrder F) : Prop where
  symbols : d.symbolsList ≠ []
  dialogue : c.order.setInputMode .command = d.setInputMode .command

variable {c : Conversation F} {d : TOrder F}

theorem Plays.inMode (h : Plays c d) (mode : InputMode) :
    c.order.setInputMode mode = d.setInputMode mode := by
  have hmode := congrArg (TOrder.setInputMode mode) h.dialogue
  exact hmode

theorem Plays.order (h : Plays c d) : c.order.state = d.state ∧ c.order.order = d.order := by
  have hstate := congrArg TOrder.state h.dialogue
  have horder := congrArg TOrder.order h.dialogue
  exact ⟨hstate, horder⟩

/-- What an event confirms is what the call does that it is. -/
theorem Plays.confirms? (h : Plays c d) (intf : Interface) (p : ChatEvent F) :
    (p.confirms? c.order).toList = ((p.call? intf).toList).flatMap (confirmedBy d) := by
  obtain ⟨hstate, horder⟩ := h.order
  cases p with
  | tlg e =>
    cases e with
    | orderData text =>
      simp only [confirms?_orderData, ChatEvent.call?, hstate, horder, Option.toList_some,
        List.flatMap_singleton, confirmedBy]
      split <;> rfl
    | orderOps cmd =>
      simp only [confirms?_orderOps, ChatEvent.call?]
      split
      · rfl
      · cases cmd with
        | list type => cases type <;> rfl
        | _ => rfl
    | _ => rfl
  | _ => rfl

theorem order_round (c : Conversation F) (u : Update) : (c.round intf u).1.order = c.order := by
  unfold round
  cases c.inputMode <;> rfl

variable [LexicalCast F]

theorem Plays.confirms (h : Plays c d) (intf : Interface) (e : Event) :
    c.confirms e = Order.dialogue.expanded confirmedBy d (c.called intf e) := by
  cases e with
  | dispatcher =>
    cases he : c.eventList with
    | nil => simp [Conversation.confirms, called, he, Machine.expanded]
    | cons p es =>
      simp only [Conversation.confirms, called, he, List.head?_cons, Option.bind_some,
        h.confirms? intf p]
      cases p.call? intf <;> simp [Machine.expanded]
  | _ => rfl

theorem order_handle (intf : Interface) (lexicalCast : String → Option UInt16)
    (c : Conversation F) (p : ChatEvent F) :
    (c.handle intf lexicalCast p).1.order = (p.call? intf).elim c.order fun e =>
      Order.dialogue.next (c.order.setInputMode c.inputMode) e := by
  cases p with
  | tlg e =>
    cases e with
    | orderOps cmd =>
      show (if intf ≠ .IntfTlg then (c, []) else c.orderOps cmd).1.order = _
      simp only [ChatEvent.call?]
      split
      · rfl
      · cases cmd with
        | list type => cases type <;> rfl
        | _ => rfl
    | _ => rfl
  | _ => rfl

/-- The same call does the same. -/
theorem Plays.next (h : Plays c d) (mode : InputMode) (e : Order.Event) :
    (Order.dialogue.next (c.order.setInputMode mode) e).setInputMode .command =
      (Order.dialogue.next d e).setInputMode .command := by
  rw [h.inMode]
  exact (Order.event_inMode h.symbols mode e).1

theorem Plays.step (h : Plays c d) (intf : Interface) (lexicalCast : String → Option UInt16)
    (e : Event) :
    Plays (c.step intf lexicalCast e).1 (Order.dialogue.run d (c.called intf e)) := by
  cases e with
  | update u =>
    refine ⟨h.symbols, ?_⟩
    show (c.round intf u).1.order.setInputMode .command = _
    rw [order_round]
    exact h.dialogue
  | updateId | requestValue | requestCommand => exact ⟨h.symbols, h.dialogue⟩
  | dispatcher =>
    show Plays (c.dispatcher intf lexicalCast).1 _
    unfold dispatcher
    split
    · next he =>
      have hcalled : c.called intf .dispatcher = [] := by simp [called, he]
      rw [hcalled]
      exact h
    · next p es he =>
      have hcalled : c.called intf .dispatcher = (p.call? intf).toList := by simp [called, he]
      have horder := order_handle intf lexicalCast { c with eventList := es } p
      rw [hcalled]
      cases hp : p.call? intf with
      | none =>
        rw [hp] at horder
        exact ⟨h.symbols, (congrArg _ horder).trans h.dialogue⟩
      | some e =>
        rw [hp] at horder
        exact ⟨Order.event_symbolsList h.symbols e ▸ h.symbols,
          (congrArg _ horder).trans (h.next c.inputMode e)⟩

/-- In every run of the chat, its order dialogue is the dialogue alone that hears, one after the
other, what the dispatcher takes from the queue; and the orders that the user confirms are those
that are confirmed there. -/
theorem dialogue_alone (intf : Interface) (lexicalCast : String → Option UInt16)
    (order : BncOrder F) {symbolsList : List String} (hl : symbolsList ≠ []) (es : List Event) :
    let M := conversation intf lexicalCast
    let c := init order symbolsList
    let d := TOrder.init order symbolsList
    let calls := M.expanded (called intf) c es
    (M.run c es).order.setInputMode .command =
        (Order.dialogue.run d calls).setInputMode .command ∧
      M.expanded confirms c es = Order.dialogue.expanded confirmedBy d calls := by
  intro M c d calls
  have hinit : Plays c d := ⟨hl, rfl⟩
  have hnext (c : Conversation F) (d : TOrder F) (e : Event) (h : Plays c d) :
      Plays (M.next c e) (Order.dialogue.run d (c.called intf e)) := h.step intf lexicalCast e
  constructor
  · exact (M.state_expanded hnext hinit es).dialogue
  · exact M.expanded_expanded hnext (fun c d e h => h.confirms intf e) hinit es

/-- The order is the one that was ready when a text confirmed it, after an opening for a new order
and texts only. -/
def ConfirmedIn (d : TOrder F) (calls : List Order.Event) (o : BncOrder F) : Prop :=
  ∃ (pre : List Order.Event) (texts : List String) (last : String) (post : List Order.Event),
    calls = pre ++ .start :: texts.map .setData ++ .setData last :: post ∧ firstArg last = "$e" ∧
      let d' := Order.dialogue.run (Order.dialogue.next (Order.dialogue.run d pre) .start)
        (texts.map .setData)
      d'.state = .orderResult ∧ d'.order = o

theorem confirmedIn_of_mem {o : BncOrder F} {calls : List Order.Event}
    (hl : d.symbolsList ≠ []) (hs : d.state ∈ Order.others)
    (h : o ∈ Order.dialogue.expanded confirmedBy d calls) : ConfirmedIn d calls o := by
  obtain ⟨us, e, post, hcalls, ho⟩ := Machine.exists_of_mem_expanded h
  cases e with
  | setData last =>
    simp only [confirmedBy] at ho
    split at ho
    · next hready =>
      rcases Order.begun_run hl hs us with hother | ⟨pre, texts, rfl⟩
      · rw [hready.1] at hother
        exact absurd hother (by decide)
      · rw [Machine.run_append, Machine.run_cons] at hready ho
        exact ⟨pre, texts, last, post, hcalls, hready.2, hready.1, (List.mem_singleton.mp ho).symm⟩
    · cases ho
  | _ => cases ho

/-- As long as no answer for the order dialogue comes while an opening waits: every order that is
sent is the one that the dialogue had ready when the user confirmed it, and all that the dialogue
has heard for it are the texts since the opening for this order. -/
theorem created_confirmedIn (intf : Interface) (lexicalCast : String → Option UInt16)
    (order : BncOrder F) {symbolsList : List String} (hl : symbolsList ≠ []) (es : List Event)
    (h : (conversation intf lexicalCast).Along InStep (init order symbolsList) es) :
    let M := conversation intf lexicalCast
    let c := init order symbolsList
    ∀ o ∈ (M.emitted c es).filterMap Said.created?,
      ConfirmedIn (.init order symbolsList) (M.expanded (called intf) c es) o := by
  intro M c o ho
  have hlaw := (inTurn_init order hl).law intf lexicalCast h
  have hconfirmed : o ∈ c.confirmations ++ M.expanded confirms c es := by
    rw [hlaw]
    exact List.mem_append_left _ ho
  have hcalls := (dialogue_alone intf lexicalCast order hl es).2
  exact confirmedIn_of_mem hl (by simp [TOrder.init, Order.others]) (hcalls ▸ hconfirmed)

/-- The second order is made by its own texts. -/
theorem created_confirmedIn_first :
    let M := conversation (F := ℚ) .IntfTlg fun _ => none
    let c := init Order.newDialogue.order ["BTC"]
    ∃ o ∈ (M.emitted c twoOrders).filterMap Said.created?, o.newClientOrderId = "second" ∧
      ConfirmedIn Order.newDialogue (M.expanded (called .IntfTlg) c twoOrders) o := by
  intro M c
  have hnames : ((M.emitted c twoOrders).filterMap Said.created?).map BncOrder.newClientOrderId =
      ["first", "second"] := by decide +kernel
  have hmem : "second" ∈ ((M.emitted c twoOrders).filterMap Said.created?).map
      BncOrder.newClientOrderId := by
    rw [hnames]
    decide
  obtain ⟨o, ho, hid⟩ := List.mem_map.mp hmem
  exact ⟨o, ho, hid, created_confirmedIn .IntfTlg (fun _ => none) Order.newDialogue.order
    (show ["BTC"] ≠ [] by decide) twoOrders (by decide +kernel) o ho⟩

end Conversation

end BotTrader.Application
