import BotTrader.Application.Leaving
import BotTrader.Automata.Expansion
import BotTrader.Order.Verdict

/-! The order that is sent and the order that the user has confirmed. The confirmation is an event
of its own, and its handler sends what the dialogue has by then; this is the order that was
confirmed, as long as the user gives no answer while the opening of a dialogue waits. -/

namespace BotTrader.Application

open Automata Handler Telegram
open Web (Interface)
open BotTrader.Order (TOrder BncOrder LexicalCast Call firstArg verdict manuals)

variable {F : Type}

namespace ChatEvent

/-- The order dialogue is opened: for a new order, to delete one, or to list the open ones. -/
def Opens : ChatEvent F → Prop
  | .tlg (.orderOps (.new _)) | .tlg (.orderOps (.delete _)) | .tlg (.orderOps (.list .opened)) =>
    True
  | _ => False

instance : ∀ p : ChatEvent F, Decidable p.Opens
  | .tlg (.orderOps (.new _)) | .tlg (.orderOps (.delete _)) | .tlg (.orderOps (.list .opened)) =>
    .isTrue trivial
  | .tlg (.orderOps (.list .all)) | .tlg (.orderOps .info) | .tlg .test | .tlg (.updateId _) | .tlg .getPrice | .tlg .getAccount | .tlg .order
  | .tlg (.orderData _) | .tlg .getIndicators | .tlg .statistic | .tlg (.statData _) | .tlg .menu
  | .tlg (.script _) | .tlg (.scriptData _) | .manual _ | .delete _ | .reqList _ | .statReady _
  | .reqValue _ | .reqCommand .. => .isFalse id

/-- A text for the order dialogue. -/
def IsText : ChatEvent F → Prop
  | .tlg (.orderData _) => True
  | _ => False

/-- An order is sent, corrected or dropped. -/
def IsManual : ChatEvent F → Prop
  | .manual _ => True
  | _ => False

/-- The order that the handler of a confirmation sends. -/
def confirmed? (order : BncOrder F) : ChatEvent F → Option (BncOrder F)
  | .manual .execute => some order
  | _ => none

/-- The order that the user confirms with a text. -/
def confirms? (d : TOrder F) : ChatEvent F → Option (BncOrder F)
  | .tlg (.orderData text) =>
    if d.state = .orderResult ∧ firstArg text = "$e" then some d.order else none
  | _ => none

end ChatEvent

/-- The order that is sent. -/
def Said.created? : Said F → Option (BncOrder F)
  | .createOrder order => some order
  | _ => none

namespace Conversation

/-- What is confirmed by the texts that were handled and not sent so far. -/
def confirmations (c : Conversation F) : List (BncOrder F) :=
  c.eventList.filterMap (ChatEvent.confirmed? c.order.order)

/-- The order that is confirmed in a step. -/
def confirms (c : Conversation F) : Event → List (BncOrder F)
  | .dispatcher => (c.eventList.head?.bind (ChatEvent.confirms? c.order)).toList
  | _ => []

/-- A text for the order dialogue does not come while an opening waits. -/
def InStep (c : Conversation F) : Event → Prop
  | .update _ => c.inputMode = .order → ∀ p ∈ c.eventList, ¬p.Opens
  | _ => True

instance (c : Conversation F) : ∀ e, Decidable (c.InStep e)
  | .update _ => inferInstanceAs (Decidable (c.inputMode = .order → ∀ p ∈ c.eventList, ¬p.Opens))
  | .updateId _ | .dispatcher | .requestValue _ | .requestCommand .. => .isTrue trivial

/-- No text waits behind an opening, and none that is an answer to a question waits before a
confirmation. -/
structure InTurn (c : Conversation F) : Prop where
  symbols : c.order.symbolsList ≠ []
  texts : c.eventList.Pairwise fun p q => p.Opens → ¬q.IsText
  ready : c.order.state ≠ .orderResult → c.eventList.Pairwise fun p q => p.IsText → ¬q.IsManual

/-! ### What waits -/

variable {c c' : Conversation F} {es : List (ChatEvent F)}

@[simp] theorem confirmed?_tlg (order : BncOrder F) (e : TlgEvent) :
    (ChatEvent.tlg e).confirmed? order = none := rfl

@[simp] theorem confirms?_orderOps (d : TOrder F) (cmd : BncCommand) :
    (ChatEvent.tlg (.orderOps cmd)).confirms? d = none := rfl

@[simp] theorem confirms?_orderData (d : TOrder F) (text : String) :
    (ChatEvent.tlg (.orderData text)).confirms? d =
      if d.state = .orderResult ∧ firstArg text = "$e" then some d.order else none := rfl

theorem confirmed?_of_not_isManual {order : BncOrder F} {p : ChatEvent F} (h : ¬p.IsManual) :
    p.confirmed? order = none := by
  cases p <;> first | rfl | exact absurd trivial h

theorem filterMap_confirmed? {order : BncOrder F} (h : ∀ p ∈ es, ¬p.IsManual) :
    es.filterMap (ChatEvent.confirmed? order) = [] :=
  List.filterMap_eq_nil_iff.mpr fun p hp => confirmed?_of_not_isManual (h p hp)

theorem confirmations_eq_nil (h : ∀ p ∈ c.eventList, ¬p.IsManual) : c.confirmations = [] :=
  filterMap_confirmed? h

theorem pairwise_posted {R : ChatEvent F → ChatEvent F → Prop} (hc : c.eventList.Pairwise R)
    (h : ∀ p ∈ c.eventList ++ es, ∀ q ∈ es, R p q) : (c.eventList ++ es).Pairwise R :=
  List.pairwise_append.mpr ⟨hc,
    List.pairwise_of_forall_mem_list fun p hp => h p (List.mem_append_right _ hp),
    fun p hp => h p (List.mem_append_left _ hp)⟩

/-- The order of the dialogue is the same, and the events that come are neither texts for it nor
confirmations. -/
structure Rests (c c' : Conversation F) : Prop where
  order : c'.order = c.order
  events : ∃ es, c'.eventList = c.eventList ++ es ∧ ∀ p ∈ es, ¬p.IsText ∧ ¬p.IsManual

theorem Rests.of_eq (ho : c'.order = c.order) (he : c'.eventList = c.eventList) : Rests c c' :=
  ⟨ho, [], by rw [he, List.append_nil], by simp⟩

theorem Rests.confirmations (h : Rests c c') : c'.confirmations = c.confirmations := by
  obtain ⟨es, he, hes⟩ := h.events
  rw [Conversation.confirmations, he, h.order, List.filterMap_append,
    filterMap_confirmed? fun p hp => (hes p hp).2, List.append_nil]
  rfl

theorem Rests.trans {c'' : Conversation F} (h : Rests c c') (h' : Rests c' c'') : Rests c c'' := by
  obtain ⟨es, he, hes⟩ := h.events
  obtain ⟨es', he', hes'⟩ := h'.events
  refine ⟨h'.order.trans h.order, es ++ es', by rw [he', he, List.append_assoc], fun p hp => ?_⟩
  exact (List.mem_append.mp hp).elim (hes p) (hes' p)

theorem rests_post {q : ChatEvent F} (hq : ¬q.IsText ∧ ¬q.IsManual) (c : Conversation F) :
    Rests c (c.post [q]) :=
  ⟨rfl, [q], rfl, fun p hp => by rwa [List.mem_singleton.mp hp]⟩

theorem InTurn.rests (hc : InTurn c) (h : Rests c c') : InTurn c' := by
  obtain ⟨es, he, hes⟩ := h.events
  refine ⟨h.order ▸ hc.symbols, ?_, fun hs => ?_⟩ <;> rw [he]
  · exact pairwise_posted hc.texts fun p _ q hq _ => (hes q hq).1
  · exact pairwise_posted (hc.ready (h.order ▸ hs)) fun p _ q hq _ => (hes q hq).2

/-- A text for the dialogue comes behind events of which none is an opening. -/
theorem InTurn.text (hc : InTurn c) (ho : ∀ p ∈ c.eventList, ¬p.Opens) (text : String) :
    InTurn (c.post [.tlg (.orderData text)]) where
  symbols := hc.symbols
  texts := by
    refine pairwise_posted hc.texts fun p hp q hq hopens => ?_
    rcases List.mem_append.mp hp with hp | hp
    · exact absurd hopens (ho p hp)
    · rw [List.mem_singleton.mp hp] at hopens
      exact hopens.elim
  ready hs := pairwise_posted (hc.ready hs) fun p _ q hq _ => by
    rw [List.mem_singleton.mp hq]
    exact id

theorem inTurn_init (order : BncOrder F) {symbolsList : List String} (hl : symbolsList ≠ []) :
    InTurn (init order symbolsList) :=
  ⟨hl, .nil, fun _ => .nil⟩

/-! ### What is written -/

/-- A command is no text for a dialogue. -/
theorem rests_answer {intf : Interface} {msg : Message} {as : List Answer}
    (has : ∀ a ∈ as, a ∈ commandHandler intf msg) (c : Conversation F) :
    Rests c (c.answer as).1 := by
  refine ⟨rfl, _, rfl, fun p hp => ?_⟩
  obtain ⟨a, ha, hpost⟩ := List.mem_filterMap.mp hp
  cases a with
  | sendMessage => cases hpost
  | event e =>
    have hcommand := isCommand_of_commandHandler (has _ ha)
    cases hpost
    refine ⟨fun ht => ?_, id⟩
    cases e <;> first | exact hcommand | exact ht

theorem created_answer (as : List Answer) (c : Conversation F) :
    (c.answer as).2.filterMap Said.created? = [] := by
  refine List.filterMap_eq_nil_iff.mpr fun o ho => ?_
  obtain ⟨a, -, ha⟩ := List.mem_filterMap.mp ho
  cases a <;> cases ha
  rfl

/-- A text, in step. -/
theorem InTurn.round (intf : Interface) (hc : InTurn c) (u : Update)
    (h : c.inputMode = .order → ∀ p ∈ c.eventList, ¬p.Opens) :
    InTurn (c.round intf u).1 ∧ (c.round intf u).2.filterMap Said.created? = [] ∧
      (c.round intf u).1.confirmations = c.confirmations := by
  have rests {r : Conversation F × List (Said F)} (hr : Rests c r.1)
      (hcreated : r.2.filterMap Said.created? = []) :
      InTurn r.1 ∧ r.2.filterMap Said.created? = [] ∧ r.1.confirmations = c.confirmations :=
    ⟨hc.rests hr, hcreated, hr.confirmations⟩
  have hcommands : ∀ a ∈ u.message.entities.flatMap (fun entity =>
      if entity.type = .bot_command then commandHandler intf u.message else []),
      a ∈ commandHandler intf u.message := by
    intro a ha
    obtain ⟨entity, -, ha⟩ := List.mem_flatMap.mp ha
    split at ha
    · exact ha
    · cases ha
  unfold Conversation.round
  cases hm : c.inputMode with
  | command => exact rests (rests_answer hcommands c) (created_answer _ c)
  | order =>
    refine ⟨hc.text (h hm) _, rfl, ?_⟩
    simp [confirmations, ChatEvent.confirmed?]
  | script =>
    have hpost : Rests c ((c.post [.tlg (.scriptData u.message.text)]).setInputMode .command) :=
      (rests_post ⟨id, id⟩ c).trans (.of_eq rfl rfl)
    exact rests (hpost.trans (rests_answer hcommands _)) (created_answer _ _)
  | statistic =>
    exact rests ((rests_post ⟨id, id⟩ c).trans (rests_answer hcommands _)) (created_answer _ _)
  | line => exact rests (.of_eq rfl rfl) rfl

/-! ### What a call posts -/

/-- The event that a call of `TOrder` posts. -/
def posted? : Call F → Option (ChatEvent F)
  | .manual result => some (.manual result)
  | .delete order => some (.delete order)
  | .reqList symbol => some (.reqList symbol)
  | .sendMessage _ _ => none

theorem not_isText_posted (calls : List (Call F)) : ∀ p ∈ calls.filterMap posted?, ¬p.IsText := by
  intro p hp
  obtain ⟨call, -, hcall⟩ := List.mem_filterMap.mp hp
  cases call <;> cases hcall <;> exact id

theorem not_isManual_posted {calls : List (Call F)} (h : manuals calls = []) :
    ∀ p ∈ calls.filterMap posted?, ¬p.IsManual := by
  intro p hp
  obtain ⟨call, hmem, hcall⟩ := List.mem_filterMap.mp hp
  have hnone := List.filterMap_eq_nil_iff.mp h call hmem
  cases call <;> cases hcall <;> first | exact id | cases hnone

theorem confirmed?_posted (calls : List (Call F)) (order : BncOrder F) :
    (calls.filterMap posted?).filterMap (ChatEvent.confirmed? order) =
      (manuals calls).filterMap fun r => if r = .execute then some order else none := by
  rw [manuals, List.filterMap_filterMap, List.filterMap_filterMap]
  congr 1
  funext call
  cases call with
  | manual r => cases r <;> rfl
  | _ => rfl

theorem rests_count (lexicalCast : String → Option UInt16) (c : Conversation F)
    (i : Statistic.Input) : Rests c (c.count lexicalCast i).1 := by
  refine ⟨rfl, _, rfl, fun p hp => ?_⟩
  obtain ⟨o, -, ho⟩ := List.mem_filterMap.mp hp
  cases o <;> cases ho
  exact ⟨id, id⟩

theorem created_count (lexicalCast : String → Option UInt16) (c : Conversation F)
    (i : Statistic.Input) : (c.count lexicalCast i).2.filterMap Said.created? = [] := by
  refine List.filterMap_eq_nil_iff.mpr fun o ho => ?_
  obtain ⟨out, -, hout⟩ := List.mem_filterMap.mp ho
  cases out with
  | sendMessage text keys => cases keys <;> cases hout <;> rfl
  | _ => cases hout

/-! ### What the handlers do -/

/-- What the handler of an event leaves: what waited with the event, and what is confirmed by it, is
sent or waits. -/
structure Told (c : Conversation F) (p : ChatEvent F) (r : Conversation F × List (Said F)) :
    Prop where
  turn : InTurn r.1
  law : (p.confirmed? c.order.order).toList ++ c.confirmations ++ (p.confirms? c.order).toList =
    r.2.filterMap Said.created? ++ r.1.confirmations

variable {p : ChatEvent F} {r : Conversation F × List (Said F)}

/-- An event that is neither a text for the dialogue nor a confirmation. -/
theorem InTurn.quiet (hc : InTurn c) (h : Rests c r.1) (hr : r.2.filterMap Said.created? = [])
    (hconfirmed : p.confirmed? c.order.order = none) (hconfirms : p.confirms? c.order = none) :
    Told c p r where
  turn := hc.rests h
  law := by rw [hconfirmed, hconfirms, hr, h.confirmations]; simp

variable [LexicalCast F]

theorem order_talk (c : Conversation F) (e : Order.Event) :
    (c.talk e).1.order = Order.dialogue.next (c.order.setInputMode c.inputMode) e := rfl

theorem eventList_talk (c : Conversation F) (e : Order.Event) :
    (c.talk e).1.eventList = c.eventList ++
      (Order.dialogue.emit (c.order.setInputMode c.inputMode) e).filterMap posted? := rfl

theorem created_talk (c : Conversation F) (e : Order.Event) :
    (c.talk e).2.filterMap Said.created? = [] := by
  refine List.filterMap_eq_nil_iff.mpr fun o ho => ?_
  obtain ⟨call, -, hcall⟩ := List.mem_filterMap.mp ho
  cases call <;> cases hcall
  rfl

/-- As long as the order stays, what the call posts comes to the confirmations that wait. -/
theorem confirmations_talk {e : Order.Event}
    (h : (Order.dialogue.next (c.order.setInputMode c.inputMode) e).order = c.order.order) :
    (c.talk e).1.confirmations = c.confirmations ++
      (manuals (Order.dialogue.emit (c.order.setInputMode c.inputMode) e)).filterMap fun r =>
        if r = .execute then some c.order.order else none := by
  rw [confirmations, confirmations, eventList_talk, order_talk, h, List.filterMap_append,
    confirmed?_posted]

theorem InTurn.talk (hc : InTurn c) (e : Order.Event)
    (hready : (c.talk e).1.order.state ≠ .orderResult →
      (c.talk e).1.eventList.Pairwise fun p q => p.IsText → ¬q.IsManual) :
    InTurn (c.talk e).1 where
  symbols := by
    have hl : (c.order.setInputMode c.inputMode).symbolsList ≠ [] := hc.symbols
    rw [order_talk, Order.event_symbolsList hl]
    exact hl
  texts := pairwise_posted hc.texts fun p _ q hq _ => not_isText_posted _ q hq
  ready := hready

/-- A dialogue is opened. -/
theorem InTurn.opened (hc : InTurn c) (ht : ∀ q ∈ c.eventList, ¬q.IsText) {e : Order.Event}
    (he : e.opens ≠ none) (cmd : BncCommand) : Told c (.tlg (.orderOps cmd)) (c.talk e) := by
  have hl : (c.order.setInputMode c.inputMode).symbolsList ≠ [] := hc.symbols
  obtain ⟨horder, hmanuals⟩ := Order.opened_next hl he
  have htexts : ∀ q ∈ (c.talk e).1.eventList, ¬q.IsText := by
    intro q hq
    rw [eventList_talk] at hq
    exact (List.mem_append.mp hq).elim (ht q) (not_isText_posted _ q)
  constructor
  case turn =>
    exact hc.talk e fun _ =>
      List.pairwise_of_forall_mem_list fun p hp q _ htext => absurd htext (htexts p hp)
  case law =>
    rw [created_talk, confirmations_talk horder, hmanuals]
    simp

/-- The order that is ready is confirmed, corrected or dropped, or it waits on. -/
theorem InTurn.answered (hc : InTurn c) (hs : c.order.state = .orderResult) (text : String) :
    Told c (.tlg (.orderData text)) (c.talk (.setData text)) := by
  have hready : (c.order.setInputMode c.inputMode).state = .orderResult := hs
  obtain ⟨hstate, hmanuals⟩ := Order.ready_next hready text
  constructor
  case turn => exact hc.talk _ fun hne => absurd hstate hne
  case law =>
    rw [created_talk, confirmations_talk (Order.order_ready hready text), hmanuals]
    by_cases he : firstArg text = "$e"
    · simp [hs, he, verdict]
    · by_cases hd : firstArg text = "$c" <;> simp [he, hd, verdict]

/-- A question is answered; no confirmation waits then. -/
theorem InTurn.asked (hc : InTurn c) (hs : c.order.state ≠ .orderResult)
    (hm : ∀ q ∈ c.eventList, ¬q.IsManual) (text : String) :
    Told c (.tlg (.orderData text)) (c.talk (.setData text)) := by
  have hd : (c.order.setInputMode c.inputMode).Defined := .inl hc.symbols
  have hmanuals := Order.manuals_of_ne hd hs text
  have hnone : ∀ q ∈ (c.talk (.setData text)).1.eventList, ¬q.IsManual := by
    intro q hq
    rw [eventList_talk] at hq
    exact (List.mem_append.mp hq).elim (hm q) (not_isManual_posted hmanuals q)
  constructor
  case turn =>
    exact hc.talk _ fun _ => List.pairwise_of_forall_mem_list fun p _ q hq _ => hnone q hq
  case law =>
    rw [created_talk, confirmations_eq_nil hm, confirmations_eq_nil hnone]
    simp [hs]

/-- The handler of an event that was in front. -/
theorem InTurn.handle (intf : Interface) (lexicalCast : String → Option UInt16) (hc : InTurn c)
    (p : ChatEvent F) (ho : p.Opens → ∀ q ∈ c.eventList, ¬q.IsText)
    (ht : c.order.state ≠ .orderResult → p.IsText → ∀ q ∈ c.eventList, ¬q.IsManual) :
    Told c p (c.handle intf lexicalCast p) := by
  have same : Rests c c := .of_eq rfl rfl
  cases p with
  | tlg e =>
    cases e with
    | orderOps cmd =>
      show Told c _ (if intf ≠ .IntfTlg then (c, []) else c.orderOps cmd)
      split
      · exact hc.quiet same rfl rfl rfl
      · cases cmd with
        | new => exact hc.opened (e := .start) (ho trivial) (Option.some_ne_none _) _
        | delete => exact hc.opened (e := .del) (ho trivial) (Option.some_ne_none _) _
        | info => exact hc.quiet same rfl rfl rfl
        | list type =>
          cases type with
          | all => exact hc.quiet same rfl rfl rfl
          | opened => exact hc.opened (e := .list) (ho trivial) (Option.some_ne_none _) _
    | orderData text =>
      by_cases hs : c.order.state = .orderResult
      · exact hc.answered hs text
      · exact hc.asked hs (ht hs trivial) text
    | statistic | statData => exact hc.quiet (rests_count _ c _) (created_count _ c _) rfl rfl
    | order | script =>
      refine hc.quiet same ?_ rfl rfl
      simp only [Conversation.handle, handleTlg]
      split <;> rfl
    | _ => exact hc.quiet same rfl rfl rfl
  | manual result => exact ⟨hc, by cases result <;> simp [Conversation.handle, ChatEvent.confirmed?,
      ChatEvent.confirms?, Said.created?]⟩
  | delete | reqList =>
    refine hc.quiet same ?_ rfl rfl
    simp only [Conversation.handle]
    split <;> rfl
  | reqValue | reqCommand | statReady => exact hc.quiet (.of_eq rfl rfl) rfl rfl rfl

/-! ### Runs -/

theorem InTurn.step (intf : Interface) (lexicalCast : String → Option UInt16) (hc : InTurn c)
    (e : Event) (he : c.InStep e) :
    InTurn (c.step intf lexicalCast e).1 ∧
      c.confirmations ++ c.confirms e =
        (c.step intf lexicalCast e).2.filterMap Said.created? ++
          (c.step intf lexicalCast e).1.confirmations := by
  have posts (q : ChatEvent F) (hq : ¬q.IsText ∧ ¬q.IsManual) : InTurn (c.post [q]) ∧
      c.confirmations ++ [] = [] ++ (c.post [q]).confirmations :=
    ⟨hc.rests (rests_post hq c), by simpa using (rests_post hq c).confirmations.symm⟩
  cases e with
  | update u =>
    obtain ⟨hturn, hcreated, hconfirmations⟩ := hc.round intf u he
    exact ⟨hturn, by simpa [Conversation.step, confirms, hcreated] using hconfirmations.symm⟩
  | updateId n => exact posts (.tlg (.updateId n)) ⟨id, id⟩
  | requestValue msg => exact posts (.reqValue msg) ⟨id, id⟩
  | requestCommand msg keys orientation => exact posts (.reqCommand msg keys orientation) ⟨id, id⟩
  | dispatcher =>
    show InTurn (c.dispatcher intf lexicalCast).1 ∧ _ =
      (c.dispatcher intf lexicalCast).2.filterMap Said.created? ++
        (c.dispatcher intf lexicalCast).1.confirmations
    unfold dispatcher
    split
    · next he => exact ⟨hc, by simp [confirms, he]⟩
    · next p es he =>
      have htexts := List.pairwise_cons.mp (he ▸ hc.texts)
      have hready (hs : c.order.state ≠ .orderResult) := List.pairwise_cons.mp (he ▸ hc.ready hs)
      have hrest : InTurn { c with eventList := es } :=
        ⟨hc.symbols, htexts.2, fun hs => (hready hs).2⟩
      have told := hrest.handle intf lexicalCast p (fun ho q hq => htexts.1 q hq ho)
        fun hs ht q hq => (hready hs).1 q hq ht
      refine ⟨told.turn, ?_⟩
      rw [← told.law]
      simp only [confirmations, confirms, he, List.filterMap_cons, List.head?_cons,
        Option.bind_some]
      cases p.confirmed? c.order.order <;> rfl

/-- In step, what was confirmed is sent or waits. -/
theorem InTurn.law (intf : Interface) (lexicalCast : String → Option UInt16) (hc : InTurn c)
    {es : List Event} (h : (conversation intf lexicalCast).Along InStep c es) :
    let M := conversation intf lexicalCast
    c.confirmations ++ M.expanded confirms c es =
      (M.emitted c es).filterMap Said.created? ++ (M.run c es).confirmations :=
  Machine.expanded_conserves (P := InStep) InTurn confirmations confirms Said.created?
    (fun _ e hc he => (hc.step intf lexicalCast e he).1)
    (fun _ e hc he => (hc.step intf lexicalCast e he).2) hc h

/-- A text that is a command. -/
def command (text : String) : Event :=
  .update { message := { text := text, entities := [{ type := .bot_command }] } }

/-- The user opens an order, answers each question when it was asked, and confirms the order. -/
def enterOrder (name : String) : List Event :=
  [command "/order new", .dispatcher] ++
    [name, "MARKET", "BUY", "1", "$e"].flatMap (fun text => [written text, .dispatcher]) ++
    [.dispatcher]

/-- Two orders, and a look at all orders in between, of which nothing is asked. -/
def twoOrders : List Event :=
  enterOrder "first" ++ [command "/order list", .dispatcher] ++ enterOrder "second"

/-- The user is ahead of the bot. The second opening is handled when the answers for the first one
are already there, and a third one waits when the next name comes. -/
def hurried : List Event :=
  [command "/order new", command "/stat", command "/order new", .dispatcher] ++
    ["first", "MARKET", "BUY", "1", "$e"].map written ++
    [.dispatcher, command "/order new", .dispatcher, written "second"] ++
    List.replicate 9 .dispatcher

/-- The first order is confirmed, and what is sent has the name of the second. -/
example :
    let M := conversation (F := ℚ) .IntfTlg fun _ => none
    let c := init Order.newDialogue.order ["BTC"]
    ((M.emitted c hurried).filterMap Said.created?).map BncOrder.newClientOrderId = ["second"] ∧
      (M.expanded confirms c hurried).map BncOrder.newClientOrderId = ["first"] := by
  decide +kernel

end Conversation

end BotTrader.Application
