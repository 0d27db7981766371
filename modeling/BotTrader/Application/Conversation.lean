import BotTrader.Application.Statistic
import BotTrader.Order.Exits
import BotTrader.Order.Mode
import BotTrader.Telegram.Commands

/-! The chat with the user. What is written is a command, or a text for the dialogue that the input
mode stands for; either becomes an event, and the handlers of the events open the dialogues, pass
the texts to them, and set the input mode. A text is taken in one step, and so is an event, which
the code takes off its list behind the handler. The printing of what is sent is modelled with the
dialogues; logs are left out, and so is the chat that a message goes to. -/

namespace BotTrader.Application

open Automata Handler Telegram
open Web (Interface)
open BotTrader.Order (TOrder BncOrder OrderResult Markup LexicalCast)

/-- `TlgKeyboard::Side` -/
inductive Orientation where
  | Vertical | Horizontal
  deriving DecidableEq, Repr

/-- The rows of a keyboard with these keys. -/
def keyboard (keys : List String) : Orientation → Order.Keyboard
  | .Vertical => keys.map ([·])
  | .Horizontal => [keys]

/-- What `m_event_list` has that is about the chat. -/
inductive ChatEvent (F : Type) where
  | tlg (e : TlgEvent)
  | reqValue (msg : String)
  | reqCommand (msg : String) (keys : List String) (orientation : Orientation)
  | manual (result : OrderResult)
  | delete (order : BncOrder F)
  | reqList (symbol : String)
  | statReady (data : StatData)

/-- What is sent to the user, and asked of the rest of the program. -/
inductive Said (F : Type) where
  | sendMessage (text : String) (markup : Markup)
  | updateId (id : ℤ)
  | priceUserReq
  | getPrice
  | getAccount
  | getAllOrders
  | getOpenOrders (symbol : String)
  | createOrder (order : BncOrder F)
  | deleteOrder (id symbol : String)
  | deleteAllOrders
  | report (data : StatData)
  | getIndicators
  | userValue (val : String)
  | eval

/-- `m_input_mode`, the list of events, and the dialogues. -/
structure Conversation (F : Type) where
  inputMode : InputMode := .command
  eventList : List (ChatEvent F) := []
  order : TOrder F
  statistic : Statistic := {}

namespace Conversation

variable {F : Type}

/-- `add_event`, also several times -/
@[simps]
def post (es : List (ChatEvent F)) (c : Conversation F) : Conversation F :=
  { c with eventList := c.eventList ++ es }

@[simps]
def setInputMode (mode : InputMode) (c : Conversation F) : Conversation F :=
  { c with inputMode := mode }

def menuKeys (intf : Interface) : List String :=
  ["/account - данные аккаунта", "/price - текущий курс валют"] ++
    (if intf = .IntfTlg then ["/order - операции с ордерами", "/script - управление скриптом"]
      else []) ++
    ["/stat - журнал операций", "/cancel - отмена"]

def orderKeys : List String :=
  ["/order new - создать ордер", "/order list - список ордеров",
    "/order open - список открытых ордеров", "/order del - удалить ордер", "/menu - назад"]

/-! ### What is written -/

/-- What a command says and posts. -/
def answer (as : List Answer) (c : Conversation F) : Conversation F × List (Said F) :=
  (c.post (as.filterMap fun
      | .event e => some (.tlg e)
      | .sendMessage _ => none),
    as.filterMap fun
      | .sendMessage text => some (.sendMessage text .textOnly)
      | .event _ => none)

/-- A round of the loop in `update_handler`: the commands of the text are handled once for each
entity that is one. -/
def round (intf : Interface) (u : Update) (c : Conversation F) : Conversation F × List (Said F) :=
  let commands := u.message.entities.flatMap fun entity =>
    if entity.type = .bot_command then commandHandler intf u.message else []
  match c.inputMode with
  | .command => c.answer commands
  | .order => (c.post [.tlg (.orderData u.message.text)], [])
  | .script =>
    ((c.post [.tlg (.scriptData u.message.text)]).setInputMode .command).answer commands
  | .statistic => (c.post [.tlg (.statData u.message.text)]).answer commands
  | .line => (c, [])

/-! ### What is done -/

section Handlers

variable [LexicalCast F] (intf : Interface) (lexicalCast : String → Option UInt16)

/-- A call of `TOrder`. -/
def talk (e : Order.Event) (c : Conversation F) : Conversation F × List (Said F) :=
  let d := c.order.setInputMode c.inputMode
  let calls := Order.dialogue.emit d e
  (({ c with
        order := Order.dialogue.next d e
        inputMode := (Order.dialogue.next d e).inputMode } : Conversation F).post
      (calls.filterMap fun
        | .manual result => some (.manual result)
        | .delete order => some (.delete order)
        | .reqList symbol => some (.reqList symbol)
        | .sendMessage _ _ => none),
    calls.filterMap fun
      | .sendMessage text markup => some (.sendMessage text markup)
      | _ => none)

/-- What a call of `Statistic` does to the mode. -/
def modeAfter (mode : InputMode) (os : List Statistic.Out) : InputMode :=
  os.foldl (fun mode o => match o with
    | .setInputMode b => if b then .statistic else .command
    | _ => mode) mode

/-- A call of `Statistic`. -/
def count (i : Statistic.Input) (c : Conversation F) : Conversation F × List (Said F) :=
  let m := Statistic.statistic lexicalCast c.order.symbolsList
  let os := m.emit c.statistic i
  (({ c with
        statistic := m.next c.statistic i
        inputMode := modeAfter c.inputMode os } : Conversation F).post
      (os.filterMap fun
        | .statReady data => some (.statReady data)
        | _ => none),
    os.filterMap fun
      | .sendMessage text [] => some (.sendMessage text .textOnly)
      | .sendMessage text keys => some (.sendMessage text (.keyboard (keyboard keys .Vertical)))
      | _ => none)

/-- `on_event_tlg_order_ops` -/
def orderOps (c : Conversation F) : BncCommand → Conversation F × List (Said F)
  | .list .opened => c.talk .list
  | .list .all => (c, [.getAllOrders])
  | .info => (c, [])
  | .delete _ => c.talk .del
  | .new _ => c.talk .start

/-- The handlers of the events of Telegram. -/
def handleTlg (c : Conversation F) : TlgEvent → Conversation F × List (Said F)
  | .test => (c, [.eval])
  | .updateId id => (c, [.updateId id])
  | .getPrice => (c, [.priceUserReq, .getPrice])
  | .getAccount => (c, [.getAccount])
  | .order => (c, if intf ≠ .IntfTlg then [] else
      [.sendMessage "Операции с ордерами:" (.keyboard (keyboard orderKeys .Vertical))])
  | .orderOps cmd => if intf ≠ .IntfTlg then (c, []) else c.orderOps cmd
  | .orderData text => c.talk (.setData text)
  | .getIndicators => (c, [.getIndicators])
  | .statistic => c.count lexicalCast .start
  | .statData text => c.count lexicalCast (.setData text)
  | .menu => (c, [.sendMessage "menu" (.keyboard (keyboard (menuKeys intf) .Vertical))])
  | .script arg => (c, if intf ≠ .IntfTlg ∨ arg ≠ "start" then [] else
      [.sendMessage "Операции со скриптом:" (.keyboard (keyboard ["/menu - назад"] .Vertical))])
  | .scriptData text => (c, [.userValue text])

/-- The handler of an event. The order that is created is the one of the dialogue by then. -/
def handle (c : Conversation F) : ChatEvent F → Conversation F × List (Said F)
  | .tlg e => c.handleTlg intf lexicalCast e
  | .reqValue msg => (c.setInputMode .script, [.sendMessage msg .replay])
  | .reqCommand msg keys orientation =>
    (c.setInputMode .script, [.sendMessage msg (.keyboard (keyboard keys orientation))])
  | .manual result => (c, if result = .execute then [.createOrder c.order.order] else [])
  | .delete order => (c, if order.newClientOrderId = "*" then [.deleteAllOrders]
      else [.deleteOrder order.newClientOrderId order.symbol])
  | .reqList symbol => (c, if symbol = "" then [.getAllOrders] else [.getOpenOrders (symbol ++ "USDT")])
  | .statReady data => (c, [.report data])

/-- The event in front. -/
def dispatcher (c : Conversation F) : Conversation F × List (Said F) :=
  match c.eventList with
  | [] => (c, [])
  | e :: es => handle intf lexicalCast { c with eventList := es } e

/-- What happens next; a request is one of the script. -/
inductive Event where
  | update (u : Update)
  | updateId (id : ℤ)
  | dispatcher
  | requestValue (msg : String)
  | requestCommand (msg : String) (keys : List String) (orientation : Orientation)

def step (c : Conversation F) : Event → Conversation F × List (Said F)
  | .update u => c.round intf u
  | .updateId id => (c.post [.tlg (.updateId id)], [])
  | .dispatcher => c.dispatcher intf lexicalCast
  | .requestValue msg => (c.post [.reqValue msg], [])
  | .requestCommand msg keys orientation => (c.post [.reqCommand msg keys orientation], [])

/-- The conversation, whatever is written and whatever the script asks. -/
def conversation : Machine (Conversation F) Event (Said F) where
  next c e := (c.step intf lexicalCast e).1
  emit c e := (c.step intf lexicalCast e).2

end Handlers

/-- A conversation of which nothing was said yet. -/
def init (order : BncOrder F) (symbolsList : List String) : Conversation F where
  order := .init order symbolsList

/-! ### Who is heard -/

variable {c : Conversation F} {mode : InputMode} {m : Statistic}
  {lexicalCast : String → Option UInt16} {symbolsList : List String}

theorem modeAfter_start : modeAfter mode
    ((Statistic.statistic lexicalCast symbolsList).emit m .start) =
      if ((Statistic.statistic lexicalCast symbolsList).next m .start).state = .SS_Idle then .command
      else .statistic := by
  simp only [Statistic.statistic, Statistic.start, Statistic.engine_start]
  split_ifs <;> simp_all [modeAfter]

/-- A text ends the statistics, or leaves the mode and a question if there was one. -/
theorem modeAfter_setData (h : m.Waits) (data : String) :
    let m' := (Statistic.statistic lexicalCast symbolsList).next m (.setData data)
    let mode' := modeAfter mode
      ((Statistic.statistic lexicalCast symbolsList).emit m (.setData data))
    mode' = .command ∨ mode' = mode ∧ (m.state ≠ .SS_Idle → m'.state ≠ .SS_Idle) := by
  obtain ⟨state, d, b⟩ := m
  rcases h with rfl | rfl | rfl
  · simp [Statistic.statistic, modeAfter]
  · simp only [Statistic.statistic, Statistic.engine_symbol]
    split_ifs <;> simp [modeAfter]
  · simp only [Statistic.statistic, Statistic.engine_period]
    cases lexicalCast (Statistic.firstArg data) <;> cases b <;> simp [modeAfter]

/-- The mode is that of a dialogue only if this has asked for something. -/
structure Heard (c : Conversation F) : Prop where
  symbols : c.order.symbolsList ≠ []
  listens : Order.Listens (c.order.setInputMode c.inputMode)
  waits : c.statistic.Waits
  order : c.inputMode = .order → c.order.state.Asks
  statistic : c.inputMode = .statistic → c.statistic.state ≠ .SS_Idle
  line : c.inputMode ≠ .line

theorem Heard.post (h : Heard c) (es : List (ChatEvent F)) : Heard (c.post es) :=
  ⟨h.symbols, h.listens, h.waits, h.order, h.statistic, h.line⟩

theorem Heard.setInputMode (h : Heard c) (ho : mode ≠ .order) (hs : mode ≠ .statistic)
    (hl : mode ≠ .line) : Heard (c.setInputMode mode) where
  symbols := h.symbols
  listens := h.listens.setInputMode ho
  waits := h.waits
  order := fun hm => absurd hm ho
  statistic := fun hm => absurd hm hs
  line := hl

theorem Heard.round (h : Heard c) (intf : Interface) (u : Update) : Heard (c.round intf u).1 := by
  unfold Conversation.round
  cases hm : c.inputMode with
  | command => exact h.post _
  | order => exact h.post _
  | script => exact ((h.post _).setInputMode (by decide) (by decide) (by decide)).post _
  | statistic => exact (h.post _).post _
  | line => exact absurd hm h.line

variable [LexicalCast F]

theorem Heard.talk (h : Heard c) (e : Order.Event) : Heard (c.talk e).1 := by
  let d := c.order.setInputMode c.inputMode
  let d' := Order.dialogue.next d e
  have hmode : d'.inputMode = .command ∨
      d'.inputMode = if e.opens = none then c.inputMode else .order :=
    Order.event_inputMode (d := d) h.symbols e
  have hheard : Heard { c with order := d', inputMode := d'.inputMode } := by
    constructor
    case symbols => exact Order.event_symbolsList (d := d) h.symbols e ▸ h.symbols
    case listens => exact Order.event_listens (d := d) h.symbols h.listens e
    case waits => exact h.waits
    case order => exact Order.event_asks (d := d) h.symbols h.listens e
    case statistic =>
      intro hs
      replace hs : d'.inputMode = .statistic := hs
      rw [hs] at hmode
      split_ifs at hmode <;> simp_all [h.statistic]
    case line =>
      intro hl
      replace hl : d'.inputMode = .line := hl
      have hline := h.line
      rw [hl] at hmode
      split_ifs at hmode <;> simp_all
  exact hheard.post _

omit [LexicalCast F] in
/-- The statistics have ended, have begun with a question, or left the mode alone. -/
theorem Heard.counted (h : Heard c) (hw : m.Waits) (hmode : mode = .command ∨
    mode = .statistic ∧ m.state ≠ .SS_Idle ∨
    mode = c.inputMode ∧ (c.statistic.state ≠ .SS_Idle → m.state ≠ .SS_Idle)) :
    Heard { c with statistic := m, inputMode := mode } := by
  rcases hmode with rfl | ⟨rfl, hs⟩ | ⟨rfl, hs⟩
  · exact ⟨h.symbols, h.listens.setInputMode (by simp), hw, by simp, by simp, by simp⟩
  · exact ⟨h.symbols, h.listens.setInputMode (by simp), hw, by simp, fun _ => hs, by simp⟩
  · exact ⟨h.symbols, h.listens, hw, h.order, fun hm => hs (h.statistic hm), h.line⟩

omit [LexicalCast F] in
theorem Heard.count (h : Heard c) (lexicalCast : String → Option UInt16) (i : Statistic.Input) :
    Heard (c.count lexicalCast i).1 := by
  refine (h.counted (h.waits.next lexicalCast c.order.symbolsList i) ?_).post _
  cases i with
  | start =>
    rw [modeAfter_start]
    split_ifs with hs
    · exact .inl rfl
    · exact .inr (.inl ⟨rfl, hs⟩)
  | setData data => exact (modeAfter_setData h.waits data).imp_right .inr

theorem Heard.handle (h : Heard c) (intf : Interface) (lexicalCast : String → Option UInt16)
    (e : ChatEvent F) : Heard (c.handle intf lexicalCast e).1 := by
  have hrequest : Heard (c.setInputMode .script) := h.setInputMode (by simp) (by simp) (by simp)
  cases e with
  | reqValue => exact hrequest
  | reqCommand => exact hrequest
  | manual | delete | reqList | statReady => exact h
  | tlg e =>
    cases e with
    | orderData text => exact h.talk _
    | statistic => exact h.count lexicalCast _
    | statData text => exact h.count lexicalCast _
    | orderOps cmd =>
      show Heard (if intf ≠ .IntfTlg then (c, []) else c.orderOps cmd).1
      split_ifs
      · exact h
      · cases cmd with
        | list type =>
          cases type with
          | all => exact h
          | opened => exact h.talk _
        | info => exact h
        | new | delete => exact h.talk _
    | _ => exact h

theorem Heard.step (h : Heard c) (intf : Interface) (lexicalCast : String → Option UInt16)
    (e : Event) : Heard (c.step intf lexicalCast e).1 := by
  cases e with
  | update u => exact h.round intf u
  | dispatcher =>
    show Heard (c.dispatcher intf lexicalCast).1
    unfold dispatcher
    split
    · exact h
    · next e es he =>
      have hrest : Heard { c with eventList := es } :=
        ⟨h.symbols, h.listens, h.waits, h.order, h.statistic, h.line⟩
      exact hrest.handle intf lexicalCast e
  | updateId | requestValue | requestCommand => exact h.post _

theorem heard_run (intf : Interface) (lexicalCast : String → Option UInt16) (order : BncOrder F)
    (hl : symbolsList ≠ []) (es : List Event) :
    Heard ((conversation intf lexicalCast).run (init order symbolsList) es) := by
  have hinit : Heard (init order symbolsList) :=
    ⟨hl, ⟨rfl, by simp [init, TOrder.init]⟩, .inl rfl, by simp [init], by simp [init], by simp [init]⟩
  exact Machine.run_invariant (P := fun _ _ => True) Heard (fun _ e hc _ => hc.step intf lexicalCast e)
    hinit (Machine.along_of_forall _ (fun _ _ => trivial) _ es)

end Conversation

end BotTrader.Application
