import BotTrader.Telegram.Parse
import BotTrader.Web.Server

/-! The commands of the chat. A text that Telegram marks as a command is split, and its first part
finds the handler; what the handlers do is post events and send messages. To which chat a message
goes is left out. -/

namespace BotTrader.Telegram

open Web (Interface)

/-- `bnc_type` -/
inductive BncType where
  | all | opened
  deriving DecidableEq, Repr

/-- `bnc_command_t`; the type is set for lists only. -/
inductive BncCommand where
  | new (arg : String)
  | list (type : BncType)
  | info
  | delete (arg : String)
  deriving DecidableEq, Repr

/-- The events that `Telegram` posts. -/
inductive TlgEvent where
  | test
  | updateId (id : ℤ)
  | getPrice
  | getAccount
  | order
  | orderOps (cmd : BncCommand)
  | orderData (text : String)
  | getIndicators
  | statistic
  | statData (text : String)
  | menu
  | script (arg : String)
  | scriptData (text : String)
  deriving DecidableEq, Repr

/-- What a command does. -/
inductive Answer where
  | event (e : TlgEvent)
  | sendMessage (text : String)
  deriving DecidableEq, Repr

/-- The parts of a text between its separators, of which several in a row count as one. -/
def parts (sep : Char → Bool) (text : String) : List String :=
  match text.toList.splitOnP sep with
  | [] => []
  | t :: ts => ((t :: ts.dropLast.filter (· ≠ [])) ++ ts.getLast?.toList).map String.ofList

/-- `split` of a command -/
def splitArgs (text : String) : List String := parts (fun c => c = ' ' ∨ c = '-') text

def blanks (n : ℕ) : String := String.ofList (List.replicate n ' ')

def helpMessage : String :=
  "<b><u>Тут набор команд</u></b> " ++ blanks 49 ++ "<b>/price</b> - текущий курс " ++
    blanks 49 ++ "<b>/line</b> - запрос линии " ++ blanks 49 ++
    "<b>/line aaaa.bbb</b> - установка линии " ++ blanks 49 ++
    "<b>/stat</b> - данные свечи/линии " ++ blanks 49 ++ "<b>/account</b> - данные аккаунта"

def startMessage : String :=
  "<b>Привет!</b> " ++ blanks 51 ++ "<pre>Появились деньги?</pre> " ++ blanks 51 ++
    "<pre>Нет проблем! Сейчас я все исправлю!</pre>"

section Handlers

def onCommandMenu (_ : List String) : List Answer := [.event .menu]

def onCommandAccount (_ : List String) : List Answer := [.event .getAccount]

def onCommandPrice (_ : List String) : List Answer := [.event .getPrice]

def onCommandIndicators (_ : List String) : List Answer := [.event .getIndicators]

def onCommandStat (_ : List String) : List Answer := [.event .statistic]

def onCommandCancel (_ : List String) : List Answer := [.sendMessage "Отменено"]

def onCommandOrder (intf : Interface) : List String → List Answer
  | _ :: arg :: _ =>
    if intf ≠ .IntfTlg then []
    else if arg = "list" then [.event (.orderOps (.list .all))]
    else if arg = "open" then [.event (.orderOps (.list .opened))]
    else if arg = "del" then [.event (.orderOps (.delete arg))]
    else if arg = "new" then [.event (.orderOps (.new arg))]
    else [.event .order]
  | _ => []

def onCommandScript : List String → List Answer
  | _ :: arg :: _ => [.event (.script arg)]
  | _ => []

/-- `command_map`; two commands are there only if the chat is the interface. -/
def commandMap (intf : Interface) : List (String × (List String → List Answer)) :=
  [("/menu", onCommandMenu), ("/account", onCommandAccount), ("/price", onCommandPrice),
    ("/indicators", onCommandIndicators), ("/stat", onCommandStat),
    ("/cancel", onCommandCancel)] ++
  if intf = .IntfTlg then
    [("/order", onCommandOrder intf), ("/script", onCommandScript)]
  else []

def commandHandler (intf : Interface) (msg : Message) : List Answer :=
  let args := splitArgs msg.text
  match (commandMap intf).lookup (args.headD "") with
  | some handler => handler args
  | none =>
    if "/start".toList.isPrefixOf msg.text.toList then [.sendMessage startMessage]
    else if "/settings".toList.isPrefixOf msg.text.toList then [.sendMessage helpMessage]
    else if "/test".toList.isPrefixOf msg.text.toList then [.event .test]
    else [.sendMessage "???"]

end Handlers

/-- A command gives no text to a dialogue. -/
def TlgEvent.IsCommand : TlgEvent → Prop
  | .orderData _ | .statData _ | .scriptData _ | .updateId _ => False
  | _ => True

theorem isCommand_of_handler {intf : Interface} {it : String × (List String → List Answer)}
    (hit : it ∈ commandMap intf) {args : List String} {e : TlgEvent} (h : .event e ∈ it.2 args) :
    e.IsCommand := by
  have hother : it ∈ [("/menu", onCommandMenu), ("/account", onCommandAccount),
      ("/price", onCommandPrice), ("/indicators", onCommandIndicators), ("/stat", onCommandStat),
      ("/cancel", onCommandCancel)] ∨ it.2 = onCommandOrder intf ∨ it.2 = onCommandScript := by
    rcases List.mem_append.mp hit with hit | hit
    · exact .inl hit
    · split at hit
      · simp only [List.mem_cons, List.not_mem_nil, or_false] at hit
        rcases hit with rfl | rfl <;> simp
      · cases hit
  rcases hother with hit | hit | hit
  · simp only [List.mem_cons, List.not_mem_nil, or_false] at hit
    rcases hit with rfl | rfl | rfl | rfl | rfl | rfl <;>
      simp_all [onCommandMenu, onCommandAccount, onCommandPrice, onCommandIndicators, onCommandStat,
        onCommandCancel, TlgEvent.IsCommand]
  · rw [hit] at h
    unfold onCommandOrder at h
    repeat' split at h
    all_goals simp_all [TlgEvent.IsCommand]
  · rw [hit] at h
    unfold onCommandScript at h
    split at h <;> simp_all [TlgEvent.IsCommand]

theorem isCommand_of_commandHandler {intf : Interface} {msg : Message} {e : TlgEvent}
    (h : .event e ∈ commandHandler intf msg) : e.IsCommand := by
  simp only [commandHandler] at h
  cases hl : (commandMap intf).lookup ((splitArgs msg.text).headD "") with
  | some handler =>
    rw [hl] at h
    obtain ⟨as, bs, hmap, -⟩ := List.lookup_eq_some_iff.mp hl
    have hmem : ((splitArgs msg.text).headD "", handler) ∈ commandMap intf := by
      rw [hmap]
      simp
    exact isCommand_of_handler hmem h
  | none =>
    simp only [hl] at h
    split_ifs at h <;> simp_all [TlgEvent.IsCommand]

end BotTrader.Telegram
