import BotTrader.Web.Receive

/-! The messages of the user stream. Reports and balances are passed on as they came, and printed
for the user; a message that lacks what is printed of it ends the program, after it was passed
on. How numbers and times are printed is a parameter. -/

namespace BotTrader.Binance

open Automata Handler Boost Web

/-- The conversions of numbers, for a text or the default. -/
structure Printer where
  /-- `std::to_string` of `get<double>("d", 0.0)` -/
  delta : Option String → String
  /-- `utils::local_time_from_ms` of `get<uint64_t>("T", 0)` -/
  clearTime : Option String → String

/-- What `wss_user_handler` posts. -/
inductive UserOut where
  | balance (data : Ptree)
  | orderReport (data : Ptree)
  | textPrint (text : String)

/-! ### Texts -/

def rule : String := "------------------------------\n"

def balanceLine (vv : String × Ptree) : String :=
  if vv.1 = "a" then vv.2.data ++ "\n"
  else if vv.1 = "free" ∨ vv.1 = "f" then "свободно " ++ vv.2.data ++ "\n"
  else if vv.1 = "locked" ∨ vv.1 = "l" then "блокировано " ++ vv.2.data ++ "\n"
  else ""

def parseAndPrintBalances (bpt : Ptree) : String :=
  "\nБаланс:\n" ++ rule ++
    String.join (bpt.children.flatMap fun it => it.2.children.map balanceLine) ++ rule

def parseAndPrintBalanceUpd (print : Printer) (ppt : Ptree) : String :=
  rule ++ "БАЛАНС (Обновление):\n" ++ rule ++ ppt.getD "a" "???" ++ ":\n" ++
    "Дельта: " ++ print.delta ((ppt.child? "d").map Ptree.data) ++ "\n" ++
    "Срок: " ++ print.clearTime ((ppt.child? "T").map Ptree.data) ++ "\n" ++ rule

/-- The fields of an execution report that are printed, with their names. -/
def executeReport : List (String × String) :=
  [("имя: ", "c"), ("пара: ", "s"), ("операция: ", "S"), ("количество: ", "q"), ("цена: ", "p"),
    ("стоп цена: ", "P"), ("тип: ", "f"), ("вид: ", "o"), ("статус: ", "X"),
    ("Iceberg quantity: ", "F")]

def printExecuteReport (pt : Ptree) : Except Exc String := do
  let str := rule ++ "Отчет Binance:\n" ++ rule
  let str ← executeReport.foldlM (fun str f => do return str ++ f.1 ++ (← pt.get f.2) ++ "\n") str
  return str ++ rule

/-! ### The handler -/

/-- The text goes to Telegram if that is the interface. -/
def tell (intf : Interface) (pstring : String) : Handler Unit UserOut Exc Unit :=
  if intf = .IntfTlg then call (.textPrint pstring) else pure ()

/-- What is done with the data of a message; a second `pstring` hides the first where a report is
printed. -/
def userEvent (intf : Interface) (print : Printer) (it : Ptree) (event : String) :
    Handler Unit UserOut Exc Unit :=
  if event = "outboundAccountInfo" then do
    call (.balance it)
    tell intf (parseAndPrintBalances (← attempt (it.getChild "B")))
  else if event = "balanceUpdate" then tell intf (parseAndPrintBalanceUpd print it)
  else if event = "executionReport" then do
    call (.orderReport it)
    let _ ← attempt (printExecuteReport it)
    tell intf ""
  else if event = "listStatus" then tell intf ""
  else pure ()

/-- `wss_user_handler`, for the document that the message is. -/
def wssUserHandler (intf : Interface) (print : Printer) (data : Option Ptree) :
    Handler Unit UserOut Exc Unit :=
  match data.bind (·.child? "data") with
  | none => pure ()
  | some it => do userEvent intf print it (← attempt (it.get "e"))

variable {intf : Interface} {print : Printer} {data : Option Ptree} {tree it : Ptree}

theorem exists_printExecuteReport (pt : Ptree) :
    (∃ text, printExecuteReport pt = .ok text) ↔ ∀ f ∈ executeReport, Has pt f.2 := by
  unfold printExecuteReport
  rw [exists_map_eq_ok]
  refine exists_foldlM_eq_ok (fun b f => ?_) _ _
  rw [exists_map_eq_ok, exists_get_iff]

/-- A message from which everything can be read that the handler reads. -/
structure Readable (it : Ptree) : Prop where
  event : Has it "e"
  balances : it.get "e" = .ok "outboundAccountInfo" → Has it "B"
  report : it.get "e" = .ok "executionReport" → ∀ f ∈ executeReport, Has it f.2

theorem error_tell (text : String) (s : Unit) : ((tell intf text).run s).error = none := by
  unfold tell
  split <;> rfl

theorem has_iff_getChild {key : String} : Has it key ↔ ∃ c, it.getChild key = .ok c := by
  unfold Has Ptree.getChild
  cases it.child? key <;> simp

theorem error_userEvent (event : String) : ((userEvent intf print it event).run ()).error = none ↔
    (event = "outboundAccountInfo" → Has it "B") ∧
      (event = "executionReport" → ∀ f ∈ executeReport, Has it f.2) := by
  unfold userEvent
  by_cases ho : event = "outboundAccountInfo"
  · subst ho
    simp only [if_true, run_bind_done (run_call _ _), Outcome.error_after, error_attempt_bind,
      error_tell, and_true, has_iff_getChild]
    simp
  · rw [if_neg ho]
    by_cases hb : event = "balanceUpdate"
    · subst hb
      simp [error_tell]
    · rw [if_neg hb]
      by_cases hr : event = "executionReport"
      · subst hr
        simp only [if_true, run_bind_done (run_call _ _), Outcome.error_after, error_attempt_bind,
          error_tell, and_true, exists_printExecuteReport]
        simp
      · rw [if_neg hr]
        simp only [ho, hr, false_imp_iff, and_self, iff_true]
        split
        · exact error_tell _ _
        · rfl

/-- The handler returns if and only if the message is not JSON, has no data, or all that the
handler reads is there. -/
theorem wssUserHandler_returns_iff : ((wssUserHandler intf print data).run ()).error = none ↔
    ∀ it, data.bind (·.child? "data") = some it → Readable it := by
  unfold wssUserHandler
  split
  · next hd => simp [hd]
  · next it hd =>
    simp only [hd, Option.some.injEq, forall_eq', error_attempt_bind, error_userEvent]
    constructor
    · rintro ⟨event, he, hb, hr⟩
      exact ⟨exists_get_iff.mp ⟨event, he⟩, fun h => hb (Except.ok.inj (he.symm.trans h)),
        fun h => hr (Except.ok.inj (he.symm.trans h))⟩
    · rintro ⟨he, hb, hr⟩
      obtain ⟨event, he⟩ := exists_get_iff.mpr he
      exact ⟨event, he, fun h => hb (h ▸ he), fun h => hr (h ▸ he)⟩

/-! ### Reports -/

/-- The reports that are posted. -/
def UserOut.report? : UserOut → Option Ptree
  | .orderReport data => some data
  | _ => none

theorem reports_tell (text : String) (s : Unit) :
    ((tell intf text).run s).calls.filterMap UserOut.report? = [] := by
  unfold tell
  split <;> rfl

theorem reports_userEvent (event : String) :
    ((userEvent intf print it event).run ()).calls.filterMap UserOut.report? =
      if event = "executionReport" then [it] else [] := by
  have after_attempt {α : Type} (x : Except Exc α) (f : α → String) :
      ((attempt x >>= fun a => tell intf (f a)).run ()).calls.filterMap UserOut.report? = [] := by
    cases x with
    | error e => rfl
    | ok a =>
      rw [run_bind_done (run_attempt_ok a ()), Outcome.after_nil]
      exact reports_tell _ _
  unfold userEvent
  by_cases ho : event = "outboundAccountInfo"
  · subst ho
    rw [if_pos rfl, run_bind_done (run_call _ _), Outcome.calls_after, List.filterMap_append,
      after_attempt]
    rfl
  · rw [if_neg ho]
    by_cases hb : event = "balanceUpdate"
    · subst hb
      rw [if_pos rfl, reports_tell]
      rfl
    · rw [if_neg hb]
      by_cases hr : event = "executionReport"
      · rw [if_pos hr, if_pos hr, run_bind_done (run_call _ _), Outcome.calls_after,
          List.filterMap_append, after_attempt]
        rfl
      · rw [if_neg hr, if_neg hr]
        split
        · exact reports_tell _ _
        · rfl

/-- A report is passed on as it came, also one that cannot be printed. -/
theorem reports_wssUserHandler (hd : data.bind (·.child? "data") = some it) :
    ((wssUserHandler intf print data).run ()).calls.filterMap UserOut.report? =
      if it.get "e" = .ok "executionReport" then [it] else [] := by
  simp only [wssUserHandler, hd]
  cases he : it.get "e" with
  | error x => rfl
  | ok event =>
    rw [run_bind_done (run_attempt_ok event ()), Outcome.after_nil, reports_userEvent]
    simp only [Except.ok.injEq]

end BotTrader.Binance
