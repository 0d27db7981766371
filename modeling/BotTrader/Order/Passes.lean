import BotTrader.Order.Dialogue

/-! What a pass of the engine does, as a relation: one constructor for each way through the
`switch`. A call of the engine is a chain of passes, or it ends in undefined behaviour, and it
never needs more passes than the model allows. -/

namespace BotTrader.Order

open Automata Handler Telegram

variable {F : Type}

namespace TOrder

@[simp] theorem setInputMode_setInputMode (mode mode' : InputMode) (d : TOrder F) :
    (d.setInputMode mode).setInputMode mode' = d.setInputMode mode' := rfl

/-- A field of the order and of the view. -/
@[simps!]
def write (f : BncOrder F → BncOrder F) (name val : String) (d : TOrder F) : TOrder F :=
  (d.enter f).show_ name val

/-- The order with the name, unless the name is read over. -/
def named (name : String) (d : TOrder F) : TOrder F :=
  if d.repeat_ then d.setRepeat false
  else d.write (fun o => { o with newClientOrderId := name }) "newClientOrderId" name

def namedCalls (name : String) (d : TOrder F) : List (Call F) :=
  if d.repeat_ then [] else [.sendMessage (d.named name).view.print .textOnly]

abbrev chosen (symbol : String) (d : TOrder F) : TOrder F :=
  d.write (fun o => { o with symbol := symbol ++ "USDT" }) "symbol" (symbol ++ "USDT")

abbrev typed (type : String) (d : TOrder F) : TOrder F :=
  d.write (fun o => { o with type := stringToType type }) "type" type

/-- The order with the side, unless the side is read over. -/
def sided (side : String) (d : TOrder F) : TOrder F :=
  if d.repeat_ then d.setRepeat false
  else d.write (fun o => { o with side := stringToSide side }) "side" side

abbrev counted (x : F) (val : String) (d : TOrder F) : TOrder F :=
  d.write (fun o => { o with quantity := x }) "quantity" val

abbrev timed (tif : String) (d : TOrder F) : TOrder F :=
  d.write (fun o => { o with timeInForce := stringToTif tif }) "timeInForce" tif

abbrev delNamed (name : String) (d : TOrder F) : TOrder F :=
  d.enter fun o => { o with newClientOrderId := name }

abbrev delChosen (symbol : String) (d : TOrder F) : TOrder F :=
  d.enter fun o => { o with symbol := symbol ++ "USDT" }

/-- A keyboard of the options alone. -/
@[simps!]
def offer (options : List String) (d : TOrder F) : TOrder F := d.clear.push options

abbrev stepBack (d : TOrder F) : TOrder F := (d.goto d.prevState).setRepeat true

/-- The dialogue with its fields printed. -/
def printed (d : TOrder F) : Call F := .sendMessage d.view.print .textOnly

end TOrder

/-- A prompt with a keyboard of the options alone. -/
def prompt (text : String) (options : List String) : Call F :=
  .sendMessage text (.keyboard (options.map ([·])))

/-- What a text does with an order that is ready. -/
def verdict (data : String) : Option OrderResult :=
  if firstArg data = "$e" then some .execute
  else if firstArg data = "$c" then some .cancel
  else none

def verdictCalls (name : String) : Option OrderResult → List (Call F)
  | some .execute => [.sendMessage ("Ордер " ++ name ++ " отправлен") .textOnly, .manual .execute]
  | some .cancel => [.sendMessage ("Ордер " ++ name ++ " отменен") .textOnly, .manual .cancel]
  | _ => []

section Passes

variable [LexicalCast F]

/-- A price is read, or read over. -/
inductive ReadsPrice (data : String) (field : F → BncOrder F → BncOrder F) (name : String)
    (d : TOrder F) : TOrder F → List (Call F) → Prop
  | kept (hr : d.repeat_ = true) : ReadsPrice data field name d (d.setRepeat false) []
  | number {x : F} (hr : d.repeat_ = false) (hx : LexicalCast.lexicalCast data = some x) :
    ReadsPrice data field name d (d.write (field x) name data)
      [(d.write (field x) name data).printed]

/-- A pass with a text, and the text of the next one if there is one. -/
inductive Pass (data : String) (d : TOrder F) :
    Option String → TOrder F → List (Call F) → Prop
  | startEmpty (hs : d.state = .start) (hl : d.symbolsList = []) :
    Pass data d none (d.setInputMode .command) []
  | start (hs : d.state = .start) (hl : d.symbolsList ≠ []) :
    Pass data d none (({ d with view := d.view.reset } : TOrder F).goto .name)
      [.sendMessage "Введите имя ордера" .replay]
  | nameMany (hs : d.state = .name) (hl : 1 < d.symbolsList.length) :
    Pass data d none (((d.named data).push d.symbolsList).goto .symbol)
      (d.namedCalls data ++ [.sendMessage "Выбор валюты:"
        (.keyboard ((d.named data).push d.symbolsList).keyboard)])
  | nameOne {s : String} (hs : d.state = .name) (hl : d.symbolsList = [s]) :
    Pass data d (some d.data) (((d.named data).chosen s).goto .inputType) (d.namedCalls data)
  | symbol (hs : d.state = .symbol) :
    Pass data d (some d.data) ((d.chosen (firstArg data)).goto .inputType) []
  | inputType (hs : d.state = .inputType) :
    Pass data d none ((d.offer ["LIMIT", "MARKET"]).goto .type)
      [prompt "Тип ордера?" ["LIMIT", "MARKET"]]
  | typeHelp (hs : d.state = .type) (hd : firstArg data = "$h") :
    Pass data d (some "") d.stepBack [.sendMessage helpType .textOnly]
  | type (hs : d.state = .type) (hd : firstArg data ≠ "$h") :
    Pass data d none
      (((d.typed (firstArg data)).offer ["BUY - покупка", "SELL - продажа"]).goto .side)
      [prompt "Тип операции" ["BUY - покупка", "SELL - продажа"]]
  | side (hs : d.state = .side) :
    Pass data d none ((d.sided (firstArg data)).goto .quantity)
      [(d.sided (firstArg data)).printed, .sendMessage "Введите количество" .replay]
  | quantityError (hs : d.state = .quantity)
      (hx : (LexicalCast.lexicalCast data : Option F) = none) :
    Pass data d none d [.sendMessage "Ошибка ввода количества" .replay]
  | quantityMarket {x : F} (hs : d.state = .quantity)
      (hx : LexicalCast.lexicalCast data = some x) (ht : d.order.type = .MARKET) :
    Pass data d (some d.data)
      ((d.counted x data).goto .orderReady)
      [(d.counted x data).printed]
  | quantityLimit {x : F} (hs : d.state = .quantity)
      (hx : LexicalCast.lexicalCast data = some x) (ht : d.order.type = .LIMIT) :
    Pass data d none
      ((d.counted x data).goto .price)
      [(d.counted x data).printed,
        .sendMessage "Введите цену" .replay]
  | quantityStop {x : F} (hs : d.state = .quantity)
      (hx : LexicalCast.lexicalCast data = some x) (ht : d.order.type ≠ .MARKET)
      (ht' : d.order.type ≠ .LIMIT) :
    Pass data d none
      ((d.counted x data).goto .stopPrice)
      [(d.counted x data).printed,
        .sendMessage "Введите стоп - цену" .replay]
  | stopPriceError (hs : d.state = .stopPrice) (hr : d.repeat_ = false)
      (hx : (LexicalCast.lexicalCast data : Option F) = none) :
    Pass data d none d [.sendMessage "Ошибка ввода стоп-цены" .replay]
  | stopPriceLimit {d' : TOrder F} {calls : List (Call F)} (hs : d.state = .stopPrice)
      (hi : ReadsPrice data (fun x o => { o with stopPrice := x }) "stopPrice" d d' calls)
      (ht : d'.order.type = .STOP_LOSS_LIMIT ∨ d'.order.type = .TAKE_PROFIT_LIMIT) :
    Pass data d none (d'.goto .price) (calls ++ [.sendMessage "Введите цену" .replay])
  | stopPrice {d' : TOrder F} {calls : List (Call F)} (hs : d.state = .stopPrice)
      (hi : ReadsPrice data (fun x o => { o with stopPrice := x }) "stopPrice" d d' calls)
      (ht : ¬(d'.order.type = .STOP_LOSS_LIMIT ∨ d'.order.type = .TAKE_PROFIT_LIMIT)) :
    Pass data d none ((d'.goto .timeInForce).offer ["GTC", "IOC", "FOK", "$h ОПИСАНИЕ"])
      (calls ++ [prompt "Время действия ордера?" ["GTC", "IOC", "FOK", "$h ОПИСАНИЕ"]])
  | priceError (hs : d.state = .price) (hr : d.repeat_ = false)
      (hx : (LexicalCast.lexicalCast data : Option F) = none) :
    Pass data d none d [.sendMessage "Ошибка ввода цены" .replay]
  | priceLimit {d' : TOrder F} {calls : List (Call F)} (hs : d.state = .price)
      (hi : ReadsPrice data (fun x o => { o with price := x }) "price" d d' calls)
      (ht : d'.order.type = .LIMIT) :
    Pass data d none ((d'.goto .timeInForce).offer ["GTC", "IOC", "FOK"])
      (calls ++ [prompt "Время действия ордера?" ["GTC", "IOC", "FOK"]])
  -- Nothing follows for the other types.
  | priceOther {d' : TOrder F} {calls : List (Call F)} (hs : d.state = .price)
      (hi : ReadsPrice data (fun x o => { o with price := x }) "price" d d' calls)
      (ht : d'.order.type ≠ .LIMIT) :
    Pass data d none d' calls
  | timeInForceHelp (hs : d.state = .timeInForce) (hd : firstArg data = "$h") :
    Pass data d (some "") d.stepBack [.sendMessage helpTimeInForce .textOnly]
  | timeInForce (hs : d.state = .timeInForce) (hd : firstArg data ≠ "$h") :
    Pass data d (some d.data) ((d.timed (firstArg data)).goto .orderReady)
      [(d.timed (firstArg data)).printed]
  | orderReady (hs : d.state = .orderReady) :
    Pass data d none ((d.offer ["$e Выставить", "$c Отмена"]).goto .orderResult)
      [prompt "Ордер готов" ["$e Выставить", "$c Отмена"]]
  -- The state stays the same, so that a later text is answered again.
  | orderResult (hs : d.state = .orderResult) :
    Pass data d none (d.setInputMode .command)
      (verdictCalls d.order.newClientOrderId (verdict data))
  | deleteEmpty (hs : d.state = .delete) (hl : d.symbolsList = []) :
    Pass data d none (d.setInputMode .command) []
  | delete (hs : d.state = .delete) (hl : d.symbolsList ≠ []) :
    Pass data d none (d.goto .delName) [.sendMessage "Введите имя ордера для удаления" .replay]
  | delNameMany (hs : d.state = .delName) (hl : 1 < d.symbolsList.length) :
    Pass data d none (((d.delNamed data).offer d.symbolsList).goto .delSymbol)
      [prompt "Выбор валюты:" d.symbolsList]
  | delNameOne {s : String} (hs : d.state = .delName) (hl : d.symbolsList = [s]) :
    Pass data d (some s) (((d.delNamed data).setData s).goto .delSymbol) []
  | delSymbol (hs : d.state = .delSymbol) :
    Pass data d (some d.data) ((d.delChosen data).goto .delReady) []
  | delReady (hs : d.state = .delReady) :
    Pass data d none (d.setInputMode .command) [.delete d.order]
  | listMany (hs : d.state = .list) (hl : 1 < d.symbolsList.length) :
    Pass data d none ((d.offer d.symbolsList).goto .listSymbol)
      [prompt "Выбор валюты:" d.symbolsList]
  | listOne {s : String} (hs : d.state = .list) (hl : d.symbolsList = [s]) :
    Pass data d (some s) ((d.setData s).goto .listSymbol) []
  | listSymbol (hs : d.state = .listSymbol) :
    Pass data d (some d.data) ((d.goto .idle).setInputMode .command) [.reqList data]
  | idle (hs : d.state = .idle ∨ d.state = .listReady) : Pass data d none d []

variable {d d' : TOrder F} {data : String} {text? : Option String} {calls : List (Call F)}
  {field : F → BncOrder F → BncOrder F} {name : String}

theorem ReadsPrice.run (h : ReadsPrice data field name d d' calls) (emsg : String) :
    (inputPrice data field name emsg).run d = .done true d' calls := by
  cases h with
  | kept hr => simp [inputPrice, run_bind, hr]
  | number hr hx =>
    simp [inputPrice, inputDouble, run_bind, hr, hx, TOrder.write, TOrder.printed, print,
      sendMessage]

theorem run_inputPrice_error (hr : d.repeat_ = false)
    (hx : (LexicalCast.lexicalCast data : Option F) = none) (emsg : String) :
    (inputPrice data field name emsg).run d = .done false d [.sendMessage emsg .replay] := by
  simp [inputPrice, inputDouble, run_bind, hr, hx, sendMessage]

theorem run_visit {st : State} (hs : d.state = st) :
    (visit data).run d = (visitIn data st).run d := by
  rw [visit, run_bind_done (run_self d), Outcome.after_nil, hs]

/-- A pass is one through the `switch`. -/
theorem Pass.run (h : Pass data d text? d' calls) : (visit data).run d = .done text? d' calls := by
  cases h with
  | startEmpty hs hl => simp [run_visit hs, visitIn, run_bind, hl]
  | start hs hl => simp [run_visit hs, visitIn, run_bind, hl, sendMessage]
  | nameMany hs hl =>
    by_cases hr : d.repeat_ <;>
      simp [run_visit hs, visitIn, run_bind, hl, hr, TOrder.named, TOrder.namedCalls,
        TOrder.write, enterName, ask, print,
        sendMessage]
  | nameOne hs hl =>
    by_cases hr : d.repeat_ <;>
      simp [run_visit hs, visitIn, run_bind, hl, hr, TOrder.named, TOrder.namedCalls,
        TOrder.write, enterName,
        enterSymbol, frontSymbol, print, sendMessage]
  | symbol hs => simp [run_visit hs, visitIn, run_bind, TOrder.write, enterSymbol]
  | inputType hs =>
    simp [run_visit hs, visitIn, run_bind, TOrder.offer, ask, sendMessage, addKeys, prompt]
  | typeHelp hs hd =>
    simp [run_visit hs, visitIn, run_bind, hs, hd, help, help.back, sendMessage]
  | type hs hd =>
    simp [run_visit hs, visitIn, run_bind, hd, TOrder.write, TOrder.offer, ask, sendMessage,
      addKeys, prompt]
  | side hs =>
    by_cases hr : d.repeat_ <;>
      simp [run_visit hs, visitIn, run_bind, hr, TOrder.sided, TOrder.write, TOrder.printed,
        enterSide, print, sendMessage]
  | quantityError hs hx => simp [run_visit hs, visitIn, run_bind, hx, inputDouble, sendMessage]
  | quantityMarket hs hx ht | quantityLimit hs hx ht =>
    simp [run_visit hs, visitIn, run_bind, hx, ht, inputDouble, TOrder.write, TOrder.printed, print,
      sendMessage]
  | quantityStop hs hx ht ht' =>
    simp [run_visit hs, visitIn, run_bind, hx, ht, ht', inputDouble, TOrder.write, TOrder.printed,
      print,
      sendMessage]
  | stopPriceError hs hr hx => simp [run_visit hs, visitIn, run_bind, run_inputPrice_error hr hx]
  | stopPriceLimit hs hi ht | priceLimit hs hi ht | priceOther hs hi ht | stopPrice hs hi ht =>
    simp [run_visit hs, visitIn, run_bind, hi.run, ht, TOrder.offer, ask, sendMessage, addKeys,
      prompt]
  | priceError hs hr hx => simp [run_visit hs, visitIn, run_bind, run_inputPrice_error hr hx]
  | timeInForceHelp hs hd =>
    simp [run_visit hs, visitIn, run_bind, hs, hd, help, help.back, sendMessage]
  | timeInForce hs hd =>
    simp [run_visit hs, visitIn, run_bind, hd, TOrder.write, TOrder.printed, print, sendMessage]
  | orderReady hs =>
    simp [run_visit hs, visitIn, run_bind, TOrder.offer, ask, sendMessage, addKeys, prompt]
  | orderResult hs =>
    by_cases he : firstArg data = "$e"
    · have hv : verdict data = some .execute := if_pos he
      simp [run_visit hs, visitIn, run_bind, hv, verdictCalls, he, sendMessage]
    by_cases hc : firstArg data = "$c"
    · have hv : verdict data = some .cancel := (if_neg he).trans (if_pos hc)
      simp [run_visit hs, visitIn, run_bind, hv, verdictCalls, hc, sendMessage]
    · have hv : verdict data = none := (if_neg he).trans (if_neg hc)
      simp [run_visit hs, visitIn, run_bind, hv, verdictCalls, he, hc]
  | deleteEmpty hs hl => simp [run_visit hs, visitIn, run_bind, hl]
  | delete hs hl => simp [run_visit hs, visitIn, run_bind, hl, sendMessage]
  | delNameMany hs hl =>
    simp [run_visit hs, visitIn, run_bind, hl, TOrder.offer, ask, sendMessage, addKeys, prompt]
  | delNameOne hs hl => simp [run_visit hs, visitIn, run_bind, hl, frontSymbol]
  | delSymbol hs => simp [run_visit hs, visitIn, run_bind]
  | delReady hs => simp [run_visit hs, visitIn, run_bind]
  | listMany hs hl =>
    simp [run_visit hs, visitIn, run_bind, hl, TOrder.offer, ask, sendMessage, addKeys, prompt]
  | listOne hs hl => simp [run_visit hs, visitIn, run_bind, hl, frontSymbol]
  | listSymbol hs => simp [run_visit hs, visitIn, run_bind]
  | idle hs => rcases hs with hs | hs <;> simp [run_visit hs, visitIn]

theorem ReadsPrice.symbolsList (h : ReadsPrice data field name d d' calls) :
    d'.symbolsList = d.symbolsList := by
  cases h <;> rfl

theorem exists_readsPrice (data : String) (field : F → BncOrder F → BncOrder F) (name : String)
    (d : TOrder F) : (d.repeat_ = false ∧ (LexicalCast.lexicalCast data : Option F) = none) ∨
      ∃ d' calls, ReadsPrice data field name d d' calls := by
  cases hr : d.repeat_ with
  | true => exact .inr ⟨_, _, .kept hr⟩
  | false =>
    cases hx : (LexicalCast.lexicalCast data : Option F) with
    | none => exact .inl ⟨rfl, rfl⟩
    | some x => exact .inr ⟨_, _, .number hr hx⟩

omit [LexicalCast F] in
theorem ne_nil_of_many (hl : 1 < d.symbolsList.length) : d.symbolsList ≠ [] :=
  List.ne_nil_of_length_pos (Nat.zero_lt_of_lt hl)

omit [LexicalCast F] in
theorem one_or_many (hl : d.symbolsList ≠ []) :
    1 < d.symbolsList.length ∨ ∃ s, d.symbolsList = [s] := by
  rcases h : d.symbolsList with _ | ⟨s, _ | ⟨s', l⟩⟩
  · exact absurd h hl
  · exact .inr ⟨s, rfl⟩
  · exact .inl (by simp)

/-- With a symbol every state has a pass. -/
theorem exists_pass (data : String) (hl : d.symbolsList ≠ []) :
    ∃ text? d' calls, Pass data d text? d' calls := by
  cases hs : d.state with
  | start => exact ⟨_, _, _, .start hs hl⟩
  | name =>
    rcases one_or_many hl with h | ⟨s, h⟩
    · exact ⟨_, _, _, .nameMany hs h⟩
    · exact ⟨_, _, _, .nameOne hs h⟩
  | symbol => exact ⟨_, _, _, .symbol hs⟩
  | inputType => exact ⟨_, _, _, .inputType hs⟩
  | type =>
    by_cases hd : firstArg data = "$h"
    · exact ⟨_, _, _, .typeHelp hs hd⟩
    · exact ⟨_, _, _, .type hs hd⟩
  | side => exact ⟨_, _, _, .side hs⟩
  | quantity =>
    cases hx : (LexicalCast.lexicalCast data : Option F) with
    | none => exact ⟨_, _, _, .quantityError hs hx⟩
    | some x =>
      by_cases ht : d.order.type = .MARKET
      · exact ⟨_, _, _, .quantityMarket hs hx ht⟩
      by_cases ht' : d.order.type = .LIMIT
      · exact ⟨_, _, _, .quantityLimit hs hx ht'⟩
      · exact ⟨_, _, _, .quantityStop hs hx ht ht'⟩
  | stopPrice =>
    rcases exists_readsPrice data (fun x o => { o with stopPrice := x }) "stopPrice" d with
      ⟨hr, hx⟩ | ⟨d', calls, hi⟩
    · exact ⟨_, _, _, .stopPriceError hs hr hx⟩
    by_cases ht : d'.order.type = .STOP_LOSS_LIMIT ∨ d'.order.type = .TAKE_PROFIT_LIMIT
    · exact ⟨_, _, _, .stopPriceLimit hs hi ht⟩
    · exact ⟨_, _, _, .stopPrice hs hi ht⟩
  | price =>
    rcases exists_readsPrice data (fun x o => { o with price := x }) "price" d with
      ⟨hr, hx⟩ | ⟨d', calls, hi⟩
    · exact ⟨_, _, _, .priceError hs hr hx⟩
    by_cases ht : d'.order.type = .LIMIT
    · exact ⟨_, _, _, .priceLimit hs hi ht⟩
    · exact ⟨_, _, _, .priceOther hs hi ht⟩
  | timeInForce =>
    by_cases hd : firstArg data = "$h"
    · exact ⟨_, _, _, .timeInForceHelp hs hd⟩
    · exact ⟨_, _, _, .timeInForce hs hd⟩
  | orderReady => exact ⟨_, _, _, .orderReady hs⟩
  | orderResult => exact ⟨_, _, _, .orderResult hs⟩
  | delete => exact ⟨_, _, _, .delete hs hl⟩
  | delName =>
    rcases one_or_many hl with h | ⟨s, h⟩
    · exact ⟨_, _, _, .delNameMany hs h⟩
    · exact ⟨_, _, _, .delNameOne hs h⟩
  | delSymbol => exact ⟨_, _, _, .delSymbol hs⟩
  | delReady => exact ⟨_, _, _, .delReady hs⟩
  | list =>
    rcases one_or_many hl with h | ⟨s, h⟩
    · exact ⟨_, _, _, .listMany hs h⟩
    · exact ⟨_, _, _, .listOne hs h⟩
  | listSymbol => exact ⟨_, _, _, .listSymbol hs⟩
  | idle => exact ⟨_, _, _, .idle (.inl hs)⟩
  | listReady => exact ⟨_, _, _, .idle (.inr hs)⟩

/-- What is done on the way leaves the symbols alone. -/
theorem Pass.symbolsList (h : Pass data d text? d' calls) : d'.symbolsList = d.symbolsList := by
  cases h with
  | stopPriceLimit hs hi ht | priceLimit hs hi ht | priceOther hs hi ht | stopPrice hs hi ht =>
    exact hi.symbolsList
  | nameMany | nameOne | side =>
    simp only [TOrder.named, TOrder.sided]
    split <;> simp
  | _ => simp

/-! ### Calls of the engine -/

/-- A bound on the passes after one in a state. -/
def State.rank (data : String) : State → ℕ
  | .name | .symbol | .quantity | .delSymbol | .listSymbol => 1
  | .delName | .list => 2
  | .type => if firstArg data = "$h" then 3 else 0
  | .timeInForce => if firstArg data = "$h" then 3 else 1
  | _ => 0

theorem rank_le (data : String) (st : State) : st.rank data ≤ 3 := by
  cases st with
  | type | timeInForce =>
    simp only [State.rank]
    split <;> omega
  | _ =>
    simp only [State.rank]
    omega

theorem rank_empty_le (st : State) : st.rank "" ≤ 2 := by
  cases st <;> decide

theorem Pass.rank_lt {text : String} (h : Pass data d (some text) d' calls) :
    d'.state.rank text < d.state.rank data := by
  have hempty : d.prevState.rank "" < 3 := Nat.lt_succ_of_le (rank_empty_le _)
  cases h with
  | typeHelp hs hd | timeInForceHelp hs hd =>
    rw [hs, State.rank, if_pos hd]
    exact hempty
  | timeInForce hs hd =>
    rw [hs, State.rank, if_neg hd]
    exact Nat.zero_lt_one
  | _ => simp [State.rank, ‹d.state = _›]

/-- A call of the engine: passes, each with the text that the one before it asked for. -/
inductive Passes : String → TOrder F → TOrder F → List (Call F) → Prop
  | last {data : String} {d d' : TOrder F} {calls : List (Call F)}
      (h : Pass data d none d' calls) : Passes data d d' calls
  | again {data text : String} {d d₁ d' : TOrder F} {calls calls' : List (Call F)}
      (h : Pass data d (some text) d₁ calls) (hs : Passes text d₁ d' calls') :
    Passes data d d' (calls ++ calls')

theorem Passes.run_passes (h : Passes data d d' calls) {n : ℕ} (hn : d.state.rank data < n) :
    (passes n data).run d = .done () d' calls := by
  induction h generalizing n with
  | last h =>
    obtain _ | n := n
    · exact absurd hn (Nat.not_lt_zero _)
    · simp only [passes, run_bind_done h.run, run_pure, Outcome.after_done, List.append_nil]
  | again h _ ih =>
    obtain _ | n := n
    · exact absurd hn (Nat.not_lt_zero _)
    · have hlt := h.rank_lt
      simp only [passes, run_bind_done h.run, ih (show _ < n by omega), Outcome.after_done]

/-- The passes of the model are enough. -/
theorem Passes.run (h : Passes data d d' calls) : (engine data).run d = .done () d' calls :=
  h.run_passes (Nat.lt_succ_of_le (rank_le data d.state))

/-- Every call returns if there is a symbol. -/
theorem exists_passes (data : String) (d : TOrder F) (hl : d.symbolsList ≠ []) :
    ∃ d' calls, Passes data d d' calls := by
  induction hn : d.state.rank data using Nat.strong_induction_on generalizing data d with
  | _ n ih =>
    obtain ⟨text?, d₁, calls, h⟩ := exists_pass data hl
    cases text? with
    | none => exact ⟨d₁, calls, .last h⟩
    | some text =>
      obtain ⟨d', calls', hs⟩ := ih _ (hn ▸ h.rank_lt) text d₁ (h.symbolsList ▸ hl) rfl
      exact ⟨d', _, .again h hs⟩

theorem Passes.symbolsList (h : Passes data d d' calls) : d'.symbolsList = d.symbolsList := by
  induction h with
  | last h => exact h.symbolsList
  | again h _ ih => exact ih.trans h.symbolsList

/-- A call of the engine returns, as far as the state tells: there is a symbol, or the check for
this comes first. -/
def TOrder.Defined (d : TOrder F) : Prop :=
  d.symbolsList ≠ [] ∨ d.state = .start ∨ d.state = .delete

theorem TOrder.Defined.passes (h : d.Defined) (data : String) :
    ∃ d' calls, Passes data d d' calls ∧ d'.Defined := by
  by_cases hl : d.symbolsList = []
  · have hs : d.state = .start ∨ d.state = .delete := h.resolve_left (absurd hl)
    refine ⟨d.setInputMode .command, [], .last ?_, .inr hs⟩
    rcases hs with hs | hs
    · exact .startEmpty hs hl
    · exact .deleteEmpty hs hl
  · obtain ⟨d', calls, hp⟩ := exists_passes data d hl
    exact ⟨d', calls, hp, .inl (hp.symbolsList ▸ hl)⟩

/-! ### Events -/

theorem Passes.next (h : Passes data d d' calls) : dialogue.next d (.setData data) = d' := by
  simp only [dialogue, Event.handler, h.run, Outcome.state_done]

theorem Passes.emit (h : Passes data d d' calls) : dialogue.emit d (.setData data) = calls := by
  simp only [dialogue, Event.handler, h.run, Outcome.calls_done]

/-- The state that an event begins a dialogue with. -/
def Event.opens : Event → Option State
  | .start => some .start
  | .del => some .delete
  | .list => some .list
  | .setData _ => none

@[simps]
def TOrder.opened (st : State) (d : TOrder F) : TOrder F :=
  { d with state := st, inputMode := .order }

theorem run_opens {e : Event} {st : State} (he : e.opens = some st) (d : TOrder F) :
    e.handler.run d = (engine "").run (d.opened st) := by
  cases e with
  | setData data => simp [Event.opens] at he
  | _ =>
    obtain rfl := Option.some.inj he
    simp [Event.handler, start, del, list, run_bind, TOrder.opened, TOrder.setInputMode]

theorem Passes.next_opens {e : Event} {st : State} (he : e.opens = some st)
    (h : Passes "" (d.opened st) d' calls) : dialogue.next d e = d' := by
  simp only [dialogue, run_opens he, h.run, Outcome.state_done]

theorem Passes.emit_opens {e : Event} {st : State} (he : e.opens = some st)
    (h : Passes "" (d.opened st) d' calls) : dialogue.emit d e = calls := by
  simp only [dialogue, run_opens he, h.run, Outcome.calls_done]

theorem TOrder.Defined.next (h : d.Defined) (text : String) :
    (dialogue.next d (.setData text)).Defined := by
  obtain ⟨d', calls, hp, hd⟩ := h.passes text
  rwa [hp.next]

theorem TOrder.Defined.run (h : d.Defined) (texts : List String) :
    (dialogue.run d (texts.map .setData)).Defined := by
  induction texts generalizing d with
  | nil => exact h
  | cons text texts ih => exact ih (h.next text)

theorem defined_start (d : TOrder F) : (dialogue.next d .start).Defined := by
  have hopened : (d.opened .start).Defined := .inr (.inl rfl)
  obtain ⟨d', calls, hp, hd⟩ := hopened.passes ""
  rwa [hp.next_opens rfl]

/-- With a symbol every event is a call of the engine that returns. -/
theorem event_passes (hl : d.symbolsList ≠ []) (e : Event) :
    (∃ text, e = .setData text ∧
      Passes text d (dialogue.next d e) (dialogue.emit d e)) ∨
    ∃ st, e.opens = some st ∧
      Passes "" (d.opened st) (dialogue.next d e) (dialogue.emit d e) := by
  cases he : e.opens with
  | none =>
    cases e with
    | setData text =>
      obtain ⟨d', calls, hp⟩ := exists_passes text d hl
      exact .inl ⟨text, rfl, by rwa [hp.next, hp.emit]⟩
    | _ => cases he
  | some st =>
    obtain ⟨d', calls, hp⟩ := exists_passes "" (d.opened st) hl
    exact .inr ⟨st, rfl, by rwa [hp.next_opens he, hp.emit_opens he]⟩

theorem event_symbolsList (hl : d.symbolsList ≠ []) (e : Event) :
    (dialogue.next d e).symbolsList = d.symbolsList := by
  rcases event_passes hl e with ⟨text, -, hp⟩ | ⟨st, -, hp⟩ <;> exact hp.symbolsList

end Passes

end BotTrader.Order
