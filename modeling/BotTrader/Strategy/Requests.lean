import BotTrader.Strategy.Messages
import BotTrader.Strategy.Routing
import BotTrader.Strategy.Steady

/-! How trade-data requests are answered. The five values are staged while they are read, and
only a key that is missing is caught. So a request is answered once and applied as a whole if it
names a known symbol and, for a `set`, all values can be converted, or the first one that cannot
has no key and those before it are staged already. -/

namespace BotTrader.Strategy

open Automata Handler Python

variable {F : Type}

/-- The dictionary of a `tradeData` reply. -/
def Call.tradeData? : Call F → Option (Dict F)
  | .sendToWeb (.obj reply) => if textAt reply "e" = some "tradeData" then some reply else none
  | _ => none

/-- The `tradeData` replies among the calls. -/
def replies (calls : List (Call F)) : List (Dict F) := calls.filterMap Call.tradeData?

theorem lookup_set_self (data : Dict F) (key : String) (j : Json F) :
    (data.set key j).lookup key = some j := by
  unfold Dict.set
  split
  · next h =>
    induction data with
    | nil => simp at h
    | cons kv data ih =>
      obtain ⟨k, v⟩ := kv
      rw [List.map_cons]
      by_cases hk : k = key
      · rw [if_pos (beq_iff_eq.mpr hk), lookup_cons_eq, if_pos rfl]
      · rw [if_neg (beq_iff_eq.not.mpr hk), lookup_cons_eq, if_neg (Ne.symm hk)]
        refine ih ?_
        simpa [hk] using h
  · next h =>
    have hn : data.lookup key = none := by
      rw [List.lookup_eq_none_iff]
      intro kv hkv
      have := List.any_eq_false.mp (Bool.not_eq_true _ ▸ h) kv hkv
      simpa using Ne.symm (by simpa using this)
    rw [List.lookup_append, hn, lookup_cons_eq, if_pos rfl]
    rfl

theorem textAt_set_self (data : Dict F) (key s : String) :
    textAt (data.set key (.str s)) key = some s := by
  simp only [textAt, lookup_set_self]

theorem textAt_set_of_ne {key key' : String} (h : key' ≠ key) (data : Dict F) (j : Json F) :
    textAt (data.set key j) key' = textAt data key' := by
  simp only [textAt, lookup_set_of_ne h]

variable [Runtime F]

/-- The error of the first slot that cannot be converted. -/
def firstError (data : Dict F) : List Slot → Option Exc
  | [] => none
  | i :: is => match i.value data with
    | .ok _ => firstError data is
    | .error x => some x

variable {data : Dict F} {d : SymbolData F}

theorem run_stageSlots (data : Dict F) (is : List Slot) (d : SymbolData F) :
    (stageSlots data is).run d = match firstError data is with
      | none => .done () ((stageSlots data is).run d).state []
      | some x => .raised x ((stageSlots data is).run d).state [] := by
  induction is generalizing d with
  | nil => rfl
  | cons i is ih =>
    rw [run_stageSlots_cons, firstError]
    cases i.value data with
    | error x => rfl
    | ok x => exact ih (i.set x d)

theorem firstError_eq_none {is : List Slot} :
    firstError data is = none ↔ ∀ i ∈ is, ∃ x, i.value data = .ok x := by
  induction is with
  | nil => simp [firstError]
  | cons i is ih =>
    rw [firstError, List.forall_mem_cons]
    cases i.value data <;> simp [ih]

/-- A slot that is staged holds its value. -/
theorem get_stageSlots_of_mem {is : List Slot} (hn : is.Nodup) (h : firstError data is = none)
    {i : Slot} (hi : i ∈ is) (d : SymbolData F) :
    i.value data = .ok (i.get ((stageSlots data is).run d).state) := by
  induction is generalizing d with
  | nil => cases hi
  | cons k is ih =>
    obtain ⟨hk, hn⟩ := List.nodup_cons.mp hn
    rw [run_stageSlots_cons]
    rw [firstError] at h
    cases hv : k.value data with
    | error x => simp [hv] at h
    | ok x =>
      rw [hv] at h
      rcases List.mem_cons.mp hi with rfl | hi
      · rw [hv, get_stageSlots_of_notMem hk, Slot.get_set_self]
      · exact ih hn h hi _

theorem stageSlots_set_e (data : Dict F) (j : Json F) (is : List Slot) :
    stageSlots (data.set "e" j) is = stageSlots data is := by
  induction is with
  | nil => rfl
  | cons i is ih => simp only [stageSlots, value_set_e, ih]

/-! ### One symbol -/

/-- The answer to a request that was carried out. -/
def okReply (data : Dict F) (d : SymbolData F) : Dict F :=
  tradeDataReply (data.set "e" (.str "tradeData")) d

/-- The answer to a request that lacks a key. -/
def keyReply (data : Dict F) : Dict F :=
  ((data.set "e" (.str "tradeData")).set "c" (.str "002")).set "m" (.str "JSON Ключ не найден")

/-- The symbol when the values of a request have been read. -/
def afterStaging (data : Dict F) (d : SymbolData F) : SymbolData F :=
  ((stageSlots data Slot.all).run d).state

theorem replies_okReply (hb : d.tradeState.e = "tradeState") :
    replies [.sendToWeb d.tradeState.toJson, .sendToWeb (.obj (okReply data d))] =
      [okReply data d] := by
  have hok : textAt (okReply data d) "e" = some "tradeData" := by
    simp only [okReply, tradeDataReply]
    iterate 6 rw [textAt_set_of_ne (by decide)]
    exact textAt_set_self _ _ _
  have hts : textAt (F := F) [("e", .str d.tradeState.e), ("s", .str d.tradeState.s),
      ("x", .str d.tradeState.x), ("a", .str d.tradeState.a), ("m", .str d.tradeState.m)] "e" ≠
        some "tradeData" := by
    simp [textAt, hb]
  simp [replies, Call.tradeData?, TradeState.toJson, hok, hts]

omit [Runtime F] in
theorem replies_keyReply :
    replies [.sendToWeb (.obj (keyReply data))] = [keyReply data] := by
  have hk : textAt (keyReply data) "e" = some "tradeData" := by
    simp only [keyReply]
    iterate 2 rw [textAt_set_of_ne (by decide)]
    exact textAt_set_self _ _ _
  simp [replies, Call.tradeData?, hk]

theorem code_okReply : textAt (okReply data d) "c" = some "000" := by
  rw [okReply, tradeDataReply, textAt_set_of_ne (by decide), textAt_set_self]

/-- A request that is no `set` is answered. -/
theorem run_onTradeData_get {a : Json F} (ha : data.item "a" = .ok a) (h : a.isStr "set" = false) :
    (onTradeData data).run d =
      .done () d [.sendToWeb d.tradeState.toJson, .sendToWeb (.obj (okReply data d))] := by
  simp [onTradeData, run_tryExcept, run_bind, item_set_of_ne (show "a" ≠ "e" by decide), ha, h,
    okReply]

theorem run_markReady (d : SymbolData F) :
    ∃ d', markReady.run d = .done () d' [] ∧ ∀ i : Slot, i.get d' = i.get d := by
  by_cases hs : d.fsm = .STOP
  · refine ⟨d.setState .READY, ?_, fun i => by cases i <;> rfl⟩
    simp [markReady, run_bind, fsmRun, hs]
  · refine ⟨(d.setState .READY).banner "data" "ready" "Данные для торгов готовы", ?_,
      fun i => by cases i <;> rfl⟩
    simp [markReady, run_bind, fsmRun, fsmReady, hs]

/-- A request whose values can all be read is answered, and stages them. -/
theorem run_onTradeData_set (ha : data.item "a" = .ok (.str "set"))
    (h : firstError data Slot.all = none) :
    ∃ d', (onTradeData data).run d =
        .done () d' [.sendToWeb d'.tradeState.toJson, .sendToWeb (.obj (okReply data d'))] ∧
      ∀ i : Slot, i.get d' = i.get (afterStaging data d) := by
  have hst : (stageData (data.set "e" (.str "tradeData"))).run d =
      .done () (afterStaging data d) [] := by
    rw [run_stageData, stageSlots_set_e, run_stageSlots, h]
    rfl
  by_cases hr : (afterStaging data d).running = false
  · obtain ⟨d', hm, hd⟩ := run_markReady (afterStaging data d)
    refine ⟨d', ?_, hd⟩
    simp [onTradeData, run_tryExcept, run_bind, item_set_of_ne (show "a" ≠ "e" by decide), ha,
      Json.isStr, hst, hr, hm, okReply]
  · refine ⟨(afterStaging data d).banner "script" "wait" "Данные изменены. Торги работают", ?_,
      fun i => by cases i <;> rfl⟩
    simp [onTradeData, run_tryExcept, run_bind, item_set_of_ne (show "a" ≠ "e" by decide), ha,
      Json.isStr, hst, hr, okReply]

/-- A request that lacks a key is answered too, but what was read before it stays staged. -/
theorem run_onTradeData_keyError (ha : data.item "a" = .ok (.str "set"))
    (h : firstError data Slot.all = some .keyError) :
    (onTradeData data).run d =
      .done () (afterStaging data d) [.sendToWeb (.obj (keyReply data))] := by
  have hst : (stageData (data.set "e" (.str "tradeData"))).run d =
      .raised .keyError (afterStaging data d) [] := by
    rw [run_stageData, stageSlots_set_e, run_stageSlots, h]
    rfl
  simp [onTradeData, run_tryExcept, run_bind, item_set_of_ne (show "a" ≠ "e" by decide), ha,
    Json.isStr, hst, keyReply]

/-- A value that is no number is not caught. -/
theorem run_onTradeData_error (ha : data.item "a" = .ok (.str "set")) {x : Exc}
    (h : firstError data Slot.all = some x) (hx : x ≠ .keyError) :
    (onTradeData data).run d = .raised x (afterStaging data d) [] := by
  have hst : (stageData (data.set "e" (.str "tradeData"))).run d =
      .raised x (afterStaging data d) [] := by
    rw [run_stageData, stageSlots_set_e, run_stageSlots, h]
    rfl
  simp [onTradeData, run_tryExcept, run_bind, item_set_of_ne (show "a" ≠ "e" by decide), ha,
    Json.isStr, hst, hx]

/-! ### The strategy -/

variable {t : Script F} {msg : Option (Json F)} {a : Json F} {s : String}

/-- The text is the JSON of a dictionary with an action and a known symbol. -/
structure Asks (t : Script F) (msg : Option (Json F)) (data : Dict F) (a : Json F) (s : String)
    (d : SymbolData F) : Prop where
  json : ∃ j, msg = some j ∧ j.loads = .obj data
  action : data.item "a" = .ok a
  symbol : data.item "s" = .ok (.str s)
  known : t.symbolData s = some d

omit [Runtime F] in
theorem asks_unique {data' : Dict F} {a' : Json F} {s' : String} {d' : SymbolData F}
    (h : Asks t msg data a s d) (h' : Asks t msg data' a' s' d') :
    data' = data ∧ a' = a ∧ s' = s ∧ d' = d := by
  obtain ⟨j, rfl, hj⟩ := h.json
  obtain ⟨j', hj', hl⟩ := h'.json
  obtain rfl := Option.some.inj hj'
  obtain rfl := Json.obj.inj (hj.symm.trans hl)
  obtain rfl := Except.ok.inj (h.action.symm.trans h'.action)
  obtain rfl := Json.str.inj (Except.ok.inj (h.symbol.symm.trans h'.symbol))
  exact ⟨rfl, rfl, rfl, (Option.some.inj (h.known.symm.trans h'.known)).symm⟩

theorem run_of_asks (h : Asks t msg data a s d) :
    (Script.onTradeData msg).run t = (onSymbol s (onTradeData data)).run t := by
  obtain ⟨j, rfl, hj⟩ := h.json
  simp [Script.onTradeData, run_bind, hj, h.action, h.symbol, knownSymbol, h.known]

/-- Anything else changes nothing and is not answered. -/
theorem run_of_not_asks (h : ¬∃ data a s d, Asks t msg data a s d) :
    ((Script.onTradeData msg).run t).state = t ∧ ((Script.onTradeData msg).run t).calls = [] := by
  cases msg with
  | none => exact ⟨rfl, rfl⟩
  | some j =>
    simp only [Script.onTradeData]
    split
    · next data hj =>
      rcases ha : Dict.item data "a" with x | a
      · simp [run_bind]
      rcases hs : Dict.item data "s" with x | s
      · simp [run_bind]
      rcases hk : knownSymbol t s with x | _ | symbol
      · simp [run_bind, hk]
      · simp [run_bind, hk]
      · obtain ⟨rfl, d, hd⟩ := of_knownSymbol hk
        exact absurd ⟨data, a, symbol, d, ⟨j, rfl, hj⟩, ha, hs, hd⟩ h
    · exact ⟨rfl, rfl⟩

omit [Runtime F] in
theorem run_onSymbol_done (h : t.symbolData s = some d) {m : Py F Unit} {d' : SymbolData F}
    {calls : List (Call F)} (hm : m.run d = .done () d' calls) :
    (onSymbol s m).run t =
      .done () { t with symbolData := Function.update t.symbolData s (some d') } calls := by
  have hm' : m d = .done () d' calls := hm
  simp [onSymbol, Handler.run, h, hm']

omit [Runtime F] in
theorem run_onSymbol_raised (h : t.symbolData s = some d) {m : Py F Unit} {d' : SymbolData F}
    {x : Exc} {calls : List (Call F)} (hm : m.run d = .raised x d' calls) :
    (onSymbol s m).run t =
      .raised x { t with symbolData := Function.update t.symbolData s (some d') } calls := by
  have hm' : m d = .raised x d' calls := hm
  simp [onSymbol, Handler.run, h, hm']

/-- The staged values of all symbols are the same. -/
def SameSlots (t t' : Script F) : Prop :=
  ∀ (s : String) (i : Slot), (t'.symbolData s).map i.get = (t.symbolData s).map i.get

omit [Runtime F] in
theorem sameSlots_update (h : t.symbolData s = some d) {d' : SymbolData F} :
    SameSlots t { t with symbolData := Function.update t.symbolData s (some d') } ↔
      ∀ i : Slot, i.get d' = i.get d := by
  constructor
  · intro hs i
    simpa [h] using hs s i
  · intro hd name i
    by_cases hn : name = s
    · subst hn
      simp [h, hd]
    · simp [Function.update_of_ne hn]

/-- The request is a `set`, its symbol has taken over its five values, and the answer says so. -/
def TakesOver (t : Script F) (msg : Option (Json F)) : Prop :=
  ∃ data s d d', Asks t msg data (.str "set") s d ∧
    strategy.next t (.tradeData msg) =
      { t with symbolData := Function.update t.symbolData s (some d') } ∧
    (∀ i : Slot, i.value data = .ok (i.get d')) ∧
    ∀ r ∈ replies (strategy.emit t (.tradeData msg)), textAt r "c" = some "000"

/-- The request is answered once, and applied as a whole or not at all. -/
structure AnsweredWhole (t : Script F) (msg : Option (Json F)) : Prop where
  once : (replies (strategy.emit t (.tradeData msg))).length = 1
  whole : TakesOver t msg ∨ SameSlots t (strategy.next t (.tradeData msg))

/-- The request names a known symbol; if it is a `set`, all values can be converted, or the
first one that cannot has no key and those before it are staged already. -/
def Answerable (t : Script F) (msg : Option (Json F)) : Prop :=
  ∃ data a s d, Asks t msg data a s d ∧ (a = .str "set" →
    firstError data Slot.all = none ∨
      firstError data Slot.all = some .keyError ∧ ¬Differs data d Slot.all)

theorem answerable_iff (h : Asks t msg data a s d) : Answerable t msg ↔ (a = .str "set" →
    firstError data Slot.all = none ∨
      firstError data Slot.all = some .keyError ∧ ¬Differs data d Slot.all) := by
  constructor
  · rintro ⟨data', a', s', d', h', hc⟩
    obtain ⟨rfl, rfl, rfl, rfl⟩ := asks_unique h h'
    exact hc
  · exact fun hc => ⟨data, a, s, d, h, hc⟩

theorem not_takesOver (h : Asks t msg data a s d) {x : Exc}
    (hx : firstError data Slot.all = some x) : ¬TakesOver t msg := by
  rintro ⟨data', s', d', d'', h', -, hv, -⟩
  obtain ⟨rfl, -, -, -⟩ := asks_unique h h'
  rw [firstError_eq_none.mpr fun i _ => ⟨_, hv i⟩] at hx
  cases hx

/-- What becomes of a `set`, by the first value that cannot be converted. -/
theorem answeredWhole_set (h : Asks t msg data (.str "set") s d)
    (hb : d.tradeState.e = "tradeState") :
    AnsweredWhole t msg ↔ firstError data Slot.all = none ∨
      firstError data Slot.all = some .keyError ∧ ¬Differs data d Slot.all := by
  have hrun := run_of_asks h
  have hmem (i : Slot) : i ∈ Slot.all := by cases i <;> decide
  rcases hx : firstError data Slot.all with _ | x
  · refine iff_of_true ?_ (.inl rfl)
    obtain ⟨d', hd, hslots⟩ := run_onTradeData_set (d := d) h.action hx
    have hb' : d'.tradeState.e = "tradeState" := by
      have := banner_next d (.tradeData data)
      simp only [bot, SymbolData.react, Event.handler, hd, Outcome.state_done] at this
      exact this.trans hb
    rw [run_onSymbol_done h.known hd] at hrun
    have hrep : replies (strategy.emit t (.tradeData msg)) = [okReply data d'] := by
      simp only [strategy, Message.handler, hrun, Outcome.calls_done, replies_okReply hb']
    refine ⟨by rw [hrep]; rfl, .inl ⟨data, s, d, d', h, ?_, fun i => ?_, ?_⟩⟩
    · simp only [strategy, Message.handler, hrun, Outcome.state_done]
    · rw [hslots i]
      exact get_stageSlots_of_mem (by decide) hx (hmem i) d
    · simp [hrep, code_okReply]
  by_cases hk : x = .keyError
  · subst hk
    rw [run_onSymbol_done h.known (run_onTradeData_keyError h.action hx)] at hrun
    have hsame : SameSlots t (strategy.next t (.tradeData msg)) ↔ ¬Differs data d Slot.all := by
      simp only [strategy, Message.handler, hrun, Outcome.state_done]
      exact (sameSlots_update h.known).trans (get_stageSlots_iff (by decide) d)
    simp only [reduceCtorEq, false_or, true_and]
    constructor
    · exact fun ha => hsame.mp (ha.whole.resolve_left (not_takesOver h hx))
    · intro hd
      refine ⟨?_, .inr (hsame.mpr hd)⟩
      simp only [strategy, Message.handler, hrun, Outcome.calls_done, replies_keyReply,
        List.length_singleton]
  · rw [run_onSymbol_raised h.known (run_onTradeData_error h.action hx hk)] at hrun
    refine iff_of_false (fun ha => ?_) (by simp [hk])
    have hone := ha.once
    simp [strategy, Message.handler, hrun, replies] at hone

/-- For a request of a reachable strategy. -/
theorem answeredWhole_iff (symbols : List String) (ms : List (Message F))
    (msg : Option (Json F)) :
    AnsweredWhole (strategy.run (Script.init symbols) ms) msg ↔
      Answerable (strategy.run (Script.init symbols) ms) msg := by
  have hreach : ∀ s d, (strategy.run (Script.init symbols) ms).symbolData s = some d →
      ∃ es, d = bot.run (SymbolData.init s) es := fun _ _ => reachable_symbol
  generalize strategy.run (Script.init symbols) ms = t at hreach ⊢
  by_cases hasks : ∃ data a s d, Asks t msg data a s d
  · obtain ⟨data, a, s, d, h⟩ := hasks
    rw [answerable_iff h]
    have hb : d.tradeState.e = "tradeState" := by
      obtain ⟨es, rfl⟩ := hreach s d h.known
      exact reachable_banner s es
    by_cases hset : a = .str "set"
    · subst hset
      rw [answeredWhole_set h hb]
      simp
    · refine iff_of_true ?_ fun ha => absurd ha hset
      have hrun := run_of_asks h
      have hget : a.isStr "set" = false := by rwa [← Bool.not_eq_true, isStr_eq_true]
      rw [run_onSymbol_done h.known (run_onTradeData_get h.action hget)] at hrun
      constructor
      · simp only [strategy, Message.handler, hrun, Outcome.calls_done, replies_okReply hb,
          List.length_singleton]
      · simp only [strategy, Message.handler, hrun, Outcome.state_done]
        exact .inr ((sameSlots_update h.known).mpr fun _ => rfl)
  · obtain ⟨-, hc⟩ := run_of_not_asks hasks
    refine iff_of_false (fun h => ?_) fun ⟨data, a, s, d, h, _⟩ => hasks ⟨data, a, s, d, h⟩
    have hone := h.once
    simp [strategy, Message.handler, hc, replies] at hone

/-- A request to set the buy side of a symbol, with a price that is no number. -/
def malformedSet : Json ℚ :=
  .obj [("a", .str "set"), ("s", .str "BTC"),
    ("B", .obj [("t", .str "5"), ("p", .str "ten")])]

/-- The trigger is staged, and nothing is answered. -/
theorem malformedSet_unanswered :
    (((strategy.next (Script.init ["BTC"]) (.tradeData (some malformedSet))).symbolData "BTC").map
        fun d => d.tempTrigger 0) = some 5 ∧
      ¬AnsweredWhole (strategy.run (Script.init ["BTC"]) []) (some malformedSet) := by
  refine ⟨by decide +kernel, fun h => ?_⟩
  have hnone : (replies (strategy.emit (Script.init ["BTC"])
      (.tradeData (some malformedSet)))).length = 0 := by decide +kernel
  have hone := h.once
  rw [Machine.run_nil, hnone] at hone
  cases hone

end BotTrader.Strategy
