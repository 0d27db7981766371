import BotTrader.Automata.Fleet
import BotTrader.Strategy.Routing

/-! What the script makes of a message: a list of symbols and of what each of them is asked.
The list depends on the message and on the names of the symbols, never on their state, so the
script is a fleet of symbols that do not see each other. -/

namespace BotTrader.Strategy

open Automata Handler Python

variable {F : Type} [Runtime F]

/-- A symbol that is asked to take an event, or (by no event) to show its trade state. -/
def desk : Machine (SymbolData F) (Option (Event F)) (Call F) where
  next d e := e.elim d (bot.next d)
  emit d e := e.elim [.sendToWeb d.tradeState.toJson] (bot.emit d)

/-- A symbol and what it is asked. -/
abbrev Delivery (F : Type) := String × Option (Event F)

omit [Runtime F] in
/-- The symbol that an entry of the exchange information is for. -/
def infoFor (t : Script F) (symbol : Json F) : Except Exc (Option (String × Dict F)) := do
  let quoteAsset ← symbol.item "quoteAsset"
  if quoteAsset.isStr "USDT" then
    let s ← symbol.item "baseAsset"
    match ← knownSymbol t s, symbol with
    | some s, .obj info => return some (s, info)
    | _, _ => return none
  else
    return none

/-- Reading these filters ends in an exception. -/
def refusesInfo (info : Dict F) : Bool :=
  match ((onExchangeInfo info).run (SymbolData.init "")).result with
  | .ok _ => false
  | .error _ => true

/-- Entries up to the first that raises. -/
def infoDeliveries (t : Script F) : List (Json F) → List (Delivery F)
  | [] => []
  | symbol :: symbols => match infoFor t symbol with
    | .error _ => []
    | .ok none => infoDeliveries t symbols
    | .ok (some (s, info)) => (s, some (.exchangeInfo info)) ::
        if refusesInfo info then [] else infoDeliveries t symbols

/-- One delivery, to a symbol that has been found. -/
def deliver (e : Option (Event F)) : Except Exc (Option String) → List (Delivery F)
  | .ok (some s) => [(s, e)]
  | _ => []

/-- The same for a name. -/
def deliverTo (t : Script F) (e : Option (Event F)) (s : String) : List (Delivery F) :=
  if (t.symbolData s).isSome then [(s, e)] else []

/-- `json.loads` of the text of a message that has one; nothing else reads other texts. -/
def dictOf : Option (Json F) → Option (Dict F)
  | some j => match j.loads with
    | .obj dict => some dict
    | _ => none
  | none => none

/-- Whom a message reaches. -/
def Message.deliveries (t : Script F) : Message F → List (Delivery F)
  | .exchangeInfo data => match data with
    | none => []
    | some j => match (do (← j.loads.item "symbols").iter : Except Exc (List (Json F))) with
      | .ok symbols => infoDeliveries t symbols
      | .error _ => []
  | .tradeData data => (dictOf data).toList.flatMap fun dict =>
      deliver (some (.tradeData dict)) (do
        let _ ← Dict.item dict "a"
        knownSymbol t (← Dict.item dict "s"))
  | .tradeRun data => (dictOf data).toList.flatMap fun dict =>
      deliver (some (.tradeRun dict)) (do knownSymbol t (← Dict.item dict "s"))
  | .getTradeState symbol => deliverTo t none symbol
  | .price data => (dictOf data).toList.flatMap fun dict =>
      match (do
        let symbol ← Dict.item dict "symbol"
        let value ← Dict.item dict "price"
        return (← withoutUsdt symbol, value) : Except Exc (String × Json F)) with
      | .ok (symbol, value) => deliverTo t (some (.price value)) symbol
      | .error _ => []
  | .orderReport data => (dictOf data).toList.flatMap fun dict =>
      match (do withoutUsdt (← Dict.item dict "s") : Except Exc String) with
      | .ok symbol => deliverTo t (some (.orderReport dict)) symbol
      | .error _ => []
  | .timeout symbol => deliverTo t (some .orderCompleteTimeout) symbol

/-! ### A handler and its deliveries -/

/-- From `t` the handler does what the symbols do under these deliveries. -/
structure Delivers {α : Type} (h : ScriptPy F α) (t : Script F) (ds : List (Delivery F)) : Prop where
  state : (h.run t).state.symbolData = desk.fleet.run t.symbolData ds
  calls : (h.run t).calls = (desk.fleet.emitted t.symbolData ds).map Prod.snd

variable {α β : Type} {t : Script F}

/-- A handler that touches nothing delivers nothing. -/
theorem delivers_nil {h : ScriptPy F α} (hs : (h.run t).state = t) (hc : (h.run t).calls = []) :
    Delivers h t [] :=
  ⟨by rw [hs, Machine.run_nil], by rw [hc]; rfl⟩

theorem delivers_pure (a : α) : Delivers (pure a) t [] := delivers_nil rfl rfl

theorem delivers_raise (x : Exc) : Delivers (raise x : ScriptPy F α) t [] := delivers_nil rfl rfl

theorem delivers_attempt_bind {x : Except Exc α} {f : α → ScriptPy F β} {ds : List (Delivery F)}
    (he : ∀ e, x = .error e → ds = []) (ho : ∀ a, x = .ok a → Delivers (f a) t ds) :
    Delivers (attempt x >>= f) t ds := by
  cases x with
  | error e =>
    rw [he e rfl]
    exact delivers_nil (by simp [run_bind]) (by simp [run_bind])
  | ok a =>
    obtain ⟨hs, hc⟩ := ho a rfl
    exact ⟨by simpa [run_bind] using hs, by simpa [run_bind] using hc⟩

theorem delivers_self_bind {f : Script F → ScriptPy F β} {ds : List (Delivery F)}
    (h : Delivers (f t) t ds) : Delivers (self >>= f) t ds :=
  ⟨by simpa [run_bind] using h.state, by simpa [run_bind] using h.calls⟩

theorem delivers_onSymbol (s : String) (e : Event F) :
    Delivers (onSymbol s e.handler) t [(s, some e)] := by
  cases hd : t.symbolData s with
  | none =>
    refine ⟨?_, by simp [onSymbol, Handler.run, hd, Machine.fleet]⟩
    funext i
    rw [state_onSymbol_event, Machine.run_fleet]
    by_cases hi : i = s
    · simp [hi, hd]
    · rw [if_neg hi, only_cons_of_ne (fun h => hi h.symm)]
      simp
  | some d =>
    constructor
    · funext i
      rw [state_onSymbol_event, Machine.run_fleet]
      by_cases hi : i = s
      · rw [if_pos hi, hi, only_cons_self]
        rfl
      · rw [if_neg hi, only_cons_of_ne (fun h => hi h.symm)]
        simp
    · have hc : ((onSymbol s e.handler).run t).calls = (e.handler.run d).calls := by
        simp only [onSymbol, Handler.run, hd]
        cases e.handler d <;> rfl
      rw [hc]
      simp [Machine.fleet, hd, desk, bot, SymbolData.react, Function.comp_def]

theorem delivers_known {x : Except Exc (Option String)} {f : Option String → ScriptPy F Unit}
    (e : Event F) (hs : ∀ s, f (some s) = onSymbol s e.handler)
    (hn : Delivers (f none) t []) : Delivers (attempt x >>= f) t (deliver (some e) x) := by
  refine delivers_attempt_bind (fun _ he => by rw [he]; rfl) fun known hk => ?_
  rw [hk]
  cases known with
  | none => exact hn
  | some s =>
    rw [hs]
    exact delivers_onSymbol s e

theorem delivers_found (s : String) (e : Event F) :
    Delivers (if (t.symbolData s).isSome then onSymbol s e.handler else pure ()) t
      (deliverTo t (some e) s) := by
  unfold deliverTo
  split
  · exact delivers_onSymbol s e
  · exact delivers_pure ()

theorem Delivers.bind {h : ScriptPy F α} {f : α → ScriptPy F β} {ds ds' : List (Delivery F)}
    (e : Delivers h t ds) (he : ∀ x, (h.run t).result = .error x → ds' = [])
    (ho : ∀ a, (h.run t).result = .ok a → Delivers (f a) (h.run t).state ds') :
    Delivers (h >>= f) t (ds ++ ds') := by
  obtain ⟨hs, hc⟩ := e
  cases hh : h.run t with
  | raised x t' o =>
    rw [hh] at hs hc
    have hds := he x (by rw [hh]; rfl)
    subst hds
    rw [List.append_nil]
    exact ⟨by rw [run_bind_raised hh]; exact hs, by rw [run_bind_raised hh]; exact hc⟩
  | done a t' o =>
    rw [hh] at hs hc
    have hd := ho a (by rw [hh]; rfl)
    rw [hh, Outcome.state_done] at hd
    rw [Outcome.state_done] at hs
    rw [Outcome.calls_done] at hc
    constructor
    · rw [run_bind_done hh, Outcome.state_after, hd.state, hs, Machine.run_append]
    · rw [run_bind_done hh, Outcome.calls_after, hd.calls, hc, hs, Machine.emitted_append,
        List.map_append]

/-! ### Names of symbols -/

/-- The same symbols, in any state. -/
def SameSymbols (t t' : Script F) : Prop := ∀ s, (t'.symbolData s).isSome = (t.symbolData s).isSome

omit [Runtime F] in
theorem knownSymbol_congr {t' : Script F} (h : SameSymbols t t') (j : Json F) :
    knownSymbol t' j = knownSymbol t j := by
  cases j <;> simp [knownSymbol, h _]

omit [Runtime F] in
theorem infoFor_congr {t' : Script F} (h : SameSymbols t t') (j : Json F) :
    infoFor t' j = infoFor t j := by
  simp only [infoFor, knownSymbol_congr h]

theorem infoDeliveries_congr {t' : Script F} (h : SameSymbols t t') (js : List (Json F)) :
    infoDeliveries t' js = infoDeliveries t js := by
  induction js with
  | nil => rfl
  | cons j js ih => simp only [infoDeliveries, infoFor_congr h, ih]

omit [Runtime F] in
theorem deliverTo_congr {t' : Script F} (h : SameSymbols t t') (e : Option (Event F)) (s : String) :
    deliverTo t' e s = deliverTo t e s := by
  simp only [deliverTo, h s]

/-- Whom a message reaches does not depend on the state of any symbol. -/
theorem deliveries_congr {t' : Script F} (h : SameSymbols t t') (m : Message F) :
    m.deliveries t' = m.deliveries t := by
  cases m <;> simp only [Message.deliveries, infoDeliveries_congr h, knownSymbol_congr h,
    deliverTo_congr h]

theorem Delivers.sameSymbols {h : ScriptPy F α} {ds : List (Delivery F)} (e : Delivers h t ds) :
    SameSymbols t (h.run t).state := by
  intro s
  rw [e.state, Machine.isSome_run_fleet]

/-! ### Exchange information -/

theorem blind_onExchangeInfo (info : Dict F) : (onExchangeInfo info).Blind := by
  have hf (j : Json F) : (onFilter j).Blind := by
    refine (blind_attempt _).bind fun type => ?_
    split
    · exact (blind_attempt _).bind fun x => blind_update _
    split
    · exact (blind_attempt _).bind fun x => blind_update _
    split
    · refine (blind_attempt _).bind fun x => (blind_update _).bind fun _ => ?_
      exact (blind_attempt _).bind fun x => blind_update _
    split
    · exact (blind_attempt _).bind fun x => blind_update _
    · exact blind_pure ()
  refine (blind_attempt _).bind fun n => (blind_update _).bind fun _ => ?_
  refine (blind_attempt _).bind fun n => (blind_update _).bind fun _ => ?_
  exact (blind_attempt _).bind fun filters => blind_forM hf filters

theorem result_onExchangeInfo (info : Dict F) (d : SymbolData F) :
    (∃ x, ((onExchangeInfo info).run d).result = .error x) ↔ refusesInfo info = true := by
  obtain ⟨r, hr⟩ := blind_onExchangeInfo info
  rw [refusesInfo, hr, hr]
  cases r <;> simp

theorem run_symbolInfo (t : Script F) (j : Json F) :
    (symbolInfo j).run t = match infoFor t j with
      | .error x => .raised x t []
      | .ok none => .done () t []
      | .ok (some (s, info)) => (onSymbol s (Strategy.onExchangeInfo info)).run t := by
  simp only [symbolInfo, infoFor]
  rcases j.item "quoteAsset" with x | quoteAsset
  · rfl
  rw [run_bind_done (run_attempt_ok quoteAsset t), Outcome.after_nil, except_ok_bind]
  split
  · rcases j.item "baseAsset" with x | s
    · rfl
    rw [run_bind_done (run_attempt_ok s t), Outcome.after_nil, run_bind_done (run_self t),
      Outcome.after_nil, except_ok_bind]
    rcases knownSymbol t s with x | _ | s
    · rfl
    · cases j <;> rfl
    · rw [run_bind_done (run_attempt_ok _ t), Outcome.after_nil, except_ok_bind]
      cases j <;> rfl
  · rfl

omit [Runtime F] in
theorem infoFor_some {j : Json F} {s : String} {info : Dict F}
    (h : infoFor t j = .ok (some (s, info))) : ∃ d, t.symbolData s = some d := by
  simp only [infoFor] at h
  rcases hq : j.item "quoteAsset" with x | quoteAsset
  · simp [hq] at h
  rw [hq, except_ok_bind] at h
  split at h
  · rcases hb : j.item "baseAsset" with x | b
    · simp [hb] at h
    rw [hb, except_ok_bind] at h
    rcases hk : knownSymbol t b with x | _ | s'
    · simp [hk] at h
    · cases j <;> simp [hk] at h
    · cases j with
      | obj info' =>
        obtain rfl : s' = s := by
          have h' : some (s', info') = some (s, info) := by simpa [hk] using h
          exact (Prod.mk.inj (Option.some.inj h')).1
        exact (of_knownSymbol hk).2
      | _ => simp [hk] at h
  · simp at h

theorem delivers_forM_symbolInfo (js : List (Json F)) (t : Script F) :
    Delivers (js.forM symbolInfo) t (infoDeliveries t js) := by
  induction js generalizing t with
  | nil => exact delivers_pure ()
  | cons j js ih =>
    have hrun := run_symbolInfo t j
    have hcons : (j :: js).forM symbolInfo = symbolInfo j >>= fun _ => js.forM symbolInfo := rfl
    rw [hcons, infoDeliveries]
    rcases hi : infoFor t j with x | _ | ⟨s, info⟩
    · rw [hi] at hrun
      exact delivers_nil (by rw [run_bind_raised hrun]; rfl) (by rw [run_bind_raised hrun]; rfl)
    · rw [hi] at hrun
      have hdel : Delivers (symbolInfo j) t [] :=
        delivers_nil (by rw [hrun]; rfl) (by rw [hrun]; rfl)
      refine hdel.bind (fun x hx => by rw [hrun] at hx; cases hx) fun _ _ => ?_
      rw [hrun]
      exact ih t
    · obtain ⟨d, hd⟩ := infoFor_some hi
      rw [hi] at hrun
      have hres : ((symbolInfo j).run t).result =
          ((Strategy.onExchangeInfo info).run d).result := by
        rw [hrun]
        simp only [onSymbol, Handler.run, hd]
        cases Strategy.onExchangeInfo info d <;> rfl
      have hdel : Delivers (symbolInfo j) t [(s, some (.exchangeInfo info))] := by
        have he := delivers_onSymbol (t := t) s (.exchangeInfo info)
        exact ⟨by rw [hrun]; exact he.state, by rw [hrun]; exact he.calls⟩
      suffices h : Delivers (symbolInfo j >>= fun _ => js.forM symbolInfo) t
          ([(s, some (.exchangeInfo info))] ++
            if refusesInfo info then [] else infoDeliveries t js) from h
      refine hdel.bind (fun x hx => ?_) fun _ ha => ?_
      · rw [if_pos ((result_onExchangeInfo info d).mp ⟨x, by rw [← hres, hx]⟩)]
      · rw [if_neg fun hr => ?_, ← infoDeliveries_congr hdel.sameSymbols]
        · exact ih _
        · obtain ⟨x, hx⟩ := (result_onExchangeInfo info d).mpr hr
          rw [hres, hx] at ha
          cases ha

/-! ### Messages -/

theorem delivers_onExchangeInfo (data : Option (Json F)) :
    Delivers (Script.onExchangeInfo data) t (Message.deliveries t (.exchangeInfo data)) := by
  cases data with
  | none => exact delivers_pure ()
  | some j =>
    simp only [Script.onExchangeInfo, Message.deliveries]
    refine delivers_attempt_bind (fun x hx => by rw [hx]) fun js hj => ?_
    rw [hj]
    exact delivers_forM_symbolInfo js t

theorem delivers_onTradeData (data : Option (Json F)) :
    Delivers (Script.onTradeData data) t (Message.deliveries t (.tradeData data)) := by
  cases data with
  | none => exact delivers_pure ()
  | some j =>
    simp only [Script.onTradeData, Message.deliveries, dictOf]
    cases j.loads with
    | obj dict =>
      simp only [Option.toList_some, List.flatMap_singleton]
      refine delivers_attempt_bind (fun x hx => by rw [hx]; rfl) fun a ha => ?_
      rw [ha, except_ok_bind]
      refine delivers_attempt_bind (fun x hx => by rw [hx]; rfl) fun s hs => ?_
      rw [hs, except_ok_bind]
      refine delivers_self_bind (delivers_known (.tradeData dict) (fun _ => rfl) ?_)
      exact delivers_raise _
    | _ => exact delivers_raise _

theorem delivers_onTradeRun (data : Option (Json F)) :
    Delivers (Script.onTradeRun data) t (Message.deliveries t (.tradeRun data)) := by
  cases data with
  | none => exact delivers_pure ()
  | some j =>
    simp only [Script.onTradeRun, Message.deliveries, dictOf]
    cases j.loads with
    | obj dict =>
      simp only [Option.toList_some, List.flatMap_singleton]
      refine delivers_attempt_bind (fun x hx => by rw [hx]; rfl) fun s hs => ?_
      rw [hs, except_ok_bind]
      exact delivers_self_bind (delivers_known (.tradeRun dict) (fun _ => rfl) (delivers_pure ()))
    | _ => exact delivers_raise _

theorem delivers_onGetTradeState (s : String) :
    Delivers (Script.onGetTradeState s) t (Message.deliveries t (.getTradeState s)) := by
  refine delivers_self_bind ?_
  simp only [Message.deliveries, deliverTo]
  cases hd : t.symbolData s with
  | none => exact delivers_pure ()
  | some d =>
    simp only [Option.isSome_some, if_true]
    refine ⟨?_, by simp [Machine.fleet, hd, desk]⟩
    funext i
    rw [Machine.run_fleet]
    by_cases hi : s = i
    · subst hi
      simp [only_cons_self, hd, desk]
    · simp [only_cons_of_ne hi]

theorem delivers_onPrice (data : Option (Json F)) :
    Delivers (Script.onPrice data) t (Message.deliveries t (.price data)) := by
  cases data with
  | none => exact delivers_pure ()
  | some j =>
    simp only [Script.onPrice, Message.deliveries, dictOf]
    cases j.loads with
    | obj dict =>
      simp only [Option.toList_some, List.flatMap_singleton]
      refine delivers_attempt_bind (fun x hx => by rw [hx]; rfl) fun symbol hs => ?_
      rw [hs, except_ok_bind]
      refine delivers_attempt_bind (fun x hx => by rw [hx]; rfl) fun value hv => ?_
      rw [hv, except_ok_bind]
      refine delivers_attempt_bind (fun x hx => by rw [hx]; rfl) fun s hs => ?_
      rw [hs]
      exact delivers_self_bind (delivers_found s (.price value))
    | _ => exact delivers_raise _

/-- What is tried after an exception touches no symbol. -/
theorem Delivers.tryExcept {h g : ScriptPy F α} {x : Exc} {ds : List (Delivery F)}
    (e : Delivers h t ds) (hs : ∀ t, (g.run t).state = t) (hc : ∀ t, (g.run t).calls = []) :
    Delivers (Handler.tryExcept x h g) t ds := by
  obtain ⟨hst, hca⟩ := e
  constructor
  · rw [state_tryExcept_quiet hs, hst]
  · rw [run_tryExcept]
    rcases hh : h.run t with ⟨a, t', o⟩ | ⟨y, t', o⟩
    · rw [hh] at hca
      exact hca
    · rw [hh] at hca
      by_cases hy : y = x
      · simp only [if_pos hy, Outcome.calls_after, hc, List.append_nil]
        exact hca
      · simp only [if_neg hy]
        exact hca

theorem delivers_onOrderReport (data : Option (Json F)) :
    Delivers (Script.onOrderReport data) t (Message.deliveries t (.orderReport data)) := by
  cases data with
  | none => exact delivers_pure ()
  | some j =>
    simp only [Script.onOrderReport, Message.deliveries, dictOf]
    cases j.loads with
    | obj report =>
      simp only [Option.toList_some, List.flatMap_singleton]
      have quiet (t : Script F) : ∃ r, (Handler.tryExcept .keyError (do
          let _ ← attempt (Dict.item report "msg")
          let _ ← attempt (Dict.item report "code")
          raise .attributeError) (pure ()) : ScriptPy F Unit).run t = r ∧ r.state = t ∧
            r.calls = [] := by
        rcases Dict.item report "msg" with x | msg
        · cases x <;> exact ⟨_, rfl, rfl, rfl⟩
        rcases Dict.item report "code" with x | code
        · cases x <;> exact ⟨_, rfl, rfl, rfl⟩
        · exact ⟨_, rfl, rfl, rfl⟩
      refine Delivers.tryExcept ?_ (fun t => ?_) fun t => ?_
      · refine delivers_attempt_bind (fun x hx => by rw [hx]) fun s hs => ?_
        rw [hs]
        exact delivers_self_bind (delivers_found s (.orderReport report))
      · obtain ⟨r, hr, hs, -⟩ := quiet t
        rw [hr, hs]
      · obtain ⟨r, hr, -, hc⟩ := quiet t
        rw [hr, hc]
    | _ => exact delivers_raise _

/-- Every message is a list of deliveries. -/
theorem delivers_handler (m : Message F) (t : Script F) :
    Delivers m.handler t (m.deliveries t) := by
  cases m with
  | exchangeInfo data => exact delivers_onExchangeInfo data
  | tradeData data => exact delivers_onTradeData data
  | tradeRun data => exact delivers_onTradeRun data
  | getTradeState s => exact delivers_onGetTradeState s
  | price data => exact delivers_onPrice data
  | orderReport data => exact delivers_onOrderReport data
  | timeout s =>
    cases hd : t.symbolData s with
    | none =>
      have he : Message.deliveries t (.timeout s) = [] := by simp [Message.deliveries, deliverTo, hd]
      rw [he]
      exact delivers_nil (by simp [Message.handler, onSymbol, Handler.run, hd])
        (by simp [Message.handler, onSymbol, Handler.run, hd])
    | some d =>
      have he : Message.deliveries t (.timeout s) = [(s, some .orderCompleteTimeout)] := by
        simp [Message.deliveries, deliverTo, hd]
      rw [he]
      exact delivers_onSymbol s .orderCompleteTimeout

/-! ### Runs -/

/-- The script is a fleet of symbols: in a run it goes through the states, and makes the calls,
of the symbols that take the deliveries of its messages one after the other. -/
theorem strategy_run_eq_fleet (t : Script F) (ms : List (Message F)) :
    (strategy.run t ms).symbolData =
        desk.fleet.run t.symbolData (ms.flatMap (Message.deliveries t)) ∧
      strategy.emitted t ms =
        (desk.fleet.emitted t.symbolData (ms.flatMap (Message.deliveries t))).map Prod.snd := by
  induction ms generalizing t with
  | nil => exact ⟨rfl, rfl⟩
  | cons m ms ih =>
    have hm := delivers_handler m t
    obtain ⟨hs, hc⟩ := ih (strategy.next t m)
    have hcongr : Message.deliveries (strategy.next t m) = Message.deliveries t :=
      funext fun m' => deliveries_congr hm.sameSymbols m'
    have hnext : (strategy.next t m).symbolData =
        desk.fleet.run t.symbolData (m.deliveries t) := hm.state
    have hemit : strategy.emit t m =
        (desk.fleet.emitted t.symbolData (m.deliveries t)).map Prod.snd := hm.calls
    rw [hcongr, hnext] at hs hc
    constructor
    · rw [Machine.run_cons, hs, List.flatMap_cons, Machine.run_append]
    · rw [Machine.emitted_cons, hc, hemit, List.flatMap_cons, Machine.emitted_append, List.map_append]

end BotTrader.Strategy
