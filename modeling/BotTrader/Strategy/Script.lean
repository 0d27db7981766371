import BotTrader.Strategy.Staging

/-! The trading script: the data of all symbols, and the methods that hand a message
of the web interface to its symbol. A message is the document that its text is. -/

namespace BotTrader.Strategy

open Automata Handler Python

/-- `Strategy` -/
structure Script (F : Type) where
  symbolData : String → Option (SymbolData F)

variable {F : Type}

/-- A method of `Strategy`. -/
abbrev ScriptPy (F : Type) := Handler (Script F) (Call F) Exc

/-- Run a method of the data of a symbol. -/
def onSymbol (symbol : String) (h : Py F Unit) : ScriptPy F Unit := fun t =>
  match t.symbolData symbol with
  | none => .raised .keyError t []
  | some d =>
    let put (d' : SymbolData F) : Script F :=
      { t with symbolData := Function.update t.symbolData symbol (some d') }
    match h.run d with
    | .done _ d' calls => .done () (put d') calls
    | .raised x d' calls => .raised x (put d') calls

/-- `j in self.symbol_data`: the symbol, if it is one of them. -/
def knownSymbol (t : Script F) (j : Json F) : Except Exc (Option String) :=
  match j with
  | .str s => .ok (if (t.symbolData s).isSome then some s else none)
  | .arr _ | .obj _ => .error .typeError
  | _ => .ok none

/-- `self.symbol_data[symbol].trade_state` goes to the web interface. -/
def Script.onGetTradeState (symbol : String) : ScriptPy F Unit := do
  match (← self).symbolData symbol with
  | some d => call (.sendToWeb d.tradeState.toJson)
  | none => pure ()

variable [Runtime F]

/-- `on_trade_data`. There is no method `send_trade_state`, by which the answer to an
unknown symbol is sent. -/
def Script.onTradeData (data : Option (Json F)) : ScriptPy F Unit := do
  match data with
  | none => pure ()
  | some j =>
    match j.loads with
    | .obj dict =>
      let _ ← attempt (Dict.item dict "a")
      let s ← attempt (Dict.item dict "s")
      match ← attempt (knownSymbol (← self) s) with
      | some symbol => onSymbol symbol (Strategy.onTradeData dict)
      | none => raise .attributeError
    | _ => raise .typeError

def Script.onTradeRun (data : Option (Json F)) : ScriptPy F Unit := do
  match data with
  | none => pure ()
  | some j =>
    match j.loads with
    | .obj dict =>
      let s ← attempt (Dict.item dict "s")
      match ← attempt (knownSymbol (← self) s) with
      | some symbol => onSymbol symbol (Strategy.onTradeRun dict)
      | none => pure ()
    | _ => raise .typeError

/-! ### What a trade-data message changes -/

/-- No symbol's staged part is changed. -/
def Script.SameStaged (t t' : Script F) : Prop :=
  ∀ symbol, (t'.symbolData symbol).map SymbolData.staged = (t.symbolData symbol).map SymbolData.staged

/-- The document is a `set` message, as Python reads it, for a known symbol, and stages
something. -/
def Script.Restages (t : Script F) (j : Json F) : Prop :=
  ∃ dict symbol d, j.loads = .obj dict ∧ Dict.item dict "a" = .ok (.str "set") ∧
    Dict.item dict "s" = .ok (.str symbol) ∧ t.symbolData symbol = some d ∧ Strategy.Restages dict d

omit [Runtime F] in
theorem state_onSymbol {t : Script F} {symbol : String} {d : SymbolData F}
    (h : t.symbolData symbol = some d) (m : Py F Unit) : ((onSymbol symbol m).run t).state =
      { t with symbolData := Function.update t.symbolData symbol (some (m.run d).state) } := by
  simp only [onSymbol, Handler.run, h]
  rcases m d with ⟨u, d', o⟩ | ⟨x, d', o⟩ <;> rfl

omit [Runtime F] in
theorem sameStaged_update {t : Script F} {symbol : String} {d d' : SymbolData F}
    (h : t.symbolData symbol = some d) :
    t.SameStaged { t with symbolData := Function.update t.symbolData symbol (some d') } ↔
      d'.staged = d.staged := by
  constructor
  · intro hs
    simpa [h] using hs symbol
  · intro hd name
    by_cases hn : name = symbol
    · subst hn
      simp [h, hd]
    · simp [Function.update_of_ne hn]

omit [Runtime F] in
theorem of_knownSymbol {t : Script F} {s : Json F} {symbol : String}
    (h : knownSymbol t s = .ok (some symbol)) : s = .str symbol ∧ ∃ d, t.symbolData symbol = some d := by
  cases s with
  | str name =>
    simp only [knownSymbol, Except.ok.injEq, Option.ite_none_right_eq_some, Option.some.injEq] at h
    obtain ⟨hd, rfl⟩ := h
    exact ⟨rfl, Option.isSome_iff_exists.mp hd⟩
  | null | bool | int | num | arr | obj => cases h

theorem sameStaged_onTradeData (t : Script F) (j : Json F) :
    t.SameStaged ((Script.onTradeData (some j)).run t).state ↔ ¬t.Restages j := by
  have same {t' : Script F} (ht : t' = t) (hn : ¬t.Restages j) : t.SameStaged t' ↔ ¬t.Restages j :=
    iff_of_true (fun _ => by rw [ht]) hn
  simp only [Script.onTradeData]
  split
  · next dict hj =>
    rcases ha : Dict.item dict "a" with x | a
    · refine same (by simp [run_bind]) fun ⟨dict', _, _, hj', ha', _⟩ => ?_
      obtain rfl := Json.obj.inj (hj.symm.trans hj')
      cases ha.symm.trans ha'
    rw [run_bind_done (run_attempt_ok a t), Outcome.after_nil]
    rcases hs : Dict.item dict "s" with x | s
    · refine same (by simp [run_bind]) fun ⟨dict', _, _, hj', _, hs', _⟩ => ?_
      obtain rfl := Json.obj.inj (hj.symm.trans hj')
      cases hs.symm.trans hs'
    rw [run_bind_done (run_attempt_ok s t), Outcome.after_nil, run_bind_done (run_self t),
      Outcome.after_nil]
    by_cases hk : ∃ symbol d, s = .str symbol ∧ t.symbolData symbol = some d
    · obtain ⟨symbol, d, rfl, hd⟩ := hk
      have hknown : knownSymbol t (.str symbol) = .ok (some symbol) := by simp [knownSymbol, hd]
      rw [hknown, run_bind_done (run_attempt_ok _ t), Outcome.after_nil, state_onSymbol hd,
        sameStaged_update hd, staged_onTradeData]
      refine not_congr ⟨fun ⟨ha', hr⟩ => ⟨dict, symbol, d, hj, ha', hs, hd, hr⟩, ?_⟩
      rintro ⟨dict', symbol', d', hj', ha', hs', hd', hr⟩
      obtain rfl := Json.obj.inj (hj.symm.trans hj')
      obtain rfl := Json.str.inj (Except.ok.inj (hs.symm.trans hs'))
      obtain rfl := Option.some.inj (hd.symm.trans hd')
      exact ⟨ha', hr⟩
    · refine same ?_ fun ⟨dict', symbol', d', hj', _, hs', hd', _⟩ => ?_
      · rcases hks : knownSymbol t s with x | _ | symbol
        · simp [run_bind]
        · simp [run_bind]
        · obtain ⟨hs, d, hd⟩ := of_knownSymbol hks
          exact absurd ⟨symbol, d, hs, hd⟩ hk
      · obtain rfl := Json.obj.inj (hj.symm.trans hj')
        exact hk ⟨symbol', d', Except.ok.inj (hs.symm.trans hs'), hd'⟩
  · next hj => exact same rfl fun ⟨dict, _, _, hd, _⟩ => hj dict hd

end BotTrader.Strategy
