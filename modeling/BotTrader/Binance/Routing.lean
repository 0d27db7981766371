import BotTrader.Binance.Client
import BotTrader.Python.Rational
import BotTrader.Strategy.Routing

/-! Which symbol a pair belongs to. The filter of the price list cuts the name of a pair at its
first `USDT`, the script deletes all of them, and both look the rest up among the symbols. For a
symbol and `USDT` both find the symbol. Other names find one too. -/

namespace BotTrader.Binance

open Automata Handler Boost Https Python Strategy

/-! ### Names of pairs -/

/-- No proper beginning of `pat` is an end of it. -/
def Borderless (pat : List Char) : Prop :=
  ∀ s, s ≠ [] → s.length < pat.length → ¬pat <+: s ++ pat

theorem borderless_usdt : Borderless "USDT".toList := by
  intro s hne hlen
  have hl : s.length < 4 := hlen
  match s, hne, hl with
  | [a], _, _ => simp
  | [a, b], _, _ => simp
  | [a, b, c], _, _ => simp

variable {pat cs : List Char}

theorem before_cons_eq_none {c : Char} : before pat (c :: cs) = none ↔
    pat.isPrefixOf (c :: cs) = false ∧ before pat cs = none := by
  rw [before]
  cases pat.isPrefixOf (c :: cs) <;> simp

/-- Where a text has no `pat`, none begins in it when `pat` is appended. -/
theorem not_prefix_append (hb : Borderless pat) (hne : cs ≠ []) (h : before pat cs = none) :
    pat.isPrefixOf (cs ++ pat) = false := by
  rw [← Bool.not_eq_true, List.isPrefixOf_iff_prefix]
  intro hp
  by_cases hl : pat.length ≤ cs.length
  · have hpre : pat <+: cs := List.prefix_of_prefix_length_le hp (List.prefix_append cs pat) hl
    cases cs with
    | nil => exact hne rfl
    | cons c cs =>
      have hn := (before_cons_eq_none.mp h).1
      rw [List.isPrefixOf_iff_prefix.mpr hpre] at hn
      cases hn
  · exact hb cs hne (by omega) hp

theorem removeFrom_of_length_le {k : ℕ} (h : cs.length ≤ k) : removeFrom pat k cs = [] := by
  induction cs generalizing k with
  | nil => rfl
  | cons c cs ih =>
    cases k with
    | zero => simp at h
    | succ k => exact ih (by simpa using h)

/-- Deleting takes `pat` off again. -/
theorem removeFrom_append (hb : Borderless pat) (hp : pat ≠ []) (h : before pat cs = none) :
    removeFrom pat 0 (cs ++ pat) = cs := by
  induction cs with
  | nil =>
    cases pat with
    | nil => exact absurd rfl hp
    | cons p ps =>
      have hself : (p :: ps).isPrefixOf (p :: ps) = true := by simp
      rw [List.nil_append, removeFrom, if_pos hself]
      exact removeFrom_of_length_le (by simp)
  | cons c cs ih =>
    have hn := not_prefix_append hb (List.cons_ne_nil c cs) h
    rw [List.cons_append] at hn ⊢
    rw [removeFrom, if_neg (by simp [hn]), ih (before_cons_eq_none.mp h).2]

/-- So does cutting at it. -/
theorem before_append (hb : Borderless pat) (hp : pat ≠ []) (h : before pat cs = none) :
    before pat (cs ++ pat) = some cs := by
  induction cs with
  | nil =>
    cases pat with
    | nil => exact absurd rfl hp
    | cons p ps =>
      have hself : (p :: ps).isPrefixOf (p :: ps) = true := by simp
      rw [List.nil_append, before, if_pos hself]
  | cons c cs ih =>
    have hn := not_prefix_append hb (List.cons_ne_nil c cs) h
    rw [List.cons_append] at hn ⊢
    rw [before, if_neg (by simp [hn]), ih (before_cons_eq_none.mp h).2]
    rfl

variable {x pair : String}

theorem before_of_not_contains (h : contains x "USDT" = false) :
    before "USDT".toList x.toList = none := by
  simpa [contains, substrBefore] using h

theorem remove_append (h : contains x "USDT" = false) : remove "USDT" (x ++ "USDT") = x := by
  rw [remove, String.toList_append,
    removeFrom_append borderless_usdt (by decide) (before_of_not_contains h), String.ofList_toList]

theorem substrBefore_append (h : contains x "USDT" = false) :
    substrBefore (x ++ "USDT") "USDT" = some x := by
  rw [substrBefore, String.toList_append,
    before_append borderless_usdt (by decide) (before_of_not_contains h), Option.map_some,
    String.ofList_toList]

/-! ### Reports and prices -/

variable {F : Type} [Runtime F] {cfg : Config} {t : Script F}

/-- The entry of the price list that an event passes on. -/
def Out.quote? : Out → Option Ptree
  | .price entry => some entry
  | _ => none

/-- An entry of the price list, through the filter and on to the script. -/
def tickerEntry (cfg : Config) (b : State) (entry : Ptree) : ScriptPy F Unit :=
  (((priceEntry cfg entry).run b).calls.filterMap Out.quote?).forM fun entry =>
    Script.onPrice (some entry.writeJson)

/-- The symbols of the script are those of the settings. -/
def Configured (cfg : Config) (t : Script F) : Prop :=
  ∀ s, (t.symbolData s).isSome = true ↔ s ∈ cfg.symbolsList

/-- The entry quotes the pair at the price `p`, also as Python reads it. -/
structure Quote (F : Type) (entry : Ptree) (pair p : String) : Prop where
  symbol : entry.get "symbol" = .ok pair
  price : entry.get "price" = .ok p
  dict : ∃ d : Dict F, entry.writeJson.loads = .obj d ∧ d.item "symbol" = .ok (.str pair) ∧
    d.item "price" = .ok (.str p)

/-- Reports and prices of the pair reach the symbol that it is the pair of, and no other. -/
structure RoutesOwn (F : Type) [Runtime F] (cfg : Config) (pair : String) : Prop where
  report : ∀ t : Script F, Configured cfg t → ∀ j r, Json.loads j = .obj r →
    Dict.item r "s" = .ok (.str pair) → ∀ x,
      ((Script.onOrderReport (some j)).run t).state.symbolData x =
        if pair = x ++ "USDT" then (t.symbolData x).map fun d => bot.next d (.orderReport r)
        else t.symbolData x
  price : ∀ t : Script F, Configured cfg t → ∀ b entry p, Quote F entry pair p → ∀ x,
    ((tickerEntry cfg b entry).run t).state.symbolData x =
      if pair = x ++ "USDT" then (t.symbolData x).map fun d => bot.next d (.price (.str p))
      else t.symbolData x

omit [Runtime F] in
theorem if_unknown {s : String} (hn : t.symbolData s = none)
    {f : SymbolData F → SymbolData F} :
    (if x = s then (t.symbolData x).map f else t.symbolData x) = t.symbolData x := by
  split
  · next h =>
    subst h
    simp [hn]
  · rfl

theorem state_onOrderReport {j : Json F} {r : Dict F} (hj : j.loads = .obj r)
    (hs : r.item "s" = .ok (.str pair)) (x : String) :
    ((Script.onOrderReport (some j)).run t).state.symbolData x =
      if x = remove "USDT" pair then (t.symbolData x).map fun d => bot.next d (.orderReport r)
      else t.symbolData x := by
  have quiet (t : Script F) : ((tryExcept .keyError
      (do
        let _ ← attempt (Dict.item r "msg")
        let _ ← attempt (Dict.item r "code")
        raise .attributeError)
      (pure ()) : ScriptPy F Unit).run t).state = t := by
    rw [state_tryExcept_quiet fun _ => rfl]
    rcases Dict.item r "msg" with y | m
    · simp [run_bind]
    · rcases Dict.item r "code" with y | c <;> simp [run_bind]
  simp only [Script.onOrderReport, hj]
  rw [state_tryExcept_quiet quiet]
  by_cases hk : (t.symbolData (remove "USDT" pair)).isSome = true
  · rw [← state_onSymbol_event]
    simp [run_bind, hs, withoutUsdt, hk, Event.handler]
  · have hn : t.symbolData (remove "USDT" pair) = none := by simpa using hk
    rw [if_unknown hn]
    simp [run_bind, hs, withoutUsdt, hn]

theorem state_onPrice {j : Json F} {d : Dict F} {p : String} (hj : j.loads = .obj d)
    (hs : d.item "symbol" = .ok (.str pair)) (hp : d.item "price" = .ok (.str p)) (x : String) :
    ((Script.onPrice (some j)).run t).state.symbolData x =
      if x = remove "USDT" pair then (t.symbolData x).map fun d => bot.next d (.price (.str p))
      else t.symbolData x := by
  by_cases hk : (t.symbolData (remove "USDT" pair)).isSome = true
  · rw [← state_onSymbol_event]
    simp [Script.onPrice, run_bind, hj, hs, hp, withoutUsdt, hk, Event.handler]
  · have hn : t.symbolData (remove "USDT" pair) = none := by simpa using hk
    have hr : ((Script.onPrice (some j)).run t).state = t := by
      simp [Script.onPrice, run_bind, hj, hs, hp, withoutUsdt, hn]
    rw [hr, if_unknown hn]

/-- What is passed on by the filter: the entry if the name up to its first `USDT` is a symbol. -/
theorem quotes_priceEntry {entry : Ptree} {p : String} (hs : entry.get "symbol" = .ok pair)
    (hp : entry.get "price" = .ok p) (b : State) :
    ((priceEntry cfg entry).run b).calls.filterMap Out.quote? =
      if ∃ s ∈ cfg.symbolsList, substrBefore pair "USDT" = some s then [entry] else [] := by
  rcases hb : substrBefore pair "USDT" with _ | s
  · simp [priceEntry, hs, hp, hb]
  · by_cases hm : s ∈ cfg.symbolsList <;> simp [priceEntry, hs, hp, hb, hm, Out.quote?]

theorem state_tickerEntry {entry : Ptree} {p : String} (h : Quote F entry pair p) (b : State)
    (x : String) :
    ((tickerEntry cfg b entry).run t).state.symbolData x =
      if (∃ s ∈ cfg.symbolsList, substrBefore pair "USDT" = some s) ∧ x = remove "USDT" pair then
        (t.symbolData x).map fun d => bot.next d (.price (.str p))
      else t.symbolData x := by
  obtain ⟨d, hj, hs, hp⟩ := h.dict
  rw [tickerEntry, quotes_priceEntry h.symbol h.price]
  by_cases hf : ∃ s ∈ cfg.symbolsList, substrBefore pair "USDT" = some s
  · rw [if_pos hf]
    simp only [hf, true_and]
    rw [← state_onPrice hj hs hp]
    have hone : (([entry].forM fun entry => Script.onPrice (some entry.writeJson)) :
        ScriptPy F Unit) = (Script.onPrice (some entry.writeJson) >>= fun _ => pure ()) := rfl
    rw [hone, state_bind_quiet fun _ _ => rfl]
  · rw [if_neg hf, if_neg (fun h => hf h.1)]
    rfl

/-! ### The right symbol -/

/-- Where a report is told to the symbol that is left of the pair, it is its symbol. -/
theorem eq_append_of_routesOwn (h : RoutesOwn F cfg pair)
    (hm : remove "USDT" pair ∈ cfg.symbolsList) : pair = remove "USDT" pair ++ "USDT" := by
  by_contra hne
  have hc : Configured cfg (Script.init (F := F) cfg.symbolsList) := by
    intro s
    by_cases hs : s ∈ cfg.symbolsList <;> simp [Script.init, hs]
  have hj : (Json.obj [("s", .str pair)] : Json F).loads = .obj [("s", .str pair)] := rfl
  have hrep := h.report _ hc _ _ hj rfl (remove "USDT" pair)
  rw [state_onOrderReport hj rfl, if_pos rfl, if_neg hne] at hrep
  -- A new symbol has no report yet.
  simp only [Script.init, hm, if_true, Option.map_some, Option.some.injEq] at hrep
  have hr : some [("s", .str pair)] = (none : Option (Dict F)) :=
    congrArg SymbolData.report hrep
  cases hr

/-- Reports and prices of a pair reach their own symbol alone if and only if the pair is what is
left of it and `USDT`, or what is left is no symbol. -/
theorem routesOwn_iff (hs : ∀ s ∈ cfg.symbolsList, contains s "USDT" = false) (pair : String) :
    RoutesOwn F cfg pair ↔
      (remove "USDT" pair ∈ cfg.symbolsList → pair = remove "USDT" pair ++ "USDT") := by
  refine ⟨eq_append_of_routesOwn, fun h => ?_⟩
  have own {x : String} (hx : x ∈ cfg.symbolsList) :
      x = remove "USDT" pair ↔ pair = x ++ "USDT" := by
    constructor
    · rintro rfl
      exact h hx
    · rintro rfl
      exact (remove_append (hs x hx)).symm
  have unknown {t : Script F} (ht : Configured cfg t) {x : String} (hx : x ∉ cfg.symbolsList) :
      t.symbolData x = none := by
    rw [← ht x] at hx
    simpa using hx
  constructor
  · intro t ht j r hj hr x
    rw [state_onOrderReport hj hr]
    by_cases hx : x ∈ cfg.symbolsList
    · simp only [own hx]
    · simp [unknown ht hx]
  · intro t ht b entry p hq x
    rw [state_tickerEntry hq]
    by_cases hx : x ∈ cfg.symbolsList
    · -- The pair of a symbol passes the filter.
      have hf : pair = x ++ "USDT" →
          ∃ s ∈ cfg.symbolsList, substrBefore pair "USDT" = some s := by
        rintro rfl
        exact ⟨x, hx, substrBefore_append (hs x hx)⟩
      simp only [own hx, and_iff_right_of_imp hf]
    · simp [unknown ht hx]

def bitcoinOnly : Config := ⟨fun _ _ => "", "", 5000, ["BTC"]⟩

theorem routesOwn_bitcoin : RoutesOwn ℚ bitcoinOnly "BTCUSDT" :=
  (routesOwn_iff (by decide) "BTCUSDT").mpr fun _ => by decide

/-- The name of another pair, which the filter passes and the script takes for bitcoin. -/
theorem not_routesOwn_twice : (∀ s ∈ bitcoinOnly.symbolsList, contains s "USDT" = false) ∧
    ¬RoutesOwn ℚ bitcoinOnly "BTCUSDTUSDT" := by
  refine ⟨by decide, fun h => ?_⟩
  have := eq_append_of_routesOwn h (by decide)
  exact absurd this (by decide)

end BotTrader.Binance
