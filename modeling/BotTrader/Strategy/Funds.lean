import Mathlib.Data.List.Nodup
import BotTrader.Python.Rational
import BotTrader.Strategy.Routing
import BotTrader.Strategy.Steady

/-! The funds of the symbols and the sides that they can start with. The exchange tells the
funds in two formats; an asset that is a symbol sets the balance of this symbol, and USDT sets
that of all symbols. The part of a symbol that a trade runs on has no share in this, so the
funds are kept apart from it. -/

namespace BotTrader.Strategy

open Automata Handler Python

variable {F : Type}

/-- Sums and strict comparisons of floats, which the trade itself does without. -/
class Sums (F : Type) where
  add : F → F → F
  /-- `x < y` -/
  lt : F → F → Bool

instance : Sums ℚ where
  add x y := x + y
  lt x y := decide (x < y)

structure Balance (F : Type) where
  free : F
  locked : F

/-- What a symbol knows of the funds. -/
structure Funds (F : Type) where
  balance : Balance F
  balanceUsdt : Balance F
  tCommission : F
  mCommission : F

/-- The funds of the symbols, which are listed in the order in which they were added. -/
structure Wallet (F : Type) where
  symbols : List String
  funds : String → Funds F

def Wallet.modify (s : String) (f : Funds F → Funds F) (w : Wallet F) : Wallet F :=
  { w with funds := Function.update w.funds s (f (w.funds s)) }

/-- A method of the strategy that changes funds. -/
abbrev WalletPy (F : Type) := Handler (Wallet F) Empty Exc

/-- The keys of a message about funds. -/
structure Format where
  list : String
  asset : String
  taker : String
  maker : String
  free : String
  locked : String

/-- The answer of the REST interface. -/
def accountFormat : Format :=
  ⟨"balances", "asset", "takerCommission", "makerCommission", "free", "locked"⟩

/-- The message of the user data stream. -/
def balanceFormat : Format := ⟨"B", "a", "t", "m", "f", "l"⟩

section Methods

variable [Runtime F]

/-- `Balance()` and the commissions of `SymbolData(symbol)` -/
def Funds.init : Funds F :=
  let zero : F := Runtime.literal 0 0
  ⟨⟨zero, zero⟩, ⟨zero, zero⟩, zero, zero⟩

def Wallet.init (symbols : List String) : Wallet F := ⟨symbols, fun _ => Funds.init⟩

/-- `float(j[key])` -/
def floatAt (j : Json F) (key : String) : Except Exc F := do (← j.item key).toFloat

/-- `float(j[key]) / 100` -/
def percentAt (j : Json F) (key : String) : Except Exc F := do
  return Runtime.div (← floatAt j key) (Runtime.literal 100 0)

/-- An asset that is a symbol. -/
def tellSymbol (fmt : Format) (msg entry : Json F) (s : String) : WalletPy F Unit := do
  let t ← attempt (percentAt msg fmt.taker)
  update (Wallet.modify s fun f => { f with tCommission := t })
  let m ← attempt (percentAt msg fmt.maker)
  update (Wallet.modify s fun f => { f with mCommission := m })
  let free ← attempt (floatAt entry fmt.free)
  update (Wallet.modify s fun f => { f with balance := { f.balance with free := free } })
  let locked ← attempt (floatAt entry fmt.locked)
  update (Wallet.modify s fun f => { f with balance := { f.balance with locked := locked } })

/-- USDT for one of the symbols. -/
def tellUsdt (fmt : Format) (entry : Json F) (s : String) : WalletPy F Unit := do
  let free ← attempt (floatAt entry fmt.free)
  update (Wallet.modify s fun f => { f with balanceUsdt := { f.balanceUsdt with free := free } })
  let locked ← attempt (floatAt entry fmt.locked)
  update (Wallet.modify s fun f =>
    { f with balanceUsdt := { f.balanceUsdt with locked := locked } })

/-- One entry of the list. The numbers of USDT are converted once more for the log. -/
def tellEntry (fmt : Format) (msg entry : Json F) : WalletPy F Unit := do
  match ← attempt (entry.item fmt.asset) with
  | .str s =>
    if s ∈ (← self).symbols then
      tellSymbol fmt msg entry s
    else if s = "USDT" then
      (← self).symbols.forM (tellUsdt fmt entry)
      let _ ← attempt (floatAt entry fmt.free)
      let _ ← attempt (floatAt entry fmt.locked)
  | .arr _ | .obj _ => raise .typeError
  | _ => pure ()

/-- A message about funds. -/
def onFunds (fmt : Format) (data : Option (Json F)) : WalletPy F Unit := do
  match data with
  | none => pure ()
  | some j =>
    tryExcept .keyError
      (do
        let entries ← attempt (do (← j.loads.item fmt.list).iter)
        entries.forM (tellEntry fmt j.loads))
      (pure ())

def onAccount (acc : Option (Json F)) : WalletPy F Unit := onFunds accountFormat acc

def onBalance (bal : Option (Json F)) : WalletPy F Unit := onFunds balanceFormat bal

inductive FundsMessage (F : Type) where
  | account (acc : Option (Json F))
  | balance (bal : Option (Json F))

def FundsMessage.handler : FundsMessage F → WalletPy F Unit
  | .account acc => onAccount acc
  | .balance bal => onBalance bal

/-- The funds under messages. -/
def wallet : Machine (Wallet F) (FundsMessage F) Empty where
  next w m := (m.handler.run w).state
  emit w m := (m.handler.run w).calls

variable [Sums F]

/-- The locked part of what is there to buy with is that of the symbol's own asset. -/
def SymbolData.getTradeSteps (d : SymbolData F) (f : Funds F) : List String :=
  let qSymb := Sums.add f.balance.free f.balance.locked
  let qUsdt := Sums.add f.balanceUsdt.free f.balance.locked
  (if Sums.lt (Runtime.literal 0 0) (d.tempPrice 0) &&
      Runtime.le d.tempQuantity (Runtime.div qUsdt (d.tempPrice 0)) then ["BUY"] else []) ++
    if Runtime.le d.tempQuantity qSymb then ["SELL"] else []

/-- `Strategy.get_trade_steps` -/
def Script.getTradeSteps (t : Script F) (w : Wallet F) (symbol : String) : Option (List String) :=
  (t.symbolData symbol).map fun d => d.getTradeSteps (w.funds symbol)

/-! ### What the messages tell -/

/-- Assets and their balances. -/
abbrev Listing (F : Type) := List (String × Balance F)

/-- An entry tells the balance of an asset. -/
structure TellsOf (fmt : Format) (entry : Json F) (ab : String × Balance F) : Prop where
  asset : entry.item fmt.asset = .ok (.str ab.1)
  free : floatAt entry fmt.free = .ok ab.2.free
  locked : floatAt entry fmt.locked = .ok ab.2.locked

/-- A well-formed message, which lists every asset once at most. -/
structure Lists (fmt : Format) (j : Json F) (l : Listing F) : Prop where
  taker : ∃ x, percentAt j.loads fmt.taker = .ok x
  maker : ∃ x, percentAt j.loads fmt.maker = .ok x
  entries : ∃ entries, (do (← j.loads.item fmt.list).iter) = .ok entries ∧
    List.Forall₂ (TellsOf fmt) entries l
  once : (l.map Prod.fst).Nodup

def FundsMessage.Lists : FundsMessage F → Listing F → Prop
  | .account (some j), l => Strategy.Lists accountFormat j l
  | .balance (some j), l => Strategy.Lists balanceFormat j l
  | _, _ => False

omit [Runtime F] [Sums F] in
/-- The balance in the last listing that has the asset. -/
def lastListed : List (Listing F) → String → Option (Balance F)
  | [], _ => none
  | l :: ls, asset => (lastListed ls asset).or (l.lookup asset)

/-- What is told of an asset that the wallet knows, or of USDT. -/
structure Told (b : String → Option (Balance F)) (w w' : Wallet F) : Prop where
  symbols : w'.symbols = w.symbols
  balance : ∀ s ∈ w.symbols, (w'.funds s).balance = (b s).getD (w.funds s).balance
  balanceUsdt : ∀ s ∈ w.symbols, (w'.funds s).balanceUsdt =
    if "USDT" ∈ w.symbols then (w.funds s).balanceUsdt
    else (b "USDT").getD (w.funds s).balanceUsdt

variable {fmt : Format} {msg entry : Json F} {s : String} {ab : String × Balance F}
  {w w' w'' : Wallet F}

omit [Runtime F] [Sums F] in
theorem told_trans {b b' : String → Option (Balance F)} (h : Told b w w') (h' : Told b' w' w'') :
    Told (fun s => (b' s).or (b s)) w w'' where
  symbols := h'.symbols.trans h.symbols
  balance s hs := by
    rw [h'.balance s (h.symbols ▸ hs), h.balance s hs]
    cases b' s <;> rfl
  balanceUsdt s hs := by
    rw [h'.balanceUsdt s (h.symbols ▸ hs), h.balanceUsdt s hs, h.symbols]
    split
    · rfl
    · cases b' "USDT" <;> rfl

omit [Sums F] in
theorem run_tellSymbol (ht : ∃ x, percentAt msg fmt.taker = .ok x)
    (hm : ∃ x, percentAt msg fmt.maker = .ok x) (h : TellsOf fmt entry ab) (s : String)
    (w : Wallet F) :
    ∃ t m, (tellSymbol fmt msg entry s).run w =
      .done () (w.modify s fun f => ⟨ab.2, f.balanceUsdt, t, m⟩) [] := by
  obtain ⟨t, ht⟩ := ht
  obtain ⟨m, hm⟩ := hm
  refine ⟨t, m, ?_⟩
  simp [tellSymbol, run_bind, ht, hm, h.free, h.locked, Wallet.modify]

omit [Sums F] in
theorem run_tellUsdt (h : TellsOf fmt entry ab) (s : String) (w : Wallet F) :
    (tellUsdt fmt entry s).run w = .done () (w.modify s fun f => { f with balanceUsdt := ab.2 }) [] := by
  simp [tellUsdt, run_bind, h.free, h.locked, Wallet.modify]

omit [Sums F] in
/-- A loop over symbols is one change of the funds. -/
theorem run_forM_tellUsdt (h : TellsOf fmt entry ab) (symbols : List String) (w : Wallet F) :
    (symbols.forM (tellUsdt fmt entry)).run w = .done () { w with funds := fun s =>
      if s ∈ symbols then { w.funds s with balanceUsdt := ab.2 } else w.funds s } [] := by
  induction symbols generalizing w with
  | nil => rfl
  | cons a symbols ih =>
    show (tellUsdt fmt entry a >>= fun _ => symbols.forM (tellUsdt fmt entry)).run w = _
    rw [run_bind_done (run_tellUsdt h a w), ih, Outcome.after_nil]
    congr 2
    funext s
    by_cases hs : s ∈ symbols <;> by_cases ha : s = a <;>
      simp [Wallet.modify, hs, ha]

omit [Runtime F] [Sums F] in
/-- What one entry tells. -/
def only (ab : String × Balance F) (a : String) : Option (Balance F) :=
  if a = ab.1 then some ab.2 else none

omit [Runtime F] [Sums F] in
theorem told_modify (w : Wallet F) (hs : ab.1 ∈ w.symbols) (t m : F) :
    Told (only ab) w (w.modify ab.1 fun f => ⟨ab.2, f.balanceUsdt, t, m⟩) where
  symbols := rfl
  balance s _ := by by_cases he : s = ab.1 <;> simp [only, Wallet.modify, he]
  balanceUsdt s _ := by
    have hu : "USDT" ∉ w.symbols → "USDT" ≠ ab.1 := fun hn he => hn (he ▸ hs)
    by_cases he : s = ab.1 <;> by_cases hn : "USDT" ∈ w.symbols <;>
      simp [only, Wallet.modify, he, hn, hu]

omit [Runtime F] [Sums F] in
theorem told_of_not_mem (w : Wallet F) (hs : ab.1 ∉ w.symbols) (hu : ab.1 ≠ "USDT") :
    Told (only ab) w w where
  symbols := rfl
  balance s hm := by
    have he : s ≠ ab.1 := fun he => hs (he ▸ hm)
    simp [only, he]
  balanceUsdt s _ := by simp [only, hu.symm]

omit [Runtime F] [Sums F] in
theorem told_usdt (w : Wallet F) (hs : ab.1 ∉ w.symbols) (hu : ab.1 = "USDT") :
    Told (only ab) w { w with funds := fun s =>
      if s ∈ w.symbols then { w.funds s with balanceUsdt := ab.2 } else w.funds s } where
  symbols := rfl
  balance s hm := by
    have he : s ≠ ab.1 := fun he => hs (he ▸ hm)
    simp [only, he, hm]
  balanceUsdt s hm := by simp [only, hm, hu ▸ hs, hu]

omit [Sums F] in
/-- An entry of the list is a symbol, or USDT, or of no interest. -/
theorem run_tellEntry (ht : ∃ x, percentAt msg fmt.taker = .ok x)
    (hm : ∃ x, percentAt msg fmt.maker = .ok x) (h : TellsOf fmt entry ab) (w : Wallet F) :
    ∃ w', (tellEntry fmt msg entry).run w = .done () w' [] ∧ Told (only ab) w w' := by
  by_cases hs : ab.1 ∈ w.symbols
  · obtain ⟨t, m, hr⟩ := run_tellSymbol ht hm h ab.1 w
    refine ⟨_, ?_, told_modify w hs t m⟩
    simp [tellEntry, run_bind, h.asset, hs, hr]
  by_cases hu : ab.1 = "USDT"
  · refine ⟨_, ?_, told_usdt w hs hu⟩
    have hn : "USDT" ∉ w.symbols := hu ▸ hs
    have hl := run_forM_tellUsdt h w.symbols w
    simp only [List.forM_eq_forM] at hl
    simp [tellEntry, run_bind, h.asset, hn, hu, hl, h.free, h.locked]
  · refine ⟨w, ?_, told_of_not_mem w hs hu⟩
    simp [tellEntry, run_bind, h.asset, hs, hu]

omit [Sums F] in
/-- Every asset is listed once, so that later entries change nothing of an earlier one. -/
theorem run_forM_tellEntry (ht : ∃ x, percentAt msg fmt.taker = .ok x)
    (hm : ∃ x, percentAt msg fmt.maker = .ok x) {entries : List (Json F)} {l : Listing F}
    (h : List.Forall₂ (TellsOf fmt) entries l) (hn : (l.map Prod.fst).Nodup) (w : Wallet F) :
    ∃ w', (entries.forM (tellEntry fmt msg)).run w = .done () w' [] ∧
      Told (fun a => l.lookup a) w w' := by
  induction h generalizing w with
  | nil =>
    refine ⟨w, rfl, rfl, fun s _ => rfl, fun s _ => ?_⟩
    split <;> rfl
  | @cons entry ab entries l he _ ih =>
    obtain ⟨hab, hn⟩ := List.nodup_cons.mp hn
    obtain ⟨w₁, hr₁, ht₁⟩ := run_tellEntry ht hm he w
    obtain ⟨w₂, hr₂, ht₂⟩ := ih hn w₁
    refine ⟨w₂, ?_, ?_⟩
    · show (tellEntry fmt msg entry >>= fun _ => entries.forM (tellEntry fmt msg)).run w = _
      rw [run_bind_done hr₁, hr₂, Outcome.after_nil]
    · have hlookup : (fun a => (ab :: l).lookup a) = fun a => (l.lookup a).or (only ab a) := by
        funext a
        rw [lookup_cons_eq, only]
        by_cases ha : a = ab.1
        · have : l.lookup a = none := by
            rw [List.lookup_eq_none_iff]
            intro kb hkb
            have hk : kb.1 ≠ ab.1 := fun hk => hab (hk ▸ List.mem_map_of_mem hkb)
            simpa [ha] using hk.symm
          simp only [if_pos ha, this, Option.none_or]
        · simp only [if_neg ha, Option.or_none]
      rw [hlookup]
      exact told_trans ht₁ ht₂

omit [Sums F] in
theorem run_onFunds {j : Json F} {l : Listing F} (h : Lists fmt j l) (w : Wallet F) :
    ∃ w', (onFunds fmt (some j)).run w = .done () w' [] ∧ Told (fun a => l.lookup a) w w' := by
  obtain ⟨entries, he, hl⟩ := h.entries
  obtain ⟨w', hr, ht⟩ := run_forM_tellEntry h.taker h.maker hl h.once w
  refine ⟨w', ?_, ht⟩
  simp only [List.forM_eq_forM] at hr
  simp only [onFunds, run_tryExcept, run_bind, he, run_attempt_ok, List.forM_eq_forM, hr,
    Outcome.after_done, List.append_nil]

omit [Sums F] in
theorem run_handler {m : FundsMessage F} {l : Listing F} (h : m.Lists l) (w : Wallet F) :
    ∃ w', m.handler.run w = .done () w' [] ∧ Told (fun a => l.lookup a) w w' := by
  cases m with
  | account acc =>
    cases acc with
    | none => exact h.elim
    | some j => exact run_onFunds h w
  | balance bal =>
    cases bal with
    | none => exact h.elim
    | some j => exact run_onFunds h w

omit [Sums F] in
/-- After messages the funds are those of the last listings. -/
theorem run_told {ms : List (FundsMessage F)} {ls : List (Listing F)}
    (h : List.Forall₂ FundsMessage.Lists ms ls) (w : Wallet F) :
    Told (lastListed ls) w (wallet.run w ms) := by
  induction h generalizing w with
  | nil =>
    refine ⟨rfl, fun s _ => rfl, fun s _ => ?_⟩
    split <;> rfl
  | @cons m l ms ls hm _ ih =>
    obtain ⟨w', hr, ht⟩ := run_handler hm w
    have hnext : wallet.next w m = w' := by simp only [wallet, hr, Outcome.state_done]
    rw [Machine.run_cons, hnext]
    exact told_trans ht (ih w')

end Methods

/-! ### The sides that are offered -/

/-- What an asset had when it was listed last, nothing if it never was. -/
def toldBalance (ls : List (Listing ℚ)) (asset : String) : Balance ℚ :=
  (lastListed ls asset).getD ⟨0, 0⟩

/-- The sides match the funds. -/
structure Matches (ls : List (Listing ℚ)) (s : String) (d : SymbolData ℚ) (steps : List String) :
    Prop where
  buy : "BUY" ∈ steps ↔ 0 < d.tempPrice 0 ∧ d.tempQuantity * d.tempPrice 0 ≤
    (toldBalance ls "USDT").free + (toldBalance ls "USDT").locked
  sell : "SELL" ∈ steps ↔ d.tempQuantity ≤ (toldBalance ls s).free + (toldBalance ls s).locked

/-- What a purchase is compared with. A symbol of the name USDT takes what is told of USDT. -/
def counted (symbols : List String) (ls : List (Listing ℚ)) (s : String) : ℚ :=
  (if "USDT" ∈ symbols then 0 else (toldBalance ls "USDT").free) + (toldBalance ls s).locked

variable {symbols : List String} {s : String} {d : SymbolData ℚ} {f : Funds ℚ}

theorem mem_getTradeSteps_buy : "BUY" ∈ d.getTradeSteps f ↔
    0 < d.tempPrice 0 ∧ d.tempQuantity * d.tempPrice 0 ≤ f.balanceUsdt.free + f.balance.locked := by
  have hzero : (Runtime.literal 0 0 : ℚ) = 0 := by simp [Runtime.literal]
  have hdiv : 0 < d.tempPrice 0 →
      (d.tempQuantity ≤ (f.balanceUsdt.free + f.balance.locked) / d.tempPrice 0 ↔
        d.tempQuantity * d.tempPrice 0 ≤ f.balanceUsdt.free + f.balance.locked) :=
    fun hp => le_div_iff₀ hp
  have hsell : "BUY" ∉ if Runtime.le d.tempQuantity (Sums.add f.balance.free f.balance.locked)
      then ["SELL"] else [] := by
    split <;> simp
  simp only [SymbolData.getTradeSteps, List.mem_append, hsell, or_false, hzero]
  simp only [Sums.lt, Sums.add, Runtime.le, Runtime.div, Bool.and_eq_true, decide_eq_true_eq]
  rw [← and_congr_right hdiv]
  split
  · next h => exact iff_of_true (List.mem_singleton_self _) h
  · next h => exact iff_of_false List.not_mem_nil h

theorem mem_getTradeSteps_sell :
    "SELL" ∈ d.getTradeSteps f ↔ d.tempQuantity ≤ f.balance.free + f.balance.locked := by
  simp only [SymbolData.getTradeSteps, List.mem_append]
  simp only [Sums.add, Runtime.le, decide_eq_true_eq]
  rw [or_iff_right (by split <;> simp)]
  split
  · next h => exact iff_of_true (List.mem_singleton_self _) h
  · next h => exact iff_of_false List.not_mem_nil h

/-- The funds of a symbol after messages. -/
theorem funds_run {ms : List (FundsMessage ℚ)} {ls : List (Listing ℚ)}
    (h : List.Forall₂ FundsMessage.Lists ms ls) (hs : s ∈ symbols) :
    ((wallet.run (Wallet.init symbols) ms).funds s).balance = toldBalance ls s ∧
      ((wallet.run (Wallet.init symbols) ms).funds s).balanceUsdt =
        if "USDT" ∈ symbols then ⟨0, 0⟩ else toldBalance ls "USDT" := by
  have ht := run_told h (Wallet.init symbols)
  have hinit : (Wallet.init symbols : Wallet ℚ).funds s = ⟨⟨0, 0⟩, ⟨0, 0⟩, 0, 0⟩ := by
    simp [Wallet.init, Funds.init, Runtime.literal]
  have hb := ht.balance s hs
  have hu := ht.balanceUsdt s hs
  rw [hinit] at hb hu
  exact ⟨hb, hu⟩

/-- A purchase is offered as it should be if the amount compared falls on the same side of its
cost as what there is of USDT. -/
theorem matches_iff {ms : List (FundsMessage ℚ)} {ls : List (Listing ℚ)}
    (h : List.Forall₂ FundsMessage.Lists ms ls) (hs : s ∈ symbols) {t : Script ℚ}
    (ht : t.symbolData s = some d) :
    (∃ steps, t.getTradeSteps (wallet.run (Wallet.init symbols) ms) s = some steps ∧
      Matches ls s d steps) ↔
    d.tempPrice 0 ≤ 0 ∨
      d.tempQuantity * d.tempPrice 0 ≤ min (counted symbols ls s)
        ((toldBalance ls "USDT").free + (toldBalance ls "USDT").locked) ∨
      max (counted symbols ls s) ((toldBalance ls "USDT").free + (toldBalance ls "USDT").locked) <
        d.tempQuantity * d.tempPrice 0 := by
  obtain ⟨hb, hu⟩ := funds_run h hs
  set w := wallet.run (Wallet.init symbols) ms
  have hfree : (w.funds s).balanceUsdt.free + (w.funds s).balance.locked =
      counted symbols ls s := by
    rw [hb, hu, counted]
    split <;> rfl
  have hsteps : t.getTradeSteps w s = some (d.getTradeSteps (w.funds s)) := by
    rw [Script.getTradeSteps, ht, Option.map_some]
  have hmatches : Matches ls s d (d.getTradeSteps (w.funds s)) ↔
      (0 < d.tempPrice 0 ∧ d.tempQuantity * d.tempPrice 0 ≤ counted symbols ls s ↔
        0 < d.tempPrice 0 ∧ d.tempQuantity * d.tempPrice 0 ≤
          (toldBalance ls "USDT").free + (toldBalance ls "USDT").locked) := by
    rw [← hfree, ← mem_getTradeSteps_buy]
    refine ⟨fun h => h.buy, fun h => ⟨h, ?_⟩⟩
    rw [mem_getTradeSteps_sell, hb]
  rw [hsteps]
  simp only [Option.some.injEq, exists_eq_left', hmatches, le_min_iff, max_lt_iff]
  grind

/-- Ten USDT that are free and five that are locked. -/
def usdtAccount : Json ℚ :=
  .obj [("takerCommission", .int 10), ("makerCommission", .int 10), ("balances",
    .arr [.obj [("asset", .str "USDT"), ("free", .str "10.0"), ("locked", .str "5.0")]])]

/-- One symbol, with a purchase staged at the price of 10. -/
def staged (quantity : ℚ) : SymbolData ℚ :=
  { SymbolData.init "BTC" with tempPrice := fun _ => 10, tempQuantity := quantity }

def oneSymbol (quantity : ℚ) : Script ℚ :=
  ⟨fun s => if s = "BTC" then some (staged quantity) else none⟩

theorem lists_usdtAccount : List.Forall₂ FundsMessage.Lists [.account (some usdtAccount)]
    [[("USDT", ⟨10, 5⟩)]] := by
  have he : (do (← usdtAccount.loads.item "balances").iter : Except Exc (List (Json ℚ))) =
      .ok [.obj [("asset", .str "USDT"), ("free", .str "10.0"), ("locked", .str "5.0")]] := rfl
  refine .cons ⟨⟨1 / 10, ?_⟩, ⟨1 / 10, ?_⟩, ⟨_, he, .cons ⟨rfl, ?_, ?_⟩ .nil⟩, ?_⟩ .nil
  all_goals decide +kernel

theorem matches_oneBitcoin :
    ∃ steps, (oneSymbol 1).getTradeSteps
        (wallet.run (Wallet.init ["BTC"]) [.account (some usdtAccount)]) "BTC" = some steps ∧
      Matches [[("USDT", ⟨10, 5⟩)]] "BTC" (staged 1) steps :=
  (matches_iff lists_usdtAccount (List.mem_singleton_self _) (t := oneSymbol 1) rfl).mpr
    (.inr (.inl (by decide +kernel)))

/-- The locked five are not counted. -/
theorem not_matches_allUsdt :
    List.Forall₂ FundsMessage.Lists [.account (some usdtAccount)] [[("USDT", ⟨10, 5⟩)]] ∧
    ¬∃ steps, (oneSymbol (3 / 2)).getTradeSteps
        (wallet.run (Wallet.init ["BTC"]) [.account (some usdtAccount)]) "BTC" = some steps ∧
      Matches [[("USDT", ⟨10, 5⟩)]] "BTC" (staged (3 / 2)) steps := by
  refine ⟨lists_usdtAccount, ?_⟩
  rintro ⟨steps, hs, hm⟩
  have hnone : (oneSymbol (3 / 2)).getTradeSteps
      (wallet.run (Wallet.init ["BTC"]) [.account (some usdtAccount)]) "BTC" = some [] := by
    decide +kernel
  obtain rfl : [] = steps := Option.some.inj (hnone.symm.trans hs)
  exact List.not_mem_nil (hm.buy.mpr (by decide +kernel))

end BotTrader.Strategy
