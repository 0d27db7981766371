import BotTrader.Python.Rational
import BotTrader.Strategy.Script
import BotTrader.Web.Receive

/-! Who can influence the trade. The right to set trade data is checked on the first
member `a` of a message; the script parses the printed message again, and of repeated
members it takes the last. -/

namespace BotTrader.Web

open Automata Handler Boost Strategy

variable {F : Type} [Python.Runtime F] {lib : Library} {s : Server} {k : ℕ} {msg : Bytes}
  {t : Script F}

/-- What the application does with the script at an event. The events that are not
listed ask the exchange, or read what the script knows. -/
def WebEvent.handler : WebEvent → ScriptPy F Unit
  | .tradeRun data => Script.onTradeRun (some data.writeJson)
  | .setTradeData data => Script.onTradeData (some data.writeJson)
  | .reqTradeState symbol => Script.onGetTradeState symbol
  | _ => pure ()

/-- An exception of the script is logged, and what it changed before remains. -/
def deliver (t : Script F) : Out → Script F
  | .event e => (e.handler.run t).state
  | .send _ _ => t

/-- The script after a message of `k`, when all events were delivered. -/
def afterMessage (lib : Library) (s : Server) (k : ℕ) (msg : Bytes) (t : Script F) : Script F :=
  ((onReceive lib k msg).run s).calls.foldl deliver t

/-- The message starts, stops or deletes nothing, and no symbol's staged data, FSM state or
orders change. -/
structure Powerless (lib : Library) (s : Server) (k : ℕ) (msg : Bytes) (t : Script F) : Prop where
  noRun : ∀ data, .event (.tradeRun data) ∉ ((onReceive lib k msg).run s).calls
  noDelete : ∀ n symbol, .event (.ordDelete n symbol) ∉ ((onReceive lib k msg).run s).calls
  same : t.SameStaged (afterMessage lib s k msg t)

/-- A message of trade data from an observer, which asks for them by its first `a`, and
stages something as Python reads it. -/
def Forged (lib : Library) (s : Server) (k : ℕ) (msg : Bytes) (t : Script F) : Prop :=
  0 < s.id k ∧ ∃ pt, Parses lib msg pt ∧ pt.get "c" = .ok "tradeData" ∧ pt.get "a" = .ok "get" ∧
    t.Restages pt.writeJson

theorem deliver_request {e : WebEvent} (h : e.Request) (t : Script F) : deliver t (.event e) = t := by
  cases e with
  | reqTradeState symbol =>
    simp only [deliver, WebEvent.handler, Script.onGetTradeState]
    rw [run_bind_done (run_self t), Outcome.after_nil]
    split <;> rfl
  | tradeRun | ordDelete | setTradeData => exact h.elim
  | _ => rfl

theorem foldl_deliver {os : List Out} (h : ∀ o ∈ os, ∀ t : Script F, deliver t o = t) (t : Script F) :
    os.foldl deliver t = t := by
  induction os with
  | nil => rfl
  | cons o os ih =>
    rw [List.foldl_cons, h o (by simp)]
    exact ih fun o ho => h o (by simp [ho])

/-- Messages and requests are powerless. -/
theorem powerless_of_outs (h : ∀ o ∈ ((onReceive lib k msg).run s).calls,
    (∃ j data, o = .send j data) ∨ ∃ e, o = .event e ∧ e.Request) (t : Script F) :
    Powerless lib s k msg t := by
  have no {e : WebEvent} (he : ¬e.Request) : .event e ∉ ((onReceive lib k msg).run s).calls := by
    intro hm
    rcases h _ hm with ⟨j, data, ho⟩ | ⟨e', ho, hr⟩
    · cases ho
    · exact he (Out.event.inj ho ▸ hr)
  refine ⟨fun data => no id, fun n symbol => no id, ?_⟩
  have hsame : afterMessage lib s k msg t = t := foldl_deliver (fun o ho t => by
    rcases h o ho with ⟨j, data, rfl⟩ | ⟨e, rfl, hr⟩
    · rfl
    · exact deliver_request hr t) t
  rw [hsame]
  exact fun _ => rfl

/-- The trade data of an observer go to the script when their first `a` is a `get`. -/
theorem run_tradeData {pt : Ptree} (hid : s.id k ≠ 0) (ha : pt.get "a" = .ok "get") :
    (commandDecoder k "tradeData" pt).run s = .done () s [.event (.setTradeData pt)] := by
  simp [commandDecoder, run_bind, hid, ha, post]

/-- An observer's message that passes the check on trade data. -/
def AsksData (lib : Library) (s : Server) (k : ℕ) (msg : Bytes) (pt : Ptree) : Prop :=
  0 < s.id k ∧ Parses lib msg pt ∧ pt.get "c" = .ok "tradeData" ∧ pt.get "a" = .ok "get"

theorem calls_of_asksData {pt : Ptree} (h : AsksData lib s k msg pt) :
    ((onReceive lib k msg).run s).calls = [.event (.setTradeData pt)] := by
  obtain ⟨hid, hp, hc, ha⟩ := h
  rw [run_onReceive hp hc (by decide) hid.le, run_tradeData hid.ne' ha, Outcome.calls_done]

/-- All that another message of a session without the id 0 puts out. -/
theorem outs_of_not_asksData (hid : s.id k ≠ 0) (h : ∀ pt, ¬AsksData lib s k msg pt) :
    ∀ o ∈ ((onReceive lib k msg).run s).calls,
      (∃ j data, o = .send j data) ∨ ∃ e, o = .event e ∧ e.Request := by
  have sent {o : Out} {e : String} (hr : o.Reply k e) : ∃ j data, o = .send j data := by
    obtain ⟨data, ho, -⟩ := hr
    exact ⟨k, _, ho⟩
  intro o ho
  rcases onReceive_cases lib k msg s with ⟨-, hr⟩ | ⟨pt, -, -, -, hr⟩ | ⟨pt, cmd, hp, hc, -, hpos, hr⟩
  · exact .inl (sent (hr o ho))
  · exact .inl (sent (hr o ho))
  · rw [hr] at ho
    cases (commandDecoder_keeps k cmd pt s).2 o ho with
    | reply data => exact .inl ⟨k, _, rfl⟩
    | request e he => exact .inr ⟨e, rfl, he⟩
    | tradeData hcmd ha =>
      exact absurd ⟨lt_of_le_of_ne hpos (Ne.symm hid), hp, hcmd ▸ hc, ha⟩ (h pt)
    | admin e h0 => exact absurd h0 hid

/-- The messages of a session without the id 0 are powerless, but for forged ones. -/
theorem powerless_iff (lib : Library) (s : Server) (k : ℕ) (msg : Bytes) (t : Script F)
    (hid : s.id k ≠ 0) : Powerless lib s k msg t ↔ ¬Forged lib s k msg t := by
  by_cases h : ∃ pt, AsksData lib s k msg pt
  · obtain ⟨pt, h⟩ := h
    have hcalls := calls_of_asksData h
    have hafter : afterMessage lib s k msg t =
        ((Script.onTradeData (some pt.writeJson)).run t).state := by
      rw [afterMessage, hcalls]
      rfl
    have hpow : Powerless lib s k msg t ↔ t.SameStaged (afterMessage lib s k msg t) :=
      ⟨Powerless.same, fun hs => ⟨by simp [hcalls], by simp [hcalls], hs⟩⟩
    rw [hpow, hafter, sameStaged_onTradeData]
    refine not_congr ⟨fun hr => ⟨h.1, pt, h.2.1, h.2.2.1, h.2.2.2, hr⟩, ?_⟩
    rintro ⟨-, pt', hp', -, -, hr⟩
    rwa [parses_unique h.2.1 hp']
  · refine iff_of_true (powerless_of_outs (outs_of_not_asksData hid fun pt hp => h ⟨pt, hp⟩) t) ?_
    rintro ⟨hpos, pt, hp, hc, ha, -⟩
    exact h ⟨pt, hpos, hp, hc, ha⟩

/-! ### A message with two members `a` -/

/-- An observer asks for the trade data. -/
def askedTree : Ptree := .node [("c", .leaf "tradeData"), ("a", .leaf "get"), ("s", .leaf "BTC"),
  ("B", .node [("t", .leaf "5")])]

def askedText : String :=
  "\x7b\"c\":\"tradeData\",\"a\":\"get\",\"s\":\"BTC\",\"B\":\x7b\"t\":\"5\"\x7d\x7d"

/-- The same with another operation behind the first. -/
def forgedTree : Ptree := .node [("c", .leaf "tradeData"), ("a", .leaf "get"), ("a", .leaf "set"),
  ("s", .leaf "BTC"), ("B", .node [("t", .leaf "5")])]

def forgedText : String :=
  "\x7b\"c\":\"tradeData\",\"a\":\"get\",\"a\":\"set\",\"s\":\"BTC\",\"B\":\x7b\"t\":\"5\"\x7d\x7d"

/-- A parser that knows these messages only. -/
def observerLibrary : Library where
  readJson text :=
    if text = ascii askedText then some askedTree
    else if text = ascii forgedText then some forgedTree
    else none
  double _ := none

/-- The same messages, encoded. -/
def askedMessage : Bytes :=
  ascii "eyJjIjoidHJhZGVEYXRhIiwiYSI6ImdldCIsInMiOiJCVEMiLCJCIjp7InQiOiI1In19"

def forgedMessage : Bytes :=
  ascii "eyJjIjoidHJhZGVEYXRhIiwiYSI6ImdldCIsImEiOiJzZXQiLCJzIjoiQlRDIiwiQiI6eyJ0IjoiNSJ9fQ=="

/-- The session 0 is an observer. -/
def observed : Server := (freshServer .IntfWeb).setId 0 2

/-- A script with one symbol, for which nothing is staged. -/
def oneSymbol : Script ℚ where
  symbolData symbol := if symbol = "BTC" then some (SymbolData.init "BTC") else none

theorem parses_asked : Parses observerLibrary askedMessage askedTree :=
  ⟨ascii askedText, by decide +kernel, rfl⟩

/-- The script reads the message, and stages nothing. -/
theorem powerless_asked : Powerless observerLibrary observed 0 askedMessage oneSymbol := by
  refine (powerless_iff observerLibrary observed 0 askedMessage oneSymbol (by decide)).mpr ?_
  rintro ⟨-, pt, hp, -, -, dict, symbol, d, hl, ha, -⟩
  rw [parses_unique hp parses_asked] at hl
  obtain rfl := Python.Json.obj.inj hl
  have hget : (Python.Json.str "get" : Python.Json ℚ) = .str "set" := Except.ok.inj ha
  exact absurd (Python.Json.str.inj hget) (by decide)

/-- The observer stages a trigger. -/
theorem forged_not_powerless : ¬∀ (lib : Library) (s : Server) (k : ℕ) (msg : Bytes)
    (t : Script ℚ), s.id k ≠ 0 → Powerless lib s k msg t := by
  intro h
  have hs := (h observerLibrary observed 0 forgedMessage oneSymbol (by decide)).same "BTC"
  have hbuy := congrArg (Option.map fun p => p.1 0) hs
  exact absurd hbuy (by decide +kernel)

end BotTrader.Web
