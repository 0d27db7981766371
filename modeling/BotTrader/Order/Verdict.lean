import BotTrader.Order.Passes
import Mathlib.Data.List.Induction

/-! How often one dialogue submits or drops an order. An order that is ready answers every
text, and it stays ready: of the texts that come then each `$e` and `$c` is one event. -/

namespace BotTrader.Order

open Automata

variable {F : Type}

/-- `EVENT_ORD_MANUAL` -/
def Call.manual? : Call F → Option OrderResult
  | .manual result => some result
  | _ => none

/-- The events `EVENT_ORD_MANUAL` among the calls. -/
def manuals (calls : List (Call F)) : List OrderResult := calls.filterMap Call.manual?

theorem manuals_append (calls calls' : List (Call F)) :
    manuals (calls ++ calls') = manuals calls ++ manuals calls' :=
  List.filterMap_append

variable [LexicalCast F] {d d' : TOrder F} {data : String} {text? : Option String}
  {calls : List (Call F)}

/-- Only a text for an order that is ready can be such an event. -/
theorem Pass.manuals (h : Pass data d text? d' calls)
    (hs : d.state ≠ .orderResult ∨ verdict data = none) : manuals calls = [] := by
  cases h with
  | orderResult hr =>
    rw [hs.resolve_left (absurd hr)]
    rfl
  | nameMany | nameOne =>
    simp only [TOrder.namedCalls]
    split <;> rfl
  | stopPriceLimit _ hi | stopPrice _ hi | priceLimit _ hi | priceOther _ hi => cases hi <;> rfl
  | _ => rfl

/-- A further pass has an empty text, or it starts where no order is ready. -/
theorem Pass.again {text : String} (h : Pass data d (some text) d' calls) :
    d'.state ≠ .orderResult ∨ verdict text = none := by
  cases h with
  | typeHelp | timeInForceHelp => exact .inr (by decide)
  | _ => exact .inl (by simp)

theorem Passes.manuals (h : Passes data d d' calls)
    (hs : d.state ≠ .orderResult ∨ verdict data = none) : manuals calls = [] := by
  induction h with
  | last h => exact h.manuals hs
  | again h _ ih => rw [manuals_append, h.manuals hs, ih h.again, List.nil_append]

/-- A text for an order that is ready. -/
theorem ready_next (hs : d.state = .orderResult) (data : String) :
    (dialogue.next d (.setData data)).state = .orderResult ∧
      manuals (dialogue.emit d (.setData data)) = (verdict data).toList := by
  have h : Passes data d _ _ := .last (.orderResult hs)
  refine ⟨by rw [h.next, TOrder.setInputMode_state, hs], ?_⟩
  rw [h.emit]
  unfold verdict
  split_ifs <;> rfl

/-- The order that is ready is not changed any more. -/
theorem order_ready (hs : d.state = .orderResult) (data : String) :
    (dialogue.next d (.setData data)).order = d.order := by
  have h : Passes data d _ _ := .last (.orderResult hs)
  rw [h.next, TOrder.setInputMode_order]

theorem manuals_of_ne (hd : d.Defined) (hs : d.state ≠ .orderResult) (data : String) :
    manuals (dialogue.emit d (.setData data)) = [] := by
  obtain ⟨d', calls, hp, -⟩ := hd.passes data
  rw [hp.emit, hp.manuals (.inl hs)]

theorem ready_of_manual {r : OrderResult} (hd : d.Defined)
    (h : r ∈ Order.manuals (dialogue.emit d (.setData data))) : d.state = .orderResult := by
  by_contra hs
  rw [manuals_of_ne hd hs] at h
  cases h

/-- The states that the opening of a dialogue passes through. -/
def openings : List State := [.start, .delete, .list, .listSymbol, .idle]

theorem Pass.opening (h : Pass data d text? d' calls) (hs : d.state ∈ openings) :
    d'.order = d.order ∧ (text? ≠ none → d'.state ∈ openings) := by
  cases h <;> simp_all [openings]

theorem Passes.opening (h : Passes data d d' calls) (hs : d.state ∈ openings) :
    d'.order = d.order := by
  induction h with
  | last h => exact (h.opening hs).1
  | again h _ ih =>
    obtain ⟨horder, hstate⟩ := h.opening hs
    exact (ih (hstate (Option.some_ne_none _))).trans horder

/-- What opens a dialogue leaves the order as it is, and neither sends nor drops it. -/
theorem opened_next (hl : d.symbolsList ≠ []) {e : Event} (he : e.opens ≠ none) :
    (dialogue.next d e).order = d.order ∧ manuals (dialogue.emit d e) = [] := by
  rcases event_passes hl e with ⟨text, rfl, -⟩ | ⟨st, hst, hp⟩
  · exact absurd rfl he
  · have hs : st ∈ openings ∧ st ≠ .orderResult := by
      cases e <;> cases hst <;> decide
    exact ⟨hp.opening hs.1, hp.manuals (.inl hs.2)⟩

/-- The states in which no order is made. -/
def others : List State :=
  [.delete, .delName, .delSymbol, .delReady, .list, .listSymbol, .listReady, .idle]

theorem Pass.others (h : Pass data d text? d' calls) (hs : d.state ∈ others) :
    d'.state ∈ others := by
  cases h <;> simp_all [Order.others]

theorem Passes.others (h : Passes data d d' calls) (hs : d.state ∈ others) : d'.state ∈ others := by
  induction h with
  | last h => exact h.others hs
  | again h _ ih => exact ih (h.others hs)

theorem symbolsList_run (hl : d.symbolsList ≠ []) (es : List Event) :
    (dialogue.run d es).symbolsList ≠ [] :=
  Machine.run_invariant (P := fun _ _ => True) (fun d : TOrder F => d.symbolsList ≠ [])
    (fun _ e hd _ => event_symbolsList hd e ▸ hd) hl
    (Machine.along_of_forall _ (fun _ _ => trivial) _ es)

/-- An order is made only by texts that follow an opening for a new order. -/
theorem begun_run (hl : d.symbolsList ≠ []) (hs : d.state ∈ others) (es : List Event) :
    (dialogue.run d es).state ∈ others ∨
      ∃ (pre : List Event) (texts : List String), es = pre ++ .start :: texts.map .setData := by
  induction es using List.reverseRecOn with
  | nil => exact .inl hs
  | append_singleton es e ih =>
    rw [Machine.run_append]
    rcases event_passes (symbolsList_run hl es) e with ⟨text, rfl, hp⟩ | ⟨st, he, hp⟩
    · rcases ih with hs | ⟨pre, texts, rfl⟩
      · exact .inl (hp.others hs)
      · exact .inr ⟨pre, texts ++ [text], by simp⟩
    · cases e with
      | start => exact .inr ⟨es, [], rfl⟩
      | del | list =>
        cases he
        exact .inl (hp.others (by simp [Order.others]))
      | setData => cases he

/-- The events `EVENT_ORD_MANUAL` of texts. -/
def manualsOf (d : TOrder F) (texts : List String) : List OrderResult :=
  manuals (dialogue.emitted d (texts.map .setData))

theorem manualsOf_cons (d : TOrder F) (text : String) (texts : List String) :
    manualsOf d (text :: texts) = manuals (dialogue.emit d (.setData text)) ++
      manualsOf (dialogue.next d (.setData text)) texts :=
  manuals_append _ _

theorem manualsOf_ready (hs : d.state = .orderResult) (texts : List String) :
    manualsOf d texts = texts.filterMap verdict := by
  induction texts generalizing d with
  | nil => rfl
  | cons text texts ih =>
    obtain ⟨hn, hm⟩ := ready_next hs text
    rw [manualsOf_cons, hm, ih hn, List.filterMap_cons]
    cases verdict text <;> rfl

/-- After a text that submits or drops the order that was ready, none does it again. -/
def AnsweredOnce (d : TOrder F) (texts : List String) : Prop :=
  ∀ us v vs, texts = us ++ v :: vs → (dialogue.run d (us.map .setData)).state = .orderResult →
    verdict v ≠ none → ∀ w ∈ vs, verdict w = none

theorem answeredOnce_cons (d : TOrder F) (text : String) (texts : List String) :
    AnsweredOnce d (text :: texts) ↔
      (d.state = .orderResult → verdict text ≠ none → ∀ w ∈ texts, verdict w = none) ∧
        AnsweredOnce (dialogue.next d (.setData text)) texts := by
  rw [AnsweredOnce, Machine.forall_split_cons]
  rfl

theorem length_manualsOf (h : d.Defined) (texts : List String) :
    (manualsOf d texts).length ≤ 1 ↔ AnsweredOnce d texts := by
  induction texts generalizing d with
  | nil => exact iff_of_true (Nat.zero_le _) fun us v vs he => by simp at he
  | cons text texts ih =>
    rw [manualsOf_cons, answeredOnce_cons]
    obtain ⟨d', calls, hp, hd⟩ := h.passes text
    by_cases hs : d.state = .orderResult
    · obtain ⟨hn, hm⟩ := ready_next hs text
      rw [← ih (hp.next ▸ hd), hm, manualsOf_ready hn, List.length_append]
      have hnil : (texts.filterMap verdict).length = 0 ↔ ∀ w ∈ texts, verdict w = none := by
        rw [List.length_eq_zero_iff, List.filterMap_eq_nil_iff]
      rw [← hnil]
      cases verdict text with
      | none => simp
      | some r =>
        rw [Option.toList_some, List.length_singleton]
        exact ⟨fun hl => ⟨fun _ _ => by omega, by omega⟩,
          fun hl => by have := hl.1 hs (Option.some_ne_none r); omega⟩
    · rw [← ih (hp.next ▸ hd), hp.emit, hp.manuals (.inl hs), List.nil_append]
      exact ⟨fun hl => ⟨fun hr => absurd hr hs, hl⟩, And.right⟩

/-- From the beginning of a dialogue to the next. -/
theorem submitsOnce_iff (d : TOrder F) (texts : List String) :
    (manuals (dialogue.emitted d (.start :: texts.map .setData))).length ≤ 1 ↔
      AnsweredOnce (dialogue.next d .start) texts := by
  have hopened : (d.opened .start).Defined := .inr (.inl rfl)
  obtain ⟨d', calls, hp, hd⟩ := hopened.passes ""
  have hs : (d.opened .start).state ≠ .orderResult := by simp
  rw [Machine.emitted_cons, manuals_append, hp.emit_opens rfl, hp.manuals (.inl hs),
    List.nil_append, hp.next_opens rfl]
  exact length_manualsOf hd texts

/-- One symbol, and no order so far. -/
def newDialogue : TOrder ℚ := .init ⟨"", "", .BUY, .UNKNOWN, .UNK, 0, 0, 0⟩ ["BTC"]

/-- A double tap submits the order twice. -/
theorem submits_twice :
    ¬(manuals (dialogue.emitted newDialogue
      (.start :: ["first", "MARKET", "BUY", "1", "$e", "$e"].map .setData))).length ≤ 1 := by
  decide +kernel

end BotTrader.Order
