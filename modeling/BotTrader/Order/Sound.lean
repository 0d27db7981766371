import BotTrader.Order.Passes

/-! What the state of a dialogue tells of the order and of the way that help goes back. -/

namespace BotTrader.Order

open Automata Handler

variable {F : Type} [LexicalCast F] {d d' : TOrder F} {data : String} {text? : Option String}
  {calls : List (Call F)} {field : F → BncOrder F → BncOrder F} {name : String}

omit [LexicalCast F] in
theorem TOrder.sided_type (side : String) (d : TOrder F) :
    (d.sided side).order.type = d.order.type := by
  unfold TOrder.sided
  split <;> rfl

omit [LexicalCast F] in
theorem TOrder.sided_inputMode (side : String) (d : TOrder F) :
    (d.sided side).inputMode = d.inputMode := by
  unfold TOrder.sided
  split <;> rfl

theorem ReadsPrice.frame (h : ReadsPrice data field name d d' calls) :
    d'.state = d.state ∧ d'.prevState = d.prevState ∧ d'.inputMode = d.inputMode := by
  cases h <;> exact ⟨rfl, rfl, rfl⟩

theorem ReadsPrice.type (h : ReadsPrice data field name d d' calls)
    (hf : ∀ x o, (field x o).type = o.type) : d'.order.type = d.order.type := by
  cases h with
  | kept => rfl
  | number => exact hf _ _

theorem stringToType_ne (st : String) : stringToType st ≠ .TAKE_PROFIT_LIMIT := by
  have hmap : ∀ it ∈ typeMap, it.1 ≠ .TAKE_PROFIT_LIMIT := by decide
  unfold stringToType
  cases h : typeMap.find? fun it => st = it.2 with
  | none => decide
  | some it => exact hmap it (List.mem_of_find?_eq_some h)

/-- The types that are asked for a stop price. -/
def OrderType.Stops (type : OrderType) : Prop :=
  type ≠ .MARKET ∧ type ≠ .LIMIT ∧ type ≠ .TAKE_PROFIT_LIMIT

/-- What the state tells. The state before is where help goes back to. -/
def Sound (d : TOrder F) : Prop :=
  match d.state with
  | .idle | .listReady => d.inputMode = .command
  | .side | .quantity => d.order.type ≠ .TAKE_PROFIT_LIMIT
  | .stopPrice => d.order.type.Stops
  | .price => d.order.type = .LIMIT ∨ d.order.type = .STOP_LOSS_LIMIT
  | .type => d.prevState = .inputType
  | .timeInForce => d.prevState = .price ∧ d.order.type = .LIMIT ∨
      d.prevState = .stopPrice ∧ d.order.type.Stops
  | _ => True

theorem Pass.sound (h : Pass data d text? d' calls) (hd : Sound d) : Sound d' := by
  cases h with
  | quantityError | stopPriceError | priceError | idle => exact hd
  | typeHelp hs =>
    simp only [Sound, hs] at hd
    simp [Sound, hd]
  | inputType hs => simp [Sound, hs]
  | type => simp [Sound, stringToType_ne]
  | side hs =>
    simp only [Sound, hs] at hd
    simpa [Sound, TOrder.sided_type]
  | quantityLimit hs _ ht => simp [Sound, ht]
  | quantityStop hs _ ht ht' =>
    simp only [Sound, hs] at hd
    exact ⟨ht, ht', hd⟩
  | stopPriceLimit hs hi ht =>
    simp only [Sound, hs, OrderType.Stops] at hd
    have htype := hi.type fun _ _ => rfl
    simp_all [Sound]
  | stopPrice hs hi ht =>
    simp only [Sound, hs] at hd
    have htype := hi.type fun _ _ => rfl
    simp [Sound, hi.frame, hs, htype, hd]
  | priceLimit hs hi ht => simp [Sound, hi.frame, hs, ht]
  | priceOther hs hi ht =>
    simp only [Sound, hs] at hd
    have htype := hi.type fun _ _ => rfl
    simpa [Sound, hi.frame, hs, htype]
  | timeInForceHelp hs =>
    simp only [Sound, hs] at hd
    rcases hd with ⟨hp, ht⟩ | ⟨hp, ht⟩ <;> simp [Sound, hp, ht]
  | startEmpty hs | orderResult hs | deleteEmpty hs | delReady hs => simp [Sound, hs]
  | _ => simp [Sound]

theorem Passes.sound (h : Passes data d d' calls) (hd : Sound d) : Sound d' := by
  induction h with
  | last h => exact h.sound hd
  | again h _ ih => exact ih (h.sound hd)

omit [LexicalCast F] in
theorem sound_opened {e : Event} {st : State} (he : e.opens = some st) (d : TOrder F) :
    Sound (d.opened st) := by
  cases e with
  | setData => cases he
  | _ =>
    obtain rfl := Option.some.inj he
    trivial

theorem event_sound (hl : d.symbolsList ≠ []) (hd : Sound d) (e : Event) :
    Sound (dialogue.next d e) := by
  rcases event_passes hl e with ⟨text, -, hp⟩ | ⟨st, he, hp⟩
  · exact hp.sound hd
  · exact hp.sound (sound_opened he d)

end BotTrader.Order
