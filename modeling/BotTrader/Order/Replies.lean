import BotTrader.Order.Sound
import BotTrader.Order.Verdict

/-! Whether an order is what its user entered. Help repeats a prompt and has the next state that
looks for it read nothing. After help with the type this is the state of the side, so the side
that is given then is dropped, and the order keeps the one that it had. -/

namespace BotTrader.Order

open Automata

variable {F : Type}

/-- The fields of an order that the user is asked for. -/
inductive Field where
  | newClientOrderId | symbol | type | side | quantity | price | stopPrice | timeInForce
  deriving DecidableEq, Repr

/-- The state in which a text answers the prompt of the field. -/
def Field.prompt : Field → State
  | .newClientOrderId => .name
  | .symbol => .symbol
  | .type => .type
  | .side => .side
  | .quantity => .quantity
  | .price => .price
  | .stopPrice => .stopPrice
  | .timeInForce => .timeInForce

/-- The fields that `Binance::create_order` puts into its request. It makes none of an order of
an unknown type. -/
def createOrderFields : OrderType → List Field
  | .LIMIT => [.symbol, .side, .type, .timeInForce, .price, .quantity, .newClientOrderId]
  | .MARKET => [.symbol, .side, .type, .quantity, .newClientOrderId]
  | .STOP_LOSS | .TAKE_PROFIT =>
    [.symbol, .side, .type, .quantity, .stopPrice, .newClientOrderId]
  | .STOP_LOSS_LIMIT | .TAKE_PROFIT_LIMIT =>
    [.symbol, .side, .type, .timeInForce, .quantity, .price, .stopPrice, .newClientOrderId]
  | .LIMIT_MAKER => [.symbol, .side, .type, .price, .quantity, .newClientOrderId]
  | .UNKNOWN => []

/-- What every order is made of, and a limit order besides. -/
def basicFields : OrderType → List Field
  | .LIMIT => [.newClientOrderId, .symbol, .type, .side, .quantity, .price, .timeInForce]
  | _ => [.newClientOrderId, .symbol, .type, .side, .quantity]

section Replies

variable [LexicalCast F]

/-- The field has the value of the reply. -/
def Field.Says (o : BncOrder F) (reply : String) : Field → Prop
  | .newClientOrderId => o.newClientOrderId = reply
  | .symbol => o.symbol = firstArg reply ++ "USDT"
  | .type => o.type = stringToType (firstArg reply)
  | .side => o.side = stringToSide (firstArg reply)
  | .quantity => LexicalCast.lexicalCast reply = some o.quantity
  | .price => LexicalCast.lexicalCast reply = some o.price
  | .stopPrice => LexicalCast.lexicalCast reply = some o.stopPrice
  | .timeInForce => o.timeInForce = stringToTif (firstArg reply)

variable (F) in
/-- A reply that is a value of the field, neither a request for help nor a text for a number. -/
def Field.accepts (reply : String) : Field → Bool
  | .type | .timeInForce => firstArg reply ≠ "$h"
  | .quantity | .price | .stopPrice => (LexicalCast.lexicalCast reply : Option F).isSome
  | _ => true

/-- The last replies that were accepted, and whether there was help with the type. -/
@[ext]
structure Talk where
  replies : Field → Option String := fun _ => none
  helped : Bool := false

/-- A text in the state of a dialogue. -/
def Talk.hear (k : Talk) (d : TOrder F) (text : String) : Talk where
  replies f := if d.state = f.prompt ∧ f.accepts F text then some text else k.replies f
  helped := k.helped || (d.state = .type && firstArg text = "$h")

/-- All texts. -/
def Talk.hearAll (d : TOrder F) : List String → Talk → Talk
  | [], k => k
  | text :: texts, k => hearAll (dialogue.next d (.setData text)) texts (k.hear d text)

/-- The field has the value of the last reply to its prompt. A single symbol is not asked for. -/
def Entered (k : Talk) (d : TOrder F) (f : Field) : Prop :=
  (∃ reply, k.replies f = some reply ∧ f.Says d.order reply) ∨
    f = .symbol ∧ ∃ s, d.symbolsList = [s] ∧ d.order.symbol = s ++ "USDT"

/-! ### The order that texts make -/

/-- The order that a dialogue makes of the one before it. -/
def Talk.order (k : Talk) (d₀ : TOrder F) : BncOrder F where
  symbol := if 1 < d₀.symbolsList.length
    then ((k.replies .symbol).map fun r => firstArg r ++ "USDT").getD d₀.order.symbol
    else if (k.replies .newClientOrderId).isSome then d₀.symbolsList.headD "" ++ "USDT"
    else d₀.order.symbol
  newClientOrderId := if d₀.repeat_ then d₀.order.newClientOrderId
    else (k.replies .newClientOrderId).getD d₀.order.newClientOrderId
  side := if k.helped then d₀.order.side
    else ((k.replies .side).map fun r => stringToSide (firstArg r)).getD d₀.order.side
  type := ((k.replies .type).map fun r => stringToType (firstArg r)).getD d₀.order.type
  timeInForce :=
    ((k.replies .timeInForce).map fun r => stringToTif (firstArg r)).getD d₀.order.timeInForce
  quantity := ((k.replies .quantity).bind LexicalCast.lexicalCast).getD d₀.order.quantity
  price := ((k.replies .price).bind LexicalCast.lexicalCast).getD d₀.order.price
  stopPrice := ((k.replies .stopPrice).bind LexicalCast.lexicalCast).getD d₀.order.stopPrice

/-- The prompts of these fields were answered. -/
def Talk.Has (k : Talk) (fs : List Field) : Prop := ∀ f ∈ fs, (k.replies f).isSome

/-- The first prompts were answered. -/
structure Talk.Begun (k : Talk) (d₀ : TOrder F) : Prop where
  listed : d₀.symbolsList ≠ []
  name : (k.replies .newClientOrderId).isSome
  symbol : 1 < d₀.symbolsList.length → (k.replies .symbol).isSome

/-- The price was answered, or the stop price, as the type wants it. -/
def Talk.Priced (k : Talk) (type : OrderType) : Prop :=
  type = .LIMIT ∧ k.Has [.price] ∨
    type.Stops ∧ type ≠ .STOP_LOSS_LIMIT ∧ k.Has [.stopPrice] ∧ k.replies .price = none

/-- What was answered when the dialogue is in its state. -/
def Stage (d₀ : TOrder F) (k : Talk) (d : TOrder F) : Prop :=
  match d.state with
  | .start => d₀.symbolsList = [] ∧ k = {}
  | .name => d₀.symbolsList ≠ [] ∧ k = {} ∧ d.repeat_ = d₀.repeat_
  | .symbol => 1 < d₀.symbolsList.length ∧ (k.replies .newClientOrderId).isSome ∧
      k.replies .side = none ∧ k.replies .price = none ∧ k.helped = false ∧ d.repeat_ = false
  | .type => k.Begun d₀ ∧ k.replies .side = none ∧ k.replies .price = none ∧
      d.repeat_ = k.helped ∧ d.prevState = .inputType
  | .side => k.Begun d₀ ∧ k.Has [.type] ∧ k.replies .side = none ∧ k.replies .price = none ∧
      d.repeat_ = k.helped ∧ d.order.type ≠ .TAKE_PROFIT_LIMIT
  | .quantity => k.Begun d₀ ∧ k.Has [.type, .side] ∧ k.replies .price = none ∧
      d.repeat_ = false ∧ d.order.type ≠ .TAKE_PROFIT_LIMIT
  | .stopPrice => k.Begun d₀ ∧ k.Has [.type, .side, .quantity] ∧ k.replies .price = none ∧
      d.repeat_ = false ∧ d.order.type.Stops
  | .price => k.Begun d₀ ∧ k.Has [.type, .side, .quantity] ∧ d.repeat_ = false ∧
      (d.order.type = .LIMIT ∨ d.order.type = .STOP_LOSS_LIMIT)
  | .timeInForce => k.Begun d₀ ∧ k.Has [.type, .side, .quantity] ∧ d.repeat_ = false ∧
      k.Priced d.order.type ∧ (d.prevState = .price ∧ d.order.type = .LIMIT ∨
        d.prevState = .stopPrice ∧ d.order.type ≠ .LIMIT)
  | .orderResult => k.Begun d₀ ∧ k.Has [.type, .side, .quantity] ∧
      (d.order.type = .MARKET ∧ k.replies .price = none ∨
        k.Priced d.order.type ∧ k.Has [.timeInForce])
  | _ => False

/-- A dialogue that was begun from `d₀`, after a talk. -/
structure Progress (d₀ : TOrder F) (k : Talk) (d : TOrder F) : Prop where
  symbolsList : d.symbolsList = d₀.symbolsList
  order : d.order = k.order d₀
  stage : Stage d₀ k d

variable {d₀ d d' : TOrder F} {k : Talk} {f : Field} {text : String}

omit [LexicalCast F] in
theorem Field.prompt_inj {f g : Field} (h : f.prompt = g.prompt) : f = g := by
  cases f <;> cases g <;> first | rfl | cases h

/-- The talk with one more reply. -/
@[simps]
def Talk.reply (k : Talk) (f : Field) (text : String) : Talk :=
  { k with replies := Function.update k.replies f (some text) }

omit [LexicalCast F] in
theorem Talk.Has.reply {fs : List Field} (h : k.Has fs) (f : Field) (text : String) :
    (k.reply f text).Has (fs ++ [f]) := by
  intro g hg
  by_cases he : g = f
  · simp [he]
  · have hm : g ∈ fs := by simpa [he] using hg
    simpa [he] using h g hm

omit [LexicalCast F] in
theorem Talk.Has.of_subset {fs gs : List Field} (h : k.Has fs) (hs : gs ⊆ fs) : k.Has gs :=
  fun g hg => h g (hs hg)

omit [LexicalCast F] in
theorem Talk.isSome_reply {g : Field} (h : (k.replies g).isSome) (f : Field) (text : String) :
    ((k.reply f text).replies g).isSome := by
  by_cases he : g = f <;> simp [he]
  simpa [he] using h

omit [LexicalCast F] in
theorem Talk.Begun.reply (h : k.Begun d₀) (f : Field) (text : String) :
    (k.reply f text).Begun d₀ where
  listed := h.listed
  name := isSome_reply h.name f text
  symbol hl := isSome_reply (h.symbol hl) f text

omit [LexicalCast F] in
/-- A prompt that is not the one that is answered stays without an answer. -/
theorem reply_eq_none {g : Field} (h : k.replies g = none) (hf : g ≠ f) (text : String) :
    (k.reply f text).replies g = none :=
  (Function.update_of_ne hf _ _).trans h

omit [LexicalCast F] in
theorem Talk.Priced.reply {type : OrderType} (h : k.Priced type) (hf : f ≠ .price) (text : String) :
    (k.reply f text).Priced type := by
  rcases h with ⟨ht, hp⟩ | ⟨ht, hl, hp, hn⟩
  · exact .inl ⟨ht, (hp.reply f text).of_subset (by simp)⟩
  · exact .inr ⟨ht, hl, (hp.reply f text).of_subset (by simp),
      reply_eq_none hn hf.symm text⟩

theorem hear_accepted (k : Talk) (hs : d.state = f.prompt) (ha : f.accepts F text = true) :
    k.hear d text = k.reply f text := by
  ext1
  · funext g
    by_cases hg : g = f
    · subst hg
      simp [Talk.hear, hs, ha]
    · have hne : d.state ≠ g.prompt := fun h => hg (Field.prompt_inj (h.symm.trans hs))
      simp [Talk.hear, hne, hg]
  · cases f <;> simp_all [Talk.hear, Field.prompt, Field.accepts]

/-- Of the texts that are no reply only help with the type is heard. -/
theorem hear_refused (k : Talk) (hs : d.state = f.prompt) (ha : f.accepts F text = false) :
    k.hear d text = { k with helped := k.helped || f = .type } := by
  ext1
  · funext g
    have hno : ¬(d.state = g.prompt ∧ g.accepts F text = true) := by
      rintro ⟨h, hg⟩
      rw [Field.prompt_inj (h.symm.trans hs), ha] at hg
      cases hg
    exact if_neg hno
  · cases f <;> simp_all [Talk.hear, Field.prompt, Field.accepts]

theorem hear_other (k : Talk) (hs : ∀ f : Field, d.state ≠ f.prompt) : k.hear d text = k := by
  have hs' : d.state ≠ .type := hs .type
  ext1
  · funext g
    exact if_neg fun h => hs g h.1
  · simp [Talk.hear, hs']

omit [LexicalCast F] in
theorem TOrder.named_core (name : String) (d : TOrder F) :
    (d.named name).repeat_ = false ∧ (d.named name).order =
      { d.order with
        newClientOrderId := if d.repeat_ then d.order.newClientOrderId else name } := by
  unfold TOrder.named
  split
  · next hr => exact ⟨rfl, by simp⟩
  · next hr => exact ⟨by simpa using hr, by simp⟩

omit [LexicalCast F] in
theorem TOrder.sided_core (side : String) (d : TOrder F) :
    (d.sided side).repeat_ = false ∧ (d.sided side).order =
      { d.order with side := if d.repeat_ then d.order.side else stringToSide side } := by
  unfold TOrder.sided
  split
  · next hr => exact ⟨rfl, by simp⟩
  · next hr => exact ⟨by simpa using hr, by simp⟩

theorem progress_start (h : Progress d₀ k d) (hs : d.state = .start) (text : String) :
    Progress d₀ (k.hear d text) (dialogue.next d (.setData text)) := by
  have hstage := h.stage
  simp only [Stage, hs] at hstage
  obtain ⟨hl, rfl⟩ := hstage
  have hp : Passes text d _ _ := .last (.startEmpty hs (h.symbolsList.trans hl))
  rw [hp.next, hear_other _ fun f => by cases f <;> simp [hs, Field.prompt]]
  exact ⟨h.symbolsList, h.order, by simp [Stage, hs, hl]⟩

theorem progress_name (h : Progress d₀ k d) (hs : d.state = .name) (text : String) :
    Progress d₀ (k.hear d text) (dialogue.next d (.setData text)) := by
  have hstage := h.stage
  simp only [Stage, hs] at hstage
  obtain ⟨hl, rfl, hr⟩ := hstage
  have horder := h.order
  rw [hear_accepted (f := .newClientOrderId) _ hs rfl]
  obtain ⟨hrep, hname⟩ := d.named_core text
  rcases one_or_many hl with hl' | ⟨s, hl'⟩
  · have hp : Passes text d _ _ := .last (.nameMany hs (h.symbolsList ▸ hl'))
    rw [hp.next]
    refine ⟨hp.symbolsList.trans h.symbolsList, ?_, ?_⟩
    · simp [hname, horder, hr, Talk.order, hl']
    · simp [Stage, hl', hrep]
  · have hp : Passes text d _ _ :=
      .again (.nameOne hs (h.symbolsList.trans hl')) (.last (.inputType rfl))
    rw [hp.next]
    refine ⟨hp.symbolsList.trans h.symbolsList, ?_, ?_⟩
    · simp [hname, horder, hr, Talk.order, hl']
    · simp only [Stage, TOrder.goto_state]
      refine ⟨⟨hl, by simp, fun h1 => ?_⟩, ?_, ?_, ?_, ?_⟩ <;> simp_all

theorem progress_symbol (h : Progress d₀ k d) (hs : d.state = .symbol) (text : String) :
    Progress d₀ (k.hear d text) (dialogue.next d (.setData text)) := by
  have hstage := h.stage
  simp only [Stage, hs] at hstage
  obtain ⟨hl, hn, hside, hprice, hh, hr⟩ := hstage
  have hp : Passes text d _ _ := .again (.symbol hs) (.last (.inputType rfl))
  rw [hear_accepted (f := .symbol) _ hs rfl, hp.next]
  have hne : d₀.symbolsList ≠ [] := ne_nil_of_many hl
  have hside' := reply_eq_none hside (f := .symbol) (by decide) text
  have hprice' := reply_eq_none hprice (f := .symbol) (by decide) text
  refine ⟨hp.symbolsList.trans h.symbolsList, ?_, ?_⟩
  · simp [h.order, Talk.order, hl]
  · simp only [Stage, TOrder.goto_state]
    refine ⟨⟨hne, Talk.isSome_reply hn _ _, fun _ => by simp⟩, hside', hprice', ?_, ?_⟩ <;>
      simp [hr, hh]

theorem progress_type (h : Progress d₀ k d) (hs : d.state = .type) (text : String) :
    Progress d₀ (k.hear d text) (dialogue.next d (.setData text)) := by
  have hstage := h.stage
  simp only [Stage, hs] at hstage
  obtain ⟨hb, hside, hprice, hr, hprev⟩ := hstage
  by_cases hd : firstArg text = "$h"
  · have ha : Field.type.accepts F text = false := by simp [Field.accepts, hd]
    have hp : Passes text d _ _ := .again (.typeHelp hs hd) (.last (.inputType hprev))
    rw [hear_refused (f := .type) _ hs ha, hp.next]
    refine ⟨hp.symbolsList.trans h.symbolsList, ?_, ?_⟩
    · simp [h.order, Talk.order, hside]
    · simp only [Stage, TOrder.goto_state]
      refine ⟨⟨hb.listed, hb.name, hb.symbol⟩, hside, hprice, ?_, ?_⟩ <;> simp [hprev]
  · have ha : Field.type.accepts F text = true := by simp [Field.accepts, hd]
    have hp : Passes text d _ _ := .last (.type hs hd)
    rw [hear_accepted (f := .type) _ hs ha, hp.next]
    have hhas : (k.reply .type text).Has [.type] := by simp [Talk.Has]
    have hside' := reply_eq_none hside (f := .type) (by decide) text
    have hprice' := reply_eq_none hprice (f := .type) (by decide) text
    refine ⟨hp.symbolsList.trans h.symbolsList, ?_, ?_⟩
    · simp [h.order, Talk.order]
    · simp only [Stage, TOrder.goto_state]
      exact ⟨hb.reply .type text, hhas, hside', hprice', by simp [hr], by simp [stringToType_ne]⟩

theorem progress_side (h : Progress d₀ k d) (hs : d.state = .side) (text : String) :
    Progress d₀ (k.hear d text) (dialogue.next d (.setData text)) := by
  have hstage := h.stage
  simp only [Stage, hs] at hstage
  obtain ⟨hb, htype, hside, hprice, hr, ht⟩ := hstage
  obtain ⟨hrep, hsided⟩ := d.sided_core (firstArg text)
  have hp : Passes text d _ _ := .last (.side hs)
  rw [hear_accepted (f := .side) _ hs rfl, hp.next]
  have hprice' := reply_eq_none hprice (f := .side) (by decide) text
  refine ⟨hp.symbolsList.trans h.symbolsList, ?_, ?_⟩
  · rw [TOrder.goto_order, hsided, h.order, hr]
    cases hh : k.helped <;> simp [Talk.order, hside, hh]
  · simp only [Stage, TOrder.goto_state]
    exact ⟨hb.reply .side text, htype.reply .side text, hprice', hrep, by simpa [TOrder.sided_type]⟩

/-- Texts that are not accepted change nothing, but for help with the type. -/
theorem progress_refused (h : Progress d₀ k d) (hs : d.state = f.prompt)
    (ha : f.accepts F text = false) (hf : f ≠ .type)
    (hn : dialogue.next d (.setData text) = d) :
    Progress d₀ (k.hear d text) (dialogue.next d (.setData text)) := by
  rw [hear_refused k hs ha, hn]
  simpa [hf] using h

theorem progress_quantity (h : Progress d₀ k d) (hs : d.state = .quantity) (text : String) :
    Progress d₀ (k.hear d text) (dialogue.next d (.setData text)) := by
  have hstage := h.stage
  simp only [Stage, hs] at hstage
  obtain ⟨hb, hhas, hprice, hr, ht⟩ := hstage
  cases hx : (LexicalCast.lexicalCast text : Option F) with
  | none =>
    have hp : Passes text d _ _ := .last (.quantityError hs hx)
    exact progress_refused h (f := .quantity) hs (by simp [Field.accepts, hx]) (by decide) hp.next
  | some x =>
    have ha : Field.quantity.accepts F text = true := by simp [Field.accepts, hx]
    have horder : { d.order with quantity := x } = (k.reply .quantity text).order d₀ := by
      simp [h.order, Talk.order, hx]
    rw [hear_accepted k (f := .quantity) hs ha]
    have hhas' : (k.reply .quantity text).Has [.type, .side, .quantity] := hhas.reply .quantity text
    have hprice' : (k.reply .quantity text).replies .price = none :=
      reply_eq_none hprice (by decide) text
    by_cases hm : d.order.type = .MARKET
    · have hp : Passes text d _ _ := .again (.quantityMarket hs hx hm) (.last (.orderReady rfl))
      rw [hp.next]
      exact ⟨hp.symbolsList.trans h.symbolsList, horder, hb.reply _ _, hhas', .inl ⟨hm, hprice'⟩⟩
    by_cases hl : d.order.type = .LIMIT
    · have hp : Passes text d _ _ := .last (.quantityLimit hs hx hl)
      rw [hp.next]
      exact ⟨hp.symbolsList.trans h.symbolsList, horder, hb.reply _ _, hhas', hr, .inl hl⟩
    · have hp : Passes text d _ _ := .last (.quantityStop hs hx hm hl)
      rw [hp.next]
      exact ⟨hp.symbolsList.trans h.symbolsList, horder, hb.reply _ _, hhas', hprice', hr, hm, hl,
        ht⟩

theorem progress_stopPrice (h : Progress d₀ k d) (hs : d.state = .stopPrice) (text : String) :
    Progress d₀ (k.hear d text) (dialogue.next d (.setData text)) := by
  have hstage := h.stage
  simp only [Stage, hs] at hstage
  obtain ⟨hb, hhas, hprice, hr, ht⟩ := hstage
  cases hx : (LexicalCast.lexicalCast text : Option F) with
  | none =>
    have hp : Passes text d _ _ := .last (.stopPriceError hs hr hx)
    exact progress_refused h (f := .stopPrice) hs (by simp [Field.accepts, hx]) (by decide) hp.next
  | some x =>
    have ha : Field.stopPrice.accepts F text = true := by simp [Field.accepts, hx]
    have horder : { d.order with stopPrice := x } = (k.reply .stopPrice text).order d₀ := by
      simp [h.order, Talk.order, hx]
    rw [hear_accepted k (f := .stopPrice) hs ha]
    have hhas' := hhas.reply .stopPrice text
    have hprice' : (k.reply .stopPrice text).replies .price = none :=
      reply_eq_none hprice (by decide) text
    by_cases hl : d.order.type = .STOP_LOSS_LIMIT
    · have hp : Passes text d _ _ := .last (.stopPriceLimit hs (.number hr hx) (.inl hl))
      rw [hp.next]
      exact ⟨hp.symbolsList.trans h.symbolsList, horder, hb.reply _ _, hhas'.of_subset (by simp),
        hr, .inr hl⟩
    · have hp : Passes text d _ _ := .last (.stopPrice hs (.number hr hx) (not_or.mpr ⟨hl, ht.2.2⟩))
      rw [hp.next]
      exact ⟨hp.symbolsList.trans h.symbolsList, horder, hb.reply _ _, hhas'.of_subset (by simp), hr,
        .inr ⟨ht, hl, hhas'.of_subset (by simp), hprice'⟩, .inr ⟨hs, ht.2.1⟩⟩

theorem progress_price (h : Progress d₀ k d) (hs : d.state = .price) (text : String) :
    Progress d₀ (k.hear d text) (dialogue.next d (.setData text)) := by
  have hstage := h.stage
  simp only [Stage, hs] at hstage
  obtain ⟨hb, hhas, hr, ht⟩ := hstage
  cases hx : (LexicalCast.lexicalCast text : Option F) with
  | none =>
    have hp : Passes text d _ _ := .last (.priceError hs hr hx)
    exact progress_refused h (f := .price) hs (by simp [Field.accepts, hx]) (by decide) hp.next
  | some x =>
    have ha : Field.price.accepts F text = true := by simp [Field.accepts, hx]
    have horder : { d.order with price := x } = (k.reply .price text).order d₀ := by
      simp [h.order, Talk.order, hx]
    rw [hear_accepted k (f := .price) hs ha]
    have hhas' := hhas.reply .price text
    by_cases hl : d.order.type = .LIMIT
    · have hp : Passes text d _ _ := .last (.priceLimit hs (.number hr hx) hl)
      rw [hp.next]
      exact ⟨hp.symbolsList.trans h.symbolsList, horder, hb.reply _ _, hhas'.of_subset (by simp), hr,
        .inl ⟨hl, hhas'.of_subset (by simp)⟩, .inl ⟨hs, hl⟩⟩
    · have hp : Passes text d _ _ := .last (.priceOther hs (.number hr hx) hl)
      rw [hp.next]
      refine ⟨h.symbolsList, horder, ?_⟩
      simp only [Stage, TOrder.write_state, hs]
      exact ⟨hb.reply _ _, hhas'.of_subset (by simp), hr, ht⟩

/-- Help goes back to the price and reads it over. -/
theorem helped_timeInForce (hs : d.state = .timeInForce) (hd : firstArg text = "$h")
    (hprev : d.prevState = .price ∧ d.order.type = .LIMIT ∨
      d.prevState = .stopPrice ∧ d.order.type.Stops ∧ d.order.type ≠ .STOP_LOSS_LIMIT) :
    ∃ d' calls, Passes text d d' calls ∧ d'.symbolsList = d.symbolsList ∧ d'.order = d.order ∧
      d'.state = .timeInForce ∧ d'.repeat_ = false ∧ d'.prevState = d.prevState := by
  rcases hprev with ⟨hprev, ht⟩ | ⟨hprev, ht, hl⟩
  · exact ⟨_, _, .again (.timeInForceHelp hs hd) (.last (.priceLimit hprev (.kept rfl) ht)),
      rfl, rfl, rfl, rfl, rfl⟩
  · exact ⟨_, _, .again (.timeInForceHelp hs hd)
      (.last (.stopPrice hprev (.kept rfl) (not_or.mpr ⟨hl, ht.2.2⟩))), rfl, rfl, rfl, rfl, rfl⟩

theorem progress_timeInForce (h : Progress d₀ k d) (hs : d.state = .timeInForce) (text : String) :
    Progress d₀ (k.hear d text) (dialogue.next d (.setData text)) := by
  have hstage := h.stage
  simp only [Stage, hs] at hstage
  obtain ⟨hb, hhas, hr, hpriced, hprev⟩ := hstage
  by_cases hd : firstArg text = "$h"
  · have ha : Field.timeInForce.accepts F text = false := by simp [Field.accepts, hd]
    have hback : d.prevState = .price ∧ d.order.type = .LIMIT ∨
        d.prevState = .stopPrice ∧ d.order.type.Stops ∧ d.order.type ≠ .STOP_LOSS_LIMIT := by
      rcases hpriced with ⟨ht, -⟩ | ⟨ht, hl, -⟩ <;> rcases hprev with ⟨hp, ht'⟩ | ⟨hp, ht'⟩
      · exact .inl ⟨hp, ht⟩
      · exact absurd ht ht'
      · exact absurd ht' ht.2.1
      · exact .inr ⟨hp, ht, hl⟩
    obtain ⟨d', calls, hp, hlist, horder, hst, hrep, hprev'⟩ := helped_timeInForce hs hd hback
    have hk : k.hear d text = k := by
      rw [hear_refused k (f := .timeInForce) hs ha]
      simp
    rw [hk, hp.next]
    refine ⟨hlist.trans h.symbolsList, horder.trans h.order, ?_⟩
    simp only [Stage, hst, horder, hprev']
    exact ⟨hb, hhas, hrep, hpriced, hprev⟩
  · have ha : Field.timeInForce.accepts F text = true := by simp [Field.accepts, hd]
    have hp : Passes text d _ _ := .again (.timeInForce hs hd) (.last (.orderReady rfl))
    rw [hear_accepted k (f := .timeInForce) hs ha, hp.next]
    refine ⟨hp.symbolsList.trans h.symbolsList, ?_, hb.reply _ _,
      (hhas.reply .timeInForce text).of_subset (by simp), .inr ⟨?_, ?_⟩⟩
    · simp [h.order, Talk.order]
    · exact hpriced.reply (by decide) text
    · simp [Talk.Has]

theorem progress_orderResult (h : Progress d₀ k d) (hs : d.state = .orderResult) (text : String) :
    Progress d₀ (k.hear d text) (dialogue.next d (.setData text)) := by
  have hp : Passes text d _ _ := .last (.orderResult hs)
  rw [hp.next, hear_other k fun f => by cases f <;> simp [hs, Field.prompt]]
  exact ⟨h.symbolsList, h.order, h.stage⟩

theorem progress_next (h : Progress d₀ k d) (text : String) :
    Progress d₀ (k.hear d text) (dialogue.next d (.setData text)) := by
  have hstage := h.stage
  cases hs : d.state with
  | start => exact progress_start h hs text
  | name => exact progress_name h hs text
  | symbol => exact progress_symbol h hs text
  | type => exact progress_type h hs text
  | side => exact progress_side h hs text
  | quantity => exact progress_quantity h hs text
  | stopPrice => exact progress_stopPrice h hs text
  | price => exact progress_price h hs text
  | timeInForce => exact progress_timeInForce h hs text
  | orderResult => exact progress_orderResult h hs text
  | _ =>
    simp only [Stage, hs] at hstage

theorem progress_run (h : Progress d₀ k d) (texts : List String) :
    Progress d₀ (Talk.hearAll d texts k) (dialogue.run d (texts.map .setData)) := by
  induction texts generalizing d k with
  | nil => exact h
  | cons text texts ih => exact ih (progress_next h text)

theorem progress_opened (d₀ : TOrder F) : Progress d₀ {} (dialogue.next d₀ .start) := by
  by_cases hl : d₀.symbolsList = []
  · have hp : Passes "" (d₀.opened .start) _ _ := .last (.startEmpty rfl hl)
    rw [hp.next_opens rfl]
    refine ⟨rfl, ?_, hl, rfl⟩
    simp [Talk.order]
  · have hp : Passes "" (d₀.opened .start) _ _ := .last (.start rfl hl)
    rw [hp.next_opens rfl]
    refine ⟨rfl, ?_, hl, rfl, rfl⟩
    simp [Talk.order]

/-- The order after texts is the one that they make. -/
theorem order_run (d₀ : TOrder F) (texts : List String) :
    (dialogue.run (dialogue.next d₀ .start) (texts.map .setData)).order =
      (Talk.hearAll (dialogue.next d₀ .start) texts {}).order d₀ :=
  (progress_run (progress_opened d₀) texts).order

/-! ### What was entered -/

variable (F) in
/-- All replies were accepted. -/
def Talk.Accepted (k : Talk) : Prop :=
  ∀ f reply, k.replies f = some reply → f.accepts F reply = true

theorem accepted_hearAll (h : k.Accepted F) (d : TOrder F) (texts : List String) :
    (Talk.hearAll d texts k).Accepted F := by
  induction texts generalizing d k with
  | nil => exact h
  | cons text texts ih =>
    refine ih (fun f reply hr => ?_) _
    simp only [Talk.hear] at hr
    split_ifs at hr with hc
    · obtain rfl := Option.some.inj hr
      exact hc.2
    · exact h f reply hr

/-- A name is entered if it was read, or if it is the one from before. -/
theorem entered_name (h : Progress d₀ k d) (hk : (k.replies .newClientOrderId).isSome) :
    Entered k d .newClientOrderId ↔ (d₀.repeat_ = true → Entered k d₀ .newClientOrderId) := by
  obtain ⟨reply, hr⟩ := Option.isSome_iff_exists.mp hk
  cases hrep : d₀.repeat_ <;> simp [Entered, h.order, Talk.order, hr, hrep, Field.Says]

theorem entered_side (h : Progress d₀ k d) (hk : (k.replies .side).isSome) :
    Entered k d .side ↔ (k.helped = true → Entered k d₀ .side) := by
  obtain ⟨reply, hr⟩ := Option.isSome_iff_exists.mp hk
  cases hh : k.helped <;> simp [Entered, h.order, Talk.order, hr, hh, Field.Says]

theorem entered_symbol (h : Progress d₀ k d) (hb : k.Begun d₀) :
    Entered k d .symbol := by
  have hn := hb.name
  rcases one_or_many hb.listed with hl | ⟨s, hl⟩
  · obtain ⟨reply, hr⟩ := Option.isSome_iff_exists.mp (hb.symbol hl)
    exact .inl ⟨reply, hr, by simp [Field.Says, h.order, Talk.order, hl, hr]⟩
  · exact .inr ⟨rfl, s, h.symbolsList.trans hl, by simp [h.order, Talk.order, hl, hn]⟩

/-- No other field is read over. -/
theorem entered_of_has (h : Progress d₀ k d) (ha : k.Accepted F) (hk : (k.replies f).isSome)
    (hn : f ≠ .newClientOrderId) (hs : f ≠ .side) (hb : f ≠ .symbol) : Entered k d f := by
  obtain ⟨reply, hr⟩ := Option.isSome_iff_exists.mp hk
  have hacc := ha f reply hr
  refine .inl ⟨reply, hr, ?_⟩
  cases f with
  | newClientOrderId => exact absurd rfl hn
  | side => exact absurd rfl hs
  | symbol => exact absurd rfl hb
  | type | timeInForce => simp [Field.Says, h.order, Talk.order, hr]
  | quantity | price | stopPrice =>
    obtain ⟨x, hx⟩ := Option.isSome_iff_exists.mp hacc
    simp [Field.Says, h.order, Talk.order, hr, hx]

/-- Nothing is read over, or it is what the order had before. -/
def NothingLost (d₀ : TOrder F) (k : Talk) : Prop :=
  (d₀.repeat_ = true → Entered k d₀ .newClientOrderId) ∧ (k.helped = true → Entered k d₀ .side)

theorem forall_entered (h : Progress d₀ k d) (ha : k.Accepted F) (hb : k.Begun d₀)
    {fs : List Field} (hname : .newClientOrderId ∈ fs) (hside : .side ∈ fs)
    (hk : ∀ f ∈ fs, f = .symbol ∨ (k.replies f).isSome) :
    (∀ f ∈ fs, Entered k d f) ↔ NothingLost d₀ k := by
  have hn := (hk _ hname).resolve_left (by decide)
  have hs := (hk _ hside).resolve_left (by decide)
  rw [NothingLost, ← entered_name h hn, ← entered_side h hs]
  refine ⟨fun hall => ⟨hall _ hname, hall _ hside⟩, fun ⟨hen, hes⟩ f hf => ?_⟩
  by_cases h1 : f = .newClientOrderId
  · exact h1 ▸ hen
  by_cases h2 : f = .side
  · exact h2 ▸ hes
  by_cases h3 : f = .symbol
  · exact h3 ▸ entered_symbol h hb
  · exact entered_of_has h ha ((hk f hf).resolve_left h3) h1 h2 h3

/-- What is asked for before an order is ready. -/
structure Talk.Complete (k : Talk) (d₀ : TOrder F) (type : OrderType) : Prop where
  begun : k.Begun d₀
  basic : k.Has [.type, .side, .quantity]
  more : type = .MARKET ∧ k.replies .price = none ∨ k.Priced type ∧ k.Has [.timeInForce]

omit [LexicalCast F] in
theorem Talk.Complete.basicFields {type : OrderType} (h : k.Complete d₀ type) :
    ∀ f ∈ basicFields type, f = .symbol ∨ (k.replies f).isSome := by
  obtain ⟨hb, hhas, hmore⟩ := h
  have hname := hb.name
  cases type with
  | LIMIT => simp_all [Order.basicFields, Talk.Has, Talk.Priced, OrderType.Stops]
  | _ => simp_all [Order.basicFields, Talk.Has]

omit [LexicalCast F] in
theorem Talk.Complete.createOrderFields {type : OrderType} (h : k.Complete d₀ type)
    (hl : type ≠ .LIMIT_MAKER) :
    ∀ f ∈ createOrderFields type, f = .symbol ∨ (k.replies f).isSome := by
  obtain ⟨hb, hhas, hmore⟩ := h
  have hname := hb.name
  cases type with
  | LIMIT_MAKER => exact absurd rfl hl
  | _ => simp_all [Order.createOrderFields, Talk.Has, Talk.Priced, OrderType.Stops]

omit [LexicalCast F] in
theorem Talk.Complete.price_eq_none {type : OrderType} (h : k.Complete d₀ type)
    (hl : type = .LIMIT_MAKER) : k.replies .price = none := by
  rcases h.more with ⟨ht, -⟩ | ⟨⟨ht, -⟩ | ⟨-, -, -, hn⟩, -⟩
  · cases hl ▸ ht
  · cases hl ▸ ht
  · exact hn

/-- An order that is submitted is what was entered, as far as nothing was read over. Only the
price of a limit-maker order is never asked for. -/
theorem entered_iff (d₀ : TOrder F) (texts : List String) (last : String)
    (h : .execute ∈ manuals (dialogue.emit
      (dialogue.run (dialogue.next d₀ .start) (texts.map .setData)) (.setData last))) :
    let d := dialogue.run (dialogue.next d₀ .start) (texts.map .setData)
    let k := Talk.hearAll (dialogue.next d₀ .start) texts {}
    ((∀ f ∈ basicFields d.order.type, Entered k d f) ↔ NothingLost d₀ k) ∧
      ((∀ f ∈ basicFields d.order.type ++ createOrderFields d.order.type, Entered k d f) ↔
        NothingLost d₀ k ∧ d.order.type ≠ .LIMIT_MAKER) := by
  intro d k
  have hp : Progress d₀ k d := progress_run (progress_opened d₀) texts
  have ha : k.Accepted F := accepted_hearAll (fun _ _ hr => by cases hr) _ _
  have hs : d.state = .orderResult := ready_of_manual ((defined_start d₀).run texts) h
  have hstage := hp.stage
  simp only [Stage, hs] at hstage
  have hc : k.Complete d₀ d.order.type := ⟨hstage.1, hstage.2.1, hstage.2.2⟩
  have hname : .newClientOrderId ∈ basicFields d.order.type := by cases d.order.type <;> decide
  have hside : .side ∈ basicFields d.order.type := by cases d.order.type <;> decide
  have hbasic := forall_entered hp ha hc.begun hname hside hc.basicFields
  refine ⟨hbasic, ?_⟩
  by_cases hl : d.order.type = .LIMIT_MAKER
  · have hprice : ¬Entered k d .price := by
      have hnone := hc.price_eq_none hl
      rintro (⟨reply, hr, -⟩ | ⟨hf, -⟩)
      · rw [hnone] at hr
        cases hr
      · cases hf
    refine iff_of_false (fun hall => hprice (hall _ ?_)) fun hn => hn.2 hl
    simp [hl, createOrderFields]
  · rw [and_iff_left hl]
    refine forall_entered hp ha hc.begun (List.mem_append_left _ hname)
      (List.mem_append_left _ hside) fun f hf => ?_
    rcases List.mem_append.mp hf with hf | hf
    · exact hc.basicFields f hf
    · exact hc.createOrderFields hl f hf

end Replies

/-- A dialogue in which an order to buy was submitted. -/
def bought : TOrder ℚ :=
  dialogue.run newDialogue (.start :: ["first", "MARKET", "BUY", "1", "$e"].map .setData)

/-- The texts of an order to sell, without help and with it. -/
def sell : List String := ["second", "MARKET", "SELL", "1"]

def helpedSell : List String := ["second", "$h", "MARKET", "SELL", "1"]

theorem entered_sell :
    let d := dialogue.run (dialogue.next bought .start) (sell.map .setData)
    let k := Talk.hearAll (dialogue.next bought .start) sell {}
    ((∀ f ∈ basicFields d.order.type, Entered k d f) ↔ NothingLost bought k) ∧
      ((∀ f ∈ basicFields d.order.type ++ createOrderFields d.order.type, Entered k d f) ↔
        NothingLost bought k ∧ d.order.type ≠ .LIMIT_MAKER) :=
  entered_iff bought sell "$e" (by decide +kernel)

/-- After help with the type the order to sell is one to buy. -/
theorem not_entered_helpedSell :
    let d := dialogue.run (dialogue.next bought .start) (helpedSell.map .setData)
    let k := Talk.hearAll (dialogue.next bought .start) helpedSell {}
    .execute ∈ manuals (dialogue.emit d (.setData "$e")) ∧
      ¬∀ f ∈ basicFields d.order.type, Entered k d f := by
  refine ⟨by decide +kernel, fun hall => ?_⟩
  have hreply : (Talk.hearAll (dialogue.next bought .start) helpedSell {}).replies .side =
      some "SELL" := by decide +kernel
  have hside : (dialogue.run (dialogue.next bought .start) (helpedSell.map .setData)).order.side =
      .BUY := by decide +kernel
  rcases hall .side (by decide +kernel) with ⟨reply, hr, hs⟩ | ⟨hf, -⟩
  · obtain rfl := Option.some.inj (hr.symm.trans hreply)
    cases hside.symm.trans hs
  · cases hf

end BotTrader.Order
