import BotTrader.Order.Sound
import BotTrader.Order.Verdict

/-! What the keyboards offer. All prompts share one list of keys and one keyboard. All clear
them first but the choice of a currency for a new order, which adds its symbols to whatever the
prompts before have left. -/

namespace BotTrader.Order

open Automata

variable {F : Type}

/-- A keyboard that is sent, and the text that it comes with. -/
def Call.keyboard? : Call F → Option (String × Keyboard)
  | .sendMessage text (.keyboard rows) => some (text, rows)
  | _ => none

def keyboards (calls : List (Call F)) : List (String × Keyboard) := calls.filterMap Call.keyboard?

@[simp] theorem keyboards_append (calls calls' : List (Call F)) :
    keyboards (calls ++ calls') = keyboards calls ++ keyboards calls' :=
  List.filterMap_append

/-- The options of a prompt, for the symbols and the type of the order. -/
def options (symbols : List String) (type : OrderType) (text : String) : List String :=
  if text = "Выбор валюты:" then symbols
  else if text = "Тип ордера?" then ["LIMIT", "MARKET"]
  else if text = "Тип операции" then ["BUY - покупка", "SELL - продажа"]
  else if text = "Время действия ордера?" then
    if type = .LIMIT then ["GTC", "IOC", "FOK"] else ["GTC", "IOC", "FOK", "$h ОПИСАНИЕ"]
  else if text = "Ордер готов" then ["$e Выставить", "$c Отмена"]
  else []

variable [LexicalCast F] {d d' : TOrder F} {data : String} {text? : Option String}
  {calls : List (Call F)}

/-- Every keyboard that the event sends has one row for each option of its prompt. -/
def OffersOwn (d : TOrder F) (e : Event) : Prop :=
  ∀ k ∈ keyboards (dialogue.emit d e),
    k.2 = (options d.symbolsList (dialogue.next d e).order.type k.1).map ([·])

instance (d : TOrder F) (e : Event) : Decidable (OffersOwn d e) :=
  inferInstanceAs (Decidable (∀ k ∈ _, _))

/-- No keys are left from other prompts. -/
def Blank (d : TOrder F) : Prop := d.keys = [] ∧ d.keyboard = []

/-- What calls do to the keys, anywhere but at the choice of a currency for a new order. -/
inductive Shown (d d' : TOrder F) (calls : List (Call F)) : Prop
  | quiet (hc : keyboards calls = []) (hk : d'.keys = d.keys) (hb : d'.keyboard = d.keyboard)
  | prompt (text : String) (hk : d'.keys ≠ [])
      (hc : keyboards calls = [(text, (options d.symbolsList d'.order.type text).map ([·]))])

theorem ReadsPrice.quiet {field : F → BncOrder F → BncOrder F} {name : String}
    (h : ReadsPrice data field name d d' calls) :
    keyboards calls = [] ∧ d'.keys = d.keys ∧ d'.keyboard = d.keyboard := by
  cases h <;> exact ⟨rfl, rfl, rfl⟩

omit [LexicalCast F] in
theorem TOrder.named_frame (name : String) (d : TOrder F) :
    (d.named name).keys = d.keys ∧ (d.named name).keyboard = d.keyboard ∧
      (d.named name).symbolsList = d.symbolsList := by
  unfold TOrder.named
  split <;> exact ⟨rfl, rfl, rfl⟩

omit [LexicalCast F] in
theorem TOrder.sided_frame (side : String) (d : TOrder F) :
    (d.sided side).keys = d.keys ∧ (d.sided side).keyboard = d.keyboard := by
  unfold TOrder.sided
  split <;> exact ⟨rfl, rfl⟩

theorem Pass.shown (h : Pass data d text? d' calls) (hd : Sound d) (hn : d.state ≠ .name)
    (hl : 1 < d.symbolsList.length) : Shown d d' calls := by
  have hne : d.symbolsList ≠ [] := ne_nil_of_many hl
  cases h with
  | nameMany hs | nameOne hs => exact absurd hs hn
  | inputType => exact .prompt "Тип ордера?" (by simp) rfl
  | type => exact .prompt "Тип операции" (by simp) rfl
  | orderReady => exact .prompt "Ордер готов" (by simp) rfl
  | delNameMany | listMany => exact .prompt "Выбор валюты:" (by simpa) rfl
  | side => exact .quiet rfl (d.sided_frame _).1 (d.sided_frame _).2
  | stopPrice hs hi =>
    simp only [Sound, hs, OrderType.Stops] at hd
    have htype := hi.type fun _ _ => rfl
    exact .prompt "Время действия ордера?" (by simp) (by
      rw [keyboards_append, hi.quiet.1, TOrder.offer_order, TOrder.goto_order, htype, options,
        if_neg hd.2.1]
      rfl)
  | priceLimit hs hi ht =>
    exact .prompt "Время действия ордера?" (by simp) (by
      rw [keyboards_append, hi.quiet.1, TOrder.offer_order, TOrder.goto_order, options, if_pos ht]
      rfl)
  | stopPriceLimit hs hi =>
    exact .quiet (by rw [keyboards_append, hi.quiet.1]; rfl) hi.quiet.2.1 hi.quiet.2.2
  | priceOther hs hi => exact .quiet hi.quiet.1 hi.quiet.2.1 hi.quiet.2.2
  | orderResult =>
    refine .quiet ?_ rfl rfl
    unfold verdict
    split_ifs <;> rfl
  | _ => exact .quiet (by simp [keyboards, Call.keyboard?, TOrder.printed]) (by simp) (by simp)

/-- Before a further pass nothing is shown, and it does not choose a currency for a new order. -/
theorem Pass.quiet {text : String} (h : Pass data d (some text) d' calls) (hd : Sound d)
    (hn : d.state ≠ .name) : keyboards calls = [] ∧ d'.state ≠ .name ∧ d'.keys = d.keys ∧
      d'.keyboard = d.keyboard := by
  cases h with
  | nameOne hs => exact absurd hs hn
  | typeHelp hs =>
    simp only [Sound, hs] at hd
    exact ⟨rfl, by simp [hd], rfl, rfl⟩
  | timeInForceHelp hs =>
    simp only [Sound, hs] at hd
    refine ⟨rfl, ?_, rfl, rfl⟩
    rcases hd with ⟨hp, -⟩ | ⟨hp, -⟩ <;> simp [hp]
  | _ => exact ⟨by simp [keyboards, Call.keyboard?, TOrder.printed], by simp, by simp, by simp⟩

theorem Passes.shown (h : Passes data d d' calls) (hd : Sound d) (hn : d.state ≠ .name)
    (hl : 1 < d.symbolsList.length) : Shown d d' calls := by
  induction h with
  | last h => exact h.shown hd hn hl
  | @again data text d d₁ d' calls calls' h hs ih =>
    obtain ⟨hc, hn', hk, hb⟩ := h.quiet hd hn
    have hlist := h.symbolsList
    rcases ih (h.sound hd) hn' (hlist ▸ hl) with ⟨hc', hk', hb'⟩ | ⟨text, hk', hc'⟩
    · exact .quiet (by rw [keyboards_append, hc, hc']; rfl) (hk'.trans hk) (hb'.trans hb)
    · exact .prompt text hk' (by rw [keyboards_append, hc, hc', hlist]; rfl)

/-! ### Events -/

/-- The choice of a currency for a new order. -/
theorem choice_next (hs : d.state = .name) (hl : 1 < d.symbolsList.length) (text : String) :
    (dialogue.next d (.setData text)).keys = d.keys ++ d.symbolsList ∧
      keyboards (dialogue.emit d (.setData text)) =
        [("Выбор валюты:", d.keyboard ++ (d.keys ++ d.symbolsList).map ([·]))] := by
  have hp : Passes text d _ _ := .last (.nameMany hs hl)
  obtain ⟨hk, hb, -⟩ := d.named_frame text
  rw [hp.next, hp.emit]
  refine ⟨by simp [hk], ?_⟩
  have hq : keyboards (d.namedCalls text) = [] := by
    unfold TOrder.namedCalls
    split <;> rfl
  rw [keyboards_append, hq, List.nil_append, TOrder.push_keyboard, hk, hb]
  rfl

/-- Any other event. -/
theorem event_shown (hd : Sound d) (hl : 1 < d.symbolsList.length) {e : Event}
    (hn : d.state = .name → ∀ text, e ≠ .setData text) :
    Shown d (dialogue.next d e) (dialogue.emit d e) := by
  have hne : d.symbolsList ≠ [] := ne_nil_of_many hl
  rcases event_passes hne e with ⟨text, he, hp⟩ | ⟨st, he, hp⟩
  · exact hp.shown hd (fun hs => hn hs text he) hl
  · have hst : st ≠ .name := by
      rintro rfl
      cases e <;> simp [Event.opens] at he
    rcases hp.shown (sound_opened he d) hst hl with ⟨hc, hk, hb⟩ | ⟨text, hk, hc⟩
    · exact .quiet hc hk hb
    · exact .prompt text hk hc

theorem offersOwn_of_shown {e : Event} (h : Shown d (dialogue.next d e) (dialogue.emit d e)) :
    OffersOwn d e := by
  intro k hk
  rcases h with ⟨hc, -, -⟩ | ⟨text, -, hc⟩
  · rw [hc] at hk
    cases hk
  · rw [hc, List.mem_singleton] at hk
    subst hk
    rfl

theorem offersOwn_choice (hs : d.state = .name) (hl : 1 < d.symbolsList.length) (text : String) :
    OffersOwn d (.setData text) ↔ Blank d := by
  rw [OffersOwn, (choice_next hs hl text).2]
  have hrows : d.keyboard ++ (d.keys ++ d.symbolsList).map ([·]) = d.symbolsList.map ([·]) ↔
      Blank d := by
    rw [List.map_append, ← List.append_assoc, List.append_left_eq_self, Blank,
      List.append_eq_nil_iff, List.map_eq_nil_iff, and_comm]
  simpa [options] using hrows

omit [LexicalCast F] in
theorem not_blank_of_keys (h : d.keys ≠ []) : ¬Blank d := fun hb => h hb.1

/-- The keys are left blank by an event that shows none. -/
theorem blank_next (hd : Sound d) (hl : 1 < d.symbolsList.length) (e : Event) :
    Blank (dialogue.next d e) ↔ Blank d ∧ keyboards (dialogue.emit d e) = [] := by
  by_cases hc : d.state = .name ∧ ∃ text, e = .setData text
  · obtain ⟨hs, text, rfl⟩ := hc
    obtain ⟨hk, hc⟩ := choice_next hs hl text
    have hne : d.symbolsList ≠ [] := ne_nil_of_many hl
    rw [hc]
    exact iff_of_false (not_blank_of_keys (by simp [hk, hne])) (by simp)
  · rcases event_shown hd hl fun hs text he => hc ⟨hs, text, he⟩ with ⟨hc, hk, hb⟩ | ⟨text, hk, hc⟩
    · rw [Blank, hk, hb, hc]
      exact (and_iff_left rfl).symm
    · rw [hc]
      exact iff_of_false (not_blank_of_keys hk) (by simp)

/-! ### Histories -/

/-- A choice of a currency for a new order comes with nothing left from before. -/
def ChoosesBlank (d : TOrder F) (e : Event) : Prop :=
  ∀ text, e = .setData text → d.state = .name → Blank d

theorem offersOwn_next (hd : Sound d) (hl : 1 < d.symbolsList.length) (e : Event) :
    OffersOwn d e ↔ ChoosesBlank d e := by
  by_cases hc : d.state = .name ∧ ∃ text, e = .setData text
  · obtain ⟨hs, text, rfl⟩ := hc
    rw [offersOwn_choice hs hl]
    exact ⟨fun hb _ _ _ => hb, fun h => h text rfl hs⟩
  · refine iff_of_true (offersOwn_of_shown (event_shown hd hl ?_)) fun text he hs => ?_
    · exact fun hs text he => hc ⟨hs, text, he⟩
    · exact absurd ⟨hs, text, he⟩ hc

theorem along_offersOwn (hd : Sound d) (hl : 1 < d.symbolsList.length) (es : List Event) :
    dialogue.Along OffersOwn d es ↔ dialogue.Along ChoosesBlank d es := by
  induction es generalizing d with
  | nil => exact Iff.rfl
  | cons e es ih =>
    have hne : d.symbolsList ≠ [] := ne_nil_of_many hl
    have hlist := event_symbolsList hne e
    rw [Machine.along_cons, Machine.along_cons, offersOwn_next hd hl,
      ih (event_sound hne hd e) (hlist ▸ hl)]

theorem blank_run (hd : Sound d) (hl : 1 < d.symbolsList.length) (es : List Event) :
    Blank (dialogue.run d es) ↔ Blank d ∧ keyboards (dialogue.emitted d es) = [] := by
  induction es generalizing d with
  | nil => exact (and_iff_left rfl).symm
  | cons e es ih =>
    have hne : d.symbolsList ≠ [] := ne_nil_of_many hl
    have hlist := event_symbolsList hne e
    rw [Machine.run_cons, ih (event_sound hne hd e) (hlist ▸ hl), blank_next hd hl,
      Machine.emitted_cons, keyboards_append, List.append_eq_nil_iff, and_assoc]

/-- From the beginning of all dialogues: the keys are blank as long as no keyboard was sent. -/
theorem blank_history (order : BncOrder F) {symbols : List String} (hl : 1 < symbols.length)
    (es : List Event) : Blank (dialogue.run (TOrder.init order symbols) es) ↔
      keyboards (dialogue.emitted (TOrder.init order symbols) es) = [] := by
  have hblank : Blank (TOrder.init order symbols) := ⟨rfl, rfl⟩
  have hd : Sound (TOrder.init order symbols) := by simp [Sound, TOrder.init]
  rw [blank_run hd hl]
  exact and_iff_right hblank

/-- In a history every keyboard offers its own options if and only if every choice of a currency
for a new order comes with nothing left from before. -/
theorem offersOwn_iff (order : BncOrder F) {symbols : List String} (hl : 1 < symbols.length)
    (es : List Event) : dialogue.Along OffersOwn (TOrder.init order symbols) es ↔
      dialogue.Along ChoosesBlank (TOrder.init order symbols) es :=
  along_offersOwn (by simp [Sound, TOrder.init]) hl es

/-- Two symbols, and no order so far. -/
def newChoice : TOrder ℚ := .init ⟨"", "", .BUY, .UNKNOWN, .UNK, 0, 0, 0⟩ ["BTC", "ETH"]

theorem offersOwn_first : dialogue.Along OffersOwn newChoice [.start, .setData "first"] := by
  refine (offersOwn_iff _ (by decide) _).mpr ⟨fun text he => ?_, fun text _ _ => ?_, trivial⟩
  · cases he
  · exact ⟨by decide +kernel, by decide +kernel⟩

/-- The keyboard of a list is still there when a currency is chosen for an order. -/
theorem not_offersOwn_second :
    ¬dialogue.Along OffersOwn newChoice [.list, .start, .setData "first"] := by
  decide +kernel

end BotTrader.Order
