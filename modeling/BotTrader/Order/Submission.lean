import Mathlib.Data.Nat.Log
import BotTrader.Https.Parameters
import BotTrader.Order.Replies
import BotTrader.Python.Rounding

/-! The request that an order becomes. The exchange reads the order that was meant, its numbers
as exactly as they are written, unless a separator in its id or its symbol breaks the parameters,
a number is infinite or NaN, or its type has no text: there is none for `TAKE_PROFIT_LIMIT`, of
which the request is written all the same. -/

namespace BotTrader.Order

open Boost Https Text
open Python.Rational (ofChars decimal roundTo ofChars_decimal ofChars_toString abs_roundTo_sub_le)

variable {F : Type}

/-- How a number is written: `utils::double_to_string(val, 8)`, and `put` of a `double`. Infinities
and NaN have no value. -/
structure Printing (F : Type) where
  fixed : F → String
  put : F → String
  value : F → Option ℚ

/-- What is documented of streams: `std::fixed` writes a number to the digits behind the point
that are asked for, and `put` to the seventeen digits that a `double` needs. -/
structure Printing.Documented (print : Printing F) : Prop where
  fixed : ∀ x v, print.value x = some v →
    ∃ y, ofChars (print.fixed x).toList = some y ∧ |y - v| ≤ 1 / (2 * 10 ^ 8)
  put : ∀ x v, print.value x = some v →
    ∃ y, ofChars (print.put x).toList = some y ∧ |y - v| ≤ |v| / (2 * 10 ^ 16)
  plain : ∀ x, '&' ∉ (print.fixed x).toList ∧ '&' ∉ (print.put x).toList

def typeToString (tt : OrderType) : String := (typeMap.lookup tt).getD ""

def sideToString : Side → String
  | .BUY => "BUY"
  | .SELL => "SELL"

def tifToString (tt : TimeInForce) : String := (tifMap.lookup tt).getD ""

/-- The parameters of `create_order`; an order of an unknown type is not submitted. -/
def createOrderPayload (print : Printing F) (recvWindow : ℤ) (timestamp : UInt64)
    (order : BncOrder F) : Option Ptree := do
  let pt := Ptree.empty.put "symbol" order.symbol
  let pt := pt.put "side" (sideToString order.side)
  let pt := pt.put "type" (typeToString order.type)
  let pt ← match order.type with
    | .LIMIT =>
      let pt := pt.put "timeInForce" (tifToString order.timeInForce)
      let pt := pt.put "price" (print.fixed order.price)
      some (pt.put "quantity" (print.fixed order.quantity))
    | .MARKET => some (pt.put "quantity" (print.fixed order.quantity))
    | .STOP_LOSS | .TAKE_PROFIT =>
      let pt := pt.put "quantity" (print.put order.quantity)
      some (pt.put "stopPrice" (print.put order.stopPrice))
    | .STOP_LOSS_LIMIT | .TAKE_PROFIT_LIMIT =>
      let pt := pt.put "timeInForce" (tifToString order.timeInForce)
      let pt := pt.put "quantity" (print.fixed order.quantity)
      let pt := pt.put "price" (print.fixed order.price)
      some (pt.put "stopPrice" (print.put order.stopPrice))
    | .LIMIT_MAKER =>
      let pt := pt.put "price" (print.put order.price)
      some (pt.put "quantity" (print.fixed order.quantity))
    | .UNKNOWN => none
  let pt := pt.put "newClientOrderId" order.newClientOrderId
  let pt := pt.put "newOrderRespType" "RESULT"
  let pt := pt.put "timestamp" (toString timestamp.toNat)
  some (pt.put "recvWindow" (toString recvWindow))

/-! ### What the exchange reads -/

/-- The parameter of a field. -/
def Field.parameter : Field → String
  | .newClientOrderId => "newClientOrderId"
  | .symbol => "symbol"
  | .type => "type"
  | .side => "side"
  | .quantity => "quantity"
  | .price => "price"
  | .stopPrice => "stopPrice"
  | .timeInForce => "timeInForce"

/-- The exchange's words for types and times in force. -/
def OrderType.word : OrderType → String
  | .UNKNOWN => ""
  | .LIMIT => "LIMIT"
  | .MARKET => "MARKET"
  | .STOP_LOSS => "STOP_LOSS"
  | .STOP_LOSS_LIMIT => "STOP_LOSS_LIMIT"
  | .TAKE_PROFIT => "TAKE_PROFIT"
  | .TAKE_PROFIT_LIMIT => "TAKE_PROFIT_LIMIT"
  | .LIMIT_MAKER => "LIMIT_MAKER"

def TimeInForce.word : TimeInForce → String
  | .UNK => ""
  | .GTC => "GTC"
  | .IOC => "IOC"
  | .FOK => "FOK"

/-- The number is neither infinite nor NaN. -/
def Printing.Finite (print : Printing F) (x : F) : Prop := ∃ v, print.value x = some v

/-- The text is that of the number, to eight digits behind the point or to seventeen digits. -/
def Printing.Prints (print : Printing F) (x : F) (text : String) : Prop :=
  ∃ v y, print.value x = some v ∧ ofChars text.toList = some y ∧
    (|y - v| ≤ 1 / (2 * 10 ^ 8) ∨ |y - v| ≤ |v| / (2 * 10 ^ 16))

/-- The number in a field. -/
def BncOrder.number (o : BncOrder F) : Field → Option F
  | .quantity => some o.quantity
  | .price => some o.price
  | .stopPrice => some o.stopPrice
  | _ => none

/-- The numbers that an order of its type has are finite. -/
def BncOrder.Finite (print : Printing F) (o : BncOrder F) : Prop :=
  ∀ f ∈ createOrderFields o.type, ∀ x ∈ o.number f, print.Finite x

/-- The text is what the order has in the field. -/
def Field.Tells (print : Printing F) (o : BncOrder F) (text : String) : Field → Prop
  | .newClientOrderId => text = o.newClientOrderId
  | .symbol => text = o.symbol
  | .type => text = o.type.word
  | .side => text = sideToString o.side
  | .quantity => print.Prints o.quantity text
  | .price => print.Prints o.price text
  | .stopPrice => print.Prints o.stopPrice text
  | .timeInForce => text = o.timeInForce.word

/-- The exchange reads the request of the order, signed, and finds in it every field of the
order. -/
def Submits (print : Printing F) (hmac : String → String → String) (secretKey : String)
    (recvWindow : ℤ) (timestamp : UInt64) (o : BncOrder F) : Prop :=
  ∃ payload, createOrderPayload print recvWindow timestamp o = some payload ∧
    Survives .urlencoded hmac "/api/v3/order" payload secretKey ∧
    ∀ f ∈ createOrderFields o.type, ∃ text, payload.get f.parameter = .ok text ∧ f.Tells print o text

/-! ### Payloads of texts -/

/-- A payload of texts under distinct keys. -/
def texts (kvs : List (String × String)) : Ptree := .node (kvs.map fun kv => (kv.1, .leaf kv.2))

theorem put_texts {kvs : List (String × String)} {key : String} (h : key ∉ kvs.map Prod.fst)
    (value : String) : (texts kvs).put key value = texts (kvs ++ [(key, value)]) := by
  have hput : Ptree.putIn key value (kvs.map fun kv => (kv.1, .leaf kv.2)) =
      (kvs ++ [(key, value)]).map fun kv => (kv.1, .leaf kv.2) := by
    induction kvs with
    | nil => rfl
    | cons kv kvs ih =>
      rw [List.map_cons, List.mem_cons, not_or] at h
      rw [List.map_cons, Ptree.putIn, if_neg (Ne.symm h.1), ih h.2, List.cons_append, List.map_cons]
  exact congrArg Ptree.node hput

theorem pairs_texts (kvs : List (String × String)) :
    pairs (texts kvs) = kvs.map fun kv => (kv.1.toList, kv.2.toList) := by
  simp [pairs, texts, Ptree.children, Ptree.data]

theorem get_texts {kvs : List (String × String)} {key value : String}
    (h : kvs.lookup key = some value) : (texts kvs).get key = .ok value := by
  refine Ptree.get_ok_iff.mpr ⟨.leaf value, ?_, rfl⟩
  show (kvs.map fun kv => (kv.1, Ptree.leaf kv.2)).lookup key = _
  induction kvs with
  | nil => cases h
  | cons kv kvs ih =>
    rw [List.map_cons, List.lookup_cons]
    rw [List.lookup_cons] at h
    split at h
    · rw [Option.some.inj h]
    · exact ih h

/-- A key that neither breaks the parameters nor passes for the signature. -/
def PlainKey (key : String) : Prop :=
  '&' ∉ key.toList ∧ '=' ∉ key.toList ∧ key ≠ "signature"

instance (key : String) : Decidable (PlainKey key) := inferInstanceAs (Decidable (_ ∧ _ ∧ _))

/-- Under plain keys only the values matter. -/
theorem survives_texts {kvs : List (String × String)} (hne : kvs ≠ [])
    (hk : ∀ kv ∈ kvs, PlainKey kv.1) {hmac : String → String → String} {target secretKey : String} :
    Survives .urlencoded hmac target (texts kvs) secretKey ↔ ∀ kv ∈ kvs, '&' ∉ kv.2.toList := by
  have hp := pairs_texts kvs
  constructor
  · intro hs kv hkv
    have hclean := hs.fields (kv.1.toList, kv.2.toList)
      (hp ▸ List.mem_map.mpr ⟨kv, hkv, rfl⟩)
    exact hclean.value
  · intro hv
    have hclean : ∀ x ∈ kvs.map fun kv => (kv.1.toList, kv.2.toList), CleanField '&' '=' x := by
      intro x hx
      obtain ⟨kv, hkv, rfl⟩ := List.mem_map.mp hx
      exact ⟨(hk kv hkv).1, (hk kv hkv).2.1, hv kv hkv⟩
    obtain ⟨kv, rest, rfl⟩ := List.exists_cons_of_ne_nil hne
    refine (survives_of_clean hp hclean .urlencoded).mpr fun x hx => ?_
    obtain ⟨kv', hkv', rfl⟩ := List.mem_map.mp hx
    exact fun he => (hk kv' (List.mem_cons_of_mem _ hkv')).2.2 (String.toList_inj.mp he)

/-! ### The request of an order -/

variable {print : Printing F} {o : BncOrder F}

/-- What `create_order` writes for the type of the order. -/
def typeTexts (print : Printing F) (o : BncOrder F) : List (String × String) :=
  match o.type with
  | .LIMIT => [("timeInForce", tifToString o.timeInForce), ("price", print.fixed o.price),
      ("quantity", print.fixed o.quantity)]
  | .MARKET => [("quantity", print.fixed o.quantity)]
  | .STOP_LOSS | .TAKE_PROFIT =>
    [("quantity", print.put o.quantity), ("stopPrice", print.put o.stopPrice)]
  | .STOP_LOSS_LIMIT | .TAKE_PROFIT_LIMIT =>
    [("timeInForce", tifToString o.timeInForce), ("quantity", print.fixed o.quantity),
      ("price", print.fixed o.price), ("stopPrice", print.put o.stopPrice)]
  | .LIMIT_MAKER => [("price", print.put o.price), ("quantity", print.fixed o.quantity)]
  | .UNKNOWN => []

def orderTexts (print : Printing F) (recvWindow : ℤ) (timestamp : UInt64) (o : BncOrder F) :
    List (String × String) :=
  [("symbol", o.symbol), ("side", sideToString o.side), ("type", typeToString o.type)] ++
    typeTexts print o ++
    [("newClientOrderId", o.newClientOrderId), ("newOrderRespType", "RESULT"),
      ("timestamp", toString timestamp.toNat), ("recvWindow", toString recvWindow)]

theorem createOrderPayload_eq (print : Printing F) (recvWindow : ℤ) (timestamp : UInt64)
    (h : o.type ≠ .UNKNOWN) : createOrderPayload print recvWindow timestamp o =
      some (texts (orderTexts print recvWindow timestamp o)) := by
  have hempty : Ptree.empty = texts [] := rfl
  unfold createOrderPayload orderTexts typeTexts
  cases ht : o.type with
  | UNKNOWN => exact absurd ht h
  | _ => simp [hempty, put_texts]

theorem plainKey_orderTexts (print : Printing F) (recvWindow : ℤ) (timestamp : UInt64)
    (o : BncOrder F) : ∀ kv ∈ orderTexts print recvWindow timestamp o, PlainKey kv.1 := by
  have hkeys : ∀ key ∈ (orderTexts print recvWindow timestamp o).map Prod.fst, PlainKey key := by
    unfold orderTexts typeTexts
    cases o.type <;> simp only [List.map_append, List.map_cons, List.map_nil] <;> decide
  exact fun kv hkv => hkeys kv.1 (List.mem_map_of_mem hkv)

/-- Only the symbol and the id of an order can hold a separator. -/
theorem separated_orderTexts (hp : print.Documented) (recvWindow : ℤ) (timestamp : UInt64) :
    (∀ kv ∈ orderTexts print recvWindow timestamp o, '&' ∉ kv.2.toList) ↔
      '&' ∉ o.symbol.toList ∧ '&' ∉ o.newClientOrderId.toList := by
  have hfixed (x : F) : '&' ∉ (print.fixed x).toList := (hp.plain x).1
  have hput (x : F) : '&' ∉ (print.put x).toList := (hp.plain x).2
  have hside : '&' ∉ (sideToString o.side).toList := by
    cases o.side <;> decide
  have htype : '&' ∉ (typeToString o.type).toList := by
    cases o.type <;> decide
  have htif : '&' ∉ (tifToString o.timeInForce).toList := by
    cases o.timeInForce <;> decide
  have hresult : '&' ∉ "RESULT".toList := by decide
  have htime : '&' ∉ (toString timestamp.toNat).toList := not_mem_toString_nat (by decide) _
  have hwindow : '&' ∉ (toString recvWindow).toList :=
    not_mem_toString_int (by decide) (by decide) _
  have hnumbers : ∀ kv ∈ typeTexts print o, '&' ∉ kv.2.toList := by
    unfold typeTexts
    cases o.type <;> simp only [List.forall_mem_cons, hfixed, hput, htif, not_false_eq_true,
      true_and, List.not_mem_nil, false_implies, implies_true]
  simp only [orderTexts, List.forall_mem_append, List.forall_mem_cons, hside, htype, hresult, htime,
    hwindow, not_false_eq_true, List.not_mem_nil, false_implies, implies_true, and_true]
  exact and_congr_left' (and_iff_left hnumbers)

theorem tifToString_eq_word (tt : TimeInForce) : tifToString tt = tt.word := by
  cases tt <;> rfl

theorem typeToString_eq_word_iff (tt : OrderType) :
    typeToString tt = tt.word ↔ tt ≠ .TAKE_PROFIT_LIMIT := by
  cases tt <;> decide

theorem prints_fixed (hp : print.Documented) {x : F} (hx : print.Finite x) :
    print.Prints x (print.fixed x) := by
  obtain ⟨v, hv⟩ := hx
  obtain ⟨y, hy, hle⟩ := hp.fixed x v hv
  exact ⟨v, y, hv, hy, .inl hle⟩

theorem prints_put (hp : print.Documented) {x : F} (hx : print.Finite x) :
    print.Prints x (print.put x) := by
  obtain ⟨v, hv⟩ := hx
  obtain ⟨y, hy, hle⟩ := hp.put x v hv
  exact ⟨v, y, hv, hy, .inr hle⟩

/-- Every field of the order has its text in the request, but for a type that has none. -/
theorem exists_field (hp : print.Documented) (hn : o.Finite print) (recvWindow : ℤ)
    (timestamp : UInt64) {f : Field} (hf : f ∈ createOrderFields o.type)
    (ht : o.type ≠ .TAKE_PROFIT_LIMIT) :
    ∃ text, (texts (orderTexts print recvWindow timestamp o)).get f.parameter = .ok text ∧
      f.Tells print o text := by
  have htype : typeToString o.type = o.type.word := (typeToString_eq_word_iff _).mpr ht
  have htif : tifToString o.timeInForce = o.timeInForce.word := tifToString_eq_word _
  have hlookup : ∃ text, (orderTexts print recvWindow timestamp o).lookup f.parameter = some text ∧
      f.Tells print o text := by
    have hfinite := hn f hf
    have hfixed (x : F) : print.Finite x → print.Prints x (print.fixed x) := prints_fixed hp
    have hput (x : F) : print.Finite x → print.Prints x (print.put x) := prints_put hp
    unfold orderTexts typeTexts
    cases hk : o.type <;> rw [hk] at hf <;> simp only [createOrderFields] at hf <;>
      cases f <;> simp_all [Field.parameter, Field.Tells, BncOrder.number, List.lookup_cons]
  obtain ⟨text, hl, htells⟩ := hlookup
  exact ⟨text, get_texts hl, htells⟩

theorem survives_orderTexts (hp : print.Documented) (hmac : String → String → String)
    (secretKey : String) (recvWindow : ℤ) (timestamp : UInt64) (o : BncOrder F) :
    Survives .urlencoded hmac "/api/v3/order"
      (texts (orderTexts print recvWindow timestamp o)) secretKey ↔
        '&' ∉ o.symbol.toList ∧ '&' ∉ o.newClientOrderId.toList :=
  (survives_texts (by simp [orderTexts]) (plainKey_orderTexts print recvWindow timestamp o)).trans
    (separated_orderTexts hp recvWindow timestamp)

section Submits

variable {hmac : String → String → String} {secretKey : String} {recvWindow : ℤ}
  {timestamp : UInt64}

theorem Submits.known (h : Submits print hmac secretKey recvWindow timestamp o) :
    o.type ≠ .UNKNOWN := by
  obtain ⟨payload, hpayload, -⟩ := h
  intro ht
  simp [createOrderPayload, ht] at hpayload

theorem Submits.survives (h : Submits print hmac secretKey recvWindow timestamp o) :
    Survives .urlencoded hmac "/api/v3/order"
      (texts (orderTexts print recvWindow timestamp o)) secretKey := by
  have hknown := h.known
  obtain ⟨payload, hpayload, hs, -⟩ := h
  rw [createOrderPayload_eq print recvWindow timestamp hknown] at hpayload
  obtain rfl := Option.some.inj hpayload
  exact hs

theorem Submits.type_ne (h : Submits print hmac secretKey recvWindow timestamp o) :
    o.type ≠ .TAKE_PROFIT_LIMIT := by
  have hknown := h.known
  obtain ⟨payload, hpayload, -, hfields⟩ := h
  rw [createOrderPayload_eq print recvWindow timestamp hknown] at hpayload
  obtain rfl := Option.some.inj hpayload
  intro ht
  obtain ⟨text, hget, htells⟩ := hfields .type (by simp [ht, createOrderFields])
  have hlookup : (orderTexts print recvWindow timestamp o).lookup "type" =
      some (typeToString o.type) := rfl
  have htext : typeToString o.type = text := Except.ok.inj ((get_texts hlookup).symm.trans hget)
  exact (typeToString_eq_word_iff o.type).mp (htext.trans htells) ht

/-- A text that is read of a number is one of a finite number. -/
theorem Submits.finite (h : Submits print hmac secretKey recvWindow timestamp o) :
    o.Finite print := by
  obtain ⟨payload, -, -, hfields⟩ := h
  intro f hf x hx
  obtain ⟨text, -, htells⟩ := hfields f hf
  cases f with
  | quantity | price | stopPrice =>
    obtain rfl := Option.some.inj hx
    obtain ⟨v, -, hv, -⟩ := htells
    exact ⟨v, hv⟩
  | _ => cases hx

theorem submits_of_survives (hp : print.Documented) (hs : Survives .urlencoded hmac "/api/v3/order"
      (texts (orderTexts print recvWindow timestamp o)) secretKey) (hn : o.Finite print)
    (hknown : o.type ≠ .UNKNOWN) (ht : o.type ≠ .TAKE_PROFIT_LIMIT) :
    Submits print hmac secretKey recvWindow timestamp o :=
  ⟨_, createOrderPayload_eq print recvWindow timestamp hknown, hs,
    fun _ hf => exists_field hp hn recvWindow timestamp hf ht⟩

end Submits

/-- An order reaches the exchange as it is, its numbers to eight digits behind the point or to
seventeen digits, if and only if neither its symbol nor its id holds a separator, its numbers are
finite, and its type is known and has a text. -/
theorem submits_iff (hp : print.Documented) (hmac : String → String → String) (secretKey : String)
    (recvWindow : ℤ) (timestamp : UInt64) (o : BncOrder F) :
    Submits print hmac secretKey recvWindow timestamp o ↔
      '&' ∉ o.symbol.toList ∧ '&' ∉ o.newClientOrderId.toList ∧ o.Finite print ∧
        o.type ≠ .UNKNOWN ∧ o.type ≠ .TAKE_PROFIT_LIMIT := by
  have hsurvives := survives_orderTexts hp hmac secretKey recvWindow timestamp o
  constructor
  · intro h
    obtain ⟨hsymbol, hid⟩ := hsurvives.mp h.survives
    exact ⟨hsymbol, hid, h.finite, h.known, h.type_ne⟩
  · rintro ⟨hsymbol, hid, hn, hknown, ht⟩
    exact submits_of_survives hp (hsurvives.mpr ⟨hsymbol, hid⟩) hn hknown ht

/-! ### Exact numbers -/

/-- Whole numbers without a point, others to as many digits as their denominator asks for. -/
def decimals : Printing ℚ where
  fixed := decimal 8
  put x := if x.den = 1 then toString x.num else decimal (17 + Nat.log 10 x.den) x
  value := some

theorem not_mem_decimal (n : ℕ) (x : ℚ) : '&' ∉ (decimal n x).toList := by
  have hnat (n : ℕ) : '&' ∉ (toString n).toList := not_mem_toString_nat (by decide) n
  have hsign (b : Bool) : '&' ∉ (if b then "-" else "").toList := by
    cases b <;> decide
  have hpad (n : ℕ) (s : String) (hs : '&' ∉ s.toList) :
      '&' ∉ (Python.Rational.padLeft n s).toList := by
    simp [Python.Rational.padLeft, hs]
  have hpoint : '&' ∉ ".".toList := by decide
  have hsign := hsign (decide (Python.Rational.roundHalfEven (x * 10 ^ n) < 0))
  simp only [decide_eq_true_eq] at hsign
  simp only [decimal, String.toList_append, List.mem_append, not_or]
  exact ⟨⟨⟨hsign, hnat _⟩, hpoint⟩, hpad n _ (hnat _)⟩

/-- A fraction is not smaller than its denominator allows. -/
theorem one_le_abs_mul_pow {x : ℚ} (hx : x.den ≠ 1) : 1 ≤ |x| * 10 ^ (Nat.log 10 x.den + 1) := by
  have hnum : x.num ≠ 0 := fun h => hx (Rat.zero_iff_num_zero.mpr h ▸ rfl)
  have hden : (0 : ℚ) < x.den := by exact_mod_cast x.den_pos
  have habs : |x| * x.den = |x.num| := by
    rw [← abs_of_pos hden, ← abs_mul, Rat.mul_den_eq_num, Int.cast_abs]
  have hone : (1 : ℚ) ≤ |x.num| := by exact_mod_cast Int.one_le_abs hnum
  have hlog : (x.den : ℚ) ≤ 10 ^ (Nat.log 10 x.den + 1) := by
    exact_mod_cast (Nat.lt_pow_succ_log_self (by decide) x.den).le
  calc (1 : ℚ) ≤ |x| * x.den := by rw [habs]; exact_mod_cast hone
    _ ≤ |x| * 10 ^ (Nat.log 10 x.den + 1) := by gcongr

theorem documented_decimals : decimals.Documented where
  fixed x v hv := by
    obtain rfl := Option.some.inj hv
    refine ⟨_, ofChars_decimal (by decide) x, (abs_roundTo_sub_le x 8).trans (le_of_eq ?_)⟩
    norm_num
  put x v hv := by
    obtain rfl := Option.some.inj hv
    by_cases hx : x.den = 1
    · have hput : decimals.put x = toString x.num := if_pos hx
      rw [hput]
      refine ⟨_, ofChars_toString x.num, ?_⟩
      rw [Rat.den_eq_one_iff x |>.mp hx, sub_self, abs_zero]
      positivity
    · have hput : decimals.put x = decimal (17 + Nat.log 10 x.den) x := if_neg hx
      rw [hput]
      refine ⟨_, ofChars_decimal (by omega) x, (abs_roundTo_sub_le x _).trans ?_⟩
      have hone := one_le_abs_mul_pow hx
      have hpow : (10 : ℚ) ^ (17 + Nat.log 10 x.den) = 10 ^ 16 * 10 ^ (Nat.log 10 x.den + 1) := by
        rw [← pow_add]
        congr 1
        omega
      rw [hpow, div_div, div_le_div_iff₀ (by positivity) (by positivity)]
      nlinarith
  plain x := by
    refine ⟨not_mem_decimal 8 x, ?_⟩
    simp only [decimals]
    split
    · exact not_mem_toString_int (by decide) (by decide) _
    · exact not_mem_decimal _ x

/-- An order with a stop arrives; one to take a profit at the same limit does not. -/
theorem submits_takeProfitLimit : decimals.Documented ∧
    Submits decimals (fun _ _ => "5F3A") "key" 5000 1605556800000
      ⟨"BTCUSDT", "mine", .SELL, .STOP_LOSS_LIMIT, .GTC, 1 / 4, 9000, 8900⟩ ∧
    ¬Submits decimals (fun _ _ => "5F3A") "key" 5000 1605556800000
      ⟨"BTCUSDT", "mine", .SELL, .TAKE_PROFIT_LIMIT, .GTC, 1 / 4, 9000, 8900⟩ := by
  refine ⟨documented_decimals, ?_, fun h => ?_⟩
  · exact (submits_iff documented_decimals _ _ _ _ _).mpr
      ⟨by decide, by decide, fun _ _ x _ => ⟨x, rfl⟩, by decide, by decide⟩
  · exact ((submits_iff documented_decimals _ _ _ _ _).mp h).2.2.2.2 rfl

end BotTrader.Order
