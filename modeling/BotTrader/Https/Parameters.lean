import BotTrader.Https.Request
import BotTrader.Text.Fields
import BotTrader.Text.Number

/-! Whether the parameters of a request reach the server as they are. Neither kind of
content encodes them, so that a key or a value that holds one of the separators is read as
something else, under a valid signature. -/

namespace BotTrader.Https

open Boost Text

/-- The kinds of content that write the payload as a text of parameters. -/
inductive ContentType where
  | nocontent | urlencoded
  deriving DecidableEq

/-- The body of a request with `ContentType::urlencoded`; there is none for an empty payload,
as `pop_back` on an empty string is undefined. -/
def urlencoded (hmac : String → String → String) (payload : Ptree) (secretKey : String) :
    Option String :=
  let params := parameters payload
  if params = "" then none
  else
    let params := String.ofList params.toList.dropLast
    some (if secretKey ≠ "" then params ++ "&signature=" ++ hmac secretKey params else params)

/-- The text of parameters that `request` emits: the body, or what stands behind the target
and the question mark. -/
def parameterText (content : ContentType) (hmac : String → String → String) (target : String)
    (payload : Ptree) (secretKey : String) : Option String :=
  match content with
  | .urlencoded => urlencoded hmac payload secretKey
  | .nocontent =>
    some (String.ofList
      ((nocontent hmac target payload secretKey).toList.drop (target.toList.length + 1)))

/-- The keys and values of a payload. -/
def pairs (payload : Ptree) : List (List Char × List Char) :=
  payload.children.map fun rv => (rv.1.toList, rv.2.data.toList)

/-- What stands before the signature. -/
def signedPart (text : List Char) : List Char := upTo "&signature=".toList text

/-- The server reads the payload, and the signature is that of the text it reads. -/
def Survives (content : ContentType) (hmac : String → String → String) (target : String)
    (payload : Ptree) (secretKey : String) : Prop :=
  ∃ text, parameterText content hmac target payload secretKey = some text ∧
    readFields '&' '=' (signedPart text.toList) = pairs payload ∧
    (secretKey ≠ "" → text.toList = signedPart text.toList ++ "&signature=".toList ++
      (hmac secretKey (String.ofList (signedPart text.toList))).toList)

/-- No key or value holds a separator, and no parameter behind the first one passes for the
signature. -/
structure CleanPayload (payload : Ptree) : Prop where
  fields : ∀ kv ∈ pairs payload, CleanField '&' '=' kv
  unsigned : ∀ kv ∈ (pairs payload).tail, kv.1 ≠ "signature".toList

variable {hmac : String → String → String} {target secretKey : String} {payload : Ptree}

theorem toList_parameters (payload : Ptree) :
    (parameters payload).toList = (pairs payload).flatMap fun kv => field '=' kv ++ ['&'] := by
  simp [parameters, pairs, List.flatMap_map, field]

theorem parameters_eq {kv : List Char × List Char} {kvs : List (List Char × List Char)}
    (h : pairs payload = kv :: kvs) :
    (parameters payload).toList = field '=' kv ++ fieldsAfter '&' '=' kvs ++ ['&'] := by
  rw [toList_parameters, h]
  clear h
  induction kvs generalizing kv with
  | nil => simp [fieldsAfter]
  | cons next kvs ih =>
    have hnext : (next :: kvs).flatMap (fun kv => field '=' kv ++ ['&']) =
        field '=' next ++ fieldsAfter '&' '=' kvs ++ ['&'] := ih
    rw [List.flatMap_cons, hnext]
    simp [fieldsAfter]

theorem drop_question (target params : String) :
    String.ofList ((if params ≠ "" then target ++ "?" ++ params else target).toList.drop
      (target.toList.length + 1)) = params := by
  by_cases h : params = ""
  · simp [h]
  · rw [if_pos h, String.toList_append, String.toList_append]
    have hl : (target.toList ++ "?".toList).length = target.toList.length + 1 := by simp
    rw [← hl, List.drop_left, String.ofList_toList]

theorem parameterText_nocontent (hmac : String → String → String) (target : String)
    (payload : Ptree) (secretKey : String) :
    parameterText .nocontent hmac target payload secretKey =
      some (if secretKey ≠ "" then
        parameters payload ++ "&signature=" ++ hmac secretKey (parameters payload)
      else String.ofList (parameters payload).toList.dropLast) :=
  congrArg some (drop_question target _)

/-- The separator that is left behind the last parameter when the text is signed. -/
def trailing (secretKey : String) : ContentType → List Char
  | .urlencoded => []
  | .nocontent => if secretKey = "" then [] else ['&']

/-- What is emitted behind the text that is signed. -/
def signature (hmac : String → String → String) (secretKey : String) (signed : List Char) :
    List Char :=
  if secretKey = "" then []
  else "&signature=".toList ++ (hmac secretKey (String.ofList signed)).toList

theorem parameterText_eq (hmac : String → String → String) (target secretKey : String)
    {kv : List Char × List Char} {kvs : List (List Char × List Char)}
    (h : pairs payload = kv :: kvs) (content : ContentType) :
    ∃ text, parameterText content hmac target payload secretKey = some text ∧
      text.toList = field '=' kv ++ fieldsAfter '&' '=' kvs ++
        (trailing secretKey content ++ signature hmac secretKey
          (field '=' kv ++ fieldsAfter '&' '=' kvs ++ trailing secretKey content)) := by
  have hp := parameters_eq h
  have hd : (parameters payload).toList.dropLast = field '=' kv ++ fieldsAfter '&' '=' kvs := by
    rw [hp, List.dropLast_concat]
  have hne : parameters payload ≠ "" := by
    intro he
    simp [he] at hp
  have he : String.ofList (field '=' kv ++ fieldsAfter '&' '=' kvs ++ ['&']) =
      parameters payload := by rw [← hp, String.ofList_toList]
  cases content with
  | urlencoded =>
    refine ⟨_, if_neg hne, ?_⟩
    rw [hd]
    by_cases hs : secretKey = "" <;> simp [hs, trailing, signature]
  | nocontent =>
    refine ⟨_, parameterText_nocontent hmac target payload secretKey, ?_⟩
    by_cases hs : secretKey = ""
    · simp [hs, hd, trailing, signature]
    · have ht : trailing secretKey .nocontent = ['&'] := if_neg hs
      rw [ht, signature, if_neg hs, he, if_pos hs, String.toList_append, String.toList_append, hp]
      simp

/-- The signature is found behind what was signed. -/
theorem signedPart_ending (hmac : String → String → String) (secretKey : String)
    (content : ContentType) (signed : List Char) :
    signedPart (trailing secretKey content ++ signature hmac secretKey signed) =
      trailing secretKey content := by
  by_cases hs : secretKey = "" <;> cases content <;>
    simp [hs, signedPart, trailing, signature, upTo]

/-- What is read is always clean, whatever the payload was. -/
theorem Survives.fields {content : ContentType}
    (h : Survives content hmac target payload secretKey) :
    ∀ kv ∈ pairs payload, CleanField '&' '=' kv := by
  obtain ⟨text, -, hr, -⟩ := h
  intro kv hkv
  rw [← hr] at hkv
  exact clean_of_mem_readFields hkv

theorem survives_of_empty (h : pairs payload = []) (content : ContentType) :
    Survives content hmac target payload secretKey ↔ content ≠ .urlencoded := by
  have hp : parameters payload = "" := by
    have ht := toList_parameters payload
    rw [h] at ht
    exact String.toList_eq_nil_iff.mp ht
  cases content with
  | urlencoded => simp [Survives, parameterText, urlencoded, hp]
  | nocontent =>
    by_cases hs : secretKey = "" <;>
      simp [Survives, parameterText_nocontent, hp, hs, h, signedPart, upTo, readFields]

/-- A clean payload is read up to the parameter that passes for the signature. -/
theorem survives_of_clean {kv : List Char × List Char} {kvs : List (List Char × List Char)}
    (h : pairs payload = kv :: kvs) (hc : ∀ x ∈ kv :: kvs, CleanField '&' '=' x)
    (content : ContentType) :
    Survives content hmac target payload secretKey ↔ ∀ x ∈ kvs, x.1 ≠ "signature".toList := by
  obtain ⟨text, ht, htext⟩ := parameterText_eq hmac target secretKey h content
  have hpat : "&signature=".toList = '&' :: ("signature".toList ++ ['=']) := by decide
  have hz : trailing secretKey content = [] ∨ trailing secretKey content = ['&'] := by
    by_cases hs : secretKey = "" <;> cases content <;> simp [hs, trailing]
  have hcut := signedPart_ending hmac secretKey content
    (field '=' kv ++ fieldsAfter '&' '=' kvs ++ trailing secretKey content)
  generalize trailing secretKey content = z at *
  have hsigned : signedPart text.toList =
      field '=' kv ++ fieldsAfter '&' '=' (kvs.takeWhile (·.1 ≠ "signature".toList)) ++
        if ∀ x ∈ kvs, x.1 ≠ "signature".toList then z else [] := by
    rw [htext, signedPart, hpat, upTo_fields (by decide) (by decide) hc, ← hpat]
    exact congrArg (fun u => _ ++ if ∀ x ∈ kvs, x.1 ≠ "signature".toList then u else []) hcut
  constructor
  · intro hsurv
    obtain ⟨text', ht', hr, -⟩ := hsurv
    obtain rfl : text = text' := Option.some.inj (ht.symm.trans ht')
    by_contra hn
    have htake : ∀ x ∈ kv :: kvs.takeWhile (·.1 ≠ "signature".toList), CleanField '&' '=' x := by
      intro x hx
      rcases List.mem_cons.mp hx with rfl | hx
      · exact hc x List.mem_cons_self
      · exact hc x (List.mem_cons_of_mem kv ((List.takeWhile_prefix _).subset hx))
    rw [hsigned, if_neg hn, readFields_fields (by decide) (.inl rfl) htake, h] at hr
    have hall := List.takeWhile_eq_self_iff.mp (List.cons.inj hr).2
    exact hn fun x hx => of_decide_eq_true (hall x hx)
  · intro hu
    have htake : kvs.takeWhile (·.1 ≠ "signature".toList) = kvs :=
      List.takeWhile_eq_self_iff.mpr fun x hx => decide_eq_true (hu x hx)
    rw [if_pos hu, htake] at hsigned
    refine ⟨text, ht, ?_, ?_⟩
    · rw [hsigned, readFields_fields (by decide) hz hc, h]
    · intro hs
      rw [hsigned, htext, signature, if_neg hs]
      simp

/-! ### Orders -/

/-- The payload of `delete_order`, whose id and symbol come from the user. -/
def deleteOrderPayload (orderId symbol : String) (recvWindow : ℤ) (timestamp : UInt64) : Ptree :=
  let pt := Ptree.empty.put "symbol" symbol
  let pt := pt.put "origClientOrderId" orderId
  let pt := pt.put "recvWindow" (toString recvWindow)
  pt.put "timestamp" (toString timestamp.toNat)

theorem deletes_iff (orderId symbol : String) (recvWindow : ℤ) (timestamp : UInt64) :
    Survives .urlencoded hmac "/api/v3/order"
      (deleteOrderPayload orderId symbol recvWindow timestamp) secretKey ↔
        '&' ∉ orderId.toList ∧ '&' ∉ symbol.toList := by
  have hp : pairs (deleteOrderPayload orderId symbol recvWindow timestamp) =
      [("symbol".toList, symbol.toList), ("origClientOrderId".toList, orderId.toList),
        ("recvWindow".toList, (toString recvWindow).toList),
        ("timestamp".toList, (toString timestamp.toNat).toList)] := by
    simp [pairs, deleteOrderPayload, Ptree.put, Ptree.putIn, Ptree.empty, Ptree.children,
      Ptree.data]
  constructor
  · intro hs
    have hf := hs.fields
    rw [hp, List.forall_mem_cons, List.forall_mem_cons] at hf
    exact ⟨hf.2.1.value, hf.1.value⟩
  · rintro ⟨ho, hs⟩
    have hw := not_mem_toString_int (c := '&') (by decide) (by decide) recvWindow
    have ht := not_mem_toString_nat (c := '&') (by decide) timestamp.toNat
    apply (survives_of_clean hp _ .urlencoded).mpr
    · simp only [List.forall_mem_cons]
      exact ⟨by decide, by decide, by decide, by simp⟩
    · have clean : ∀ {k : String} {v : List Char}, '&' ∉ k.toList → '=' ∉ k.toList → '&' ∉ v →
          CleanField '&' '=' (k.toList, v) := fun hk hj hv => ⟨hk, hj, hv⟩
      simp only [List.forall_mem_cons]
      exact ⟨clean (by decide) (by decide) hs, clean (by decide) (by decide) ho,
        clean (by decide) (by decide) hw, clean (by decide) (by decide) ht, by simp⟩

/-- An order id with a separator puts a parameter of its own under the signature. -/
theorem not_survives_injected :
    ¬Survives .urlencoded (fun _ _ => "5F3A") "/api/v3/order"
      (deleteOrderPayload "x&symbol=ETHUSDT" "BTCUSDT" 5000 1605556800000) "key" := by
  intro hs
  have hf := (deletes_iff _ _ _ _).mp hs
  exact hf.1 (by decide)

/-- The parameters of a request survive, under a signature of what the server reads, exactly
when no key or value holds a separator and no key passes for the signature. The urlencoded
body of an empty payload is undefined. -/
theorem survives_iff (content : ContentType) (hmac : String → String → String)
    (target : String) (payload : Ptree) (secretKey : String) :
    Survives content hmac target payload secretKey ↔
      CleanPayload payload ∧ (content = .urlencoded → payload.children ≠ []) := by
  cases hp : pairs payload with
  | nil =>
    have hch : payload.children = [] := List.map_eq_nil_iff.mp hp
    have hclean : CleanPayload payload := by constructor <;> simp [hp]
    simp [survives_of_empty hp, hclean, hch]
  | cons kv kvs =>
    have hch : payload.children ≠ [] := by
      intro hn
      simp [pairs, hn] at hp
    constructor
    · intro hs
      have hc : ∀ x ∈ kv :: kvs, CleanField '&' '=' x := hp ▸ hs.fields
      refine ⟨⟨hs.fields, ?_⟩, fun _ => hch⟩
      rw [hp, List.tail_cons]
      exact (survives_of_clean hp hc content).mp hs
    · rintro ⟨hc, -⟩
      have hu := hc.unsigned
      rw [hp, List.tail_cons] at hu
      exact (survives_of_clean hp (hp ▸ hc.fields) content).mpr hu

end BotTrader.Https
