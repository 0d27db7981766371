import BotTrader.Https.Connection

/-! What the client asks of its proxy. The request has no user, and in the place of an address
one that is none: then the name of the host follows, up to a zero byte. The reader is written
from what such a request means to a proxy. -/

namespace BotTrader.Https

/-- An address of four bytes, with a port. -/
structure Endpoint where
  address : UInt8 × UInt8 × UInt8 × UInt8
  port : UInt16

/-- `socks4::request` -/
structure SocksRequest where
  command : UInt8
  portHighByte : UInt8
  portLowByte : UInt8
  address : UInt8 × UInt8 × UInt8 × UInt8
  userId : List UInt8

namespace SocksRequest

/-- The constructor with an endpoint. -/
def ofEndpoint (command : UInt8) (endpoint : Endpoint) (userId : List UInt8) : SocksRequest where
  command := command
  portHighByte := (endpoint.port >>> 8).toUInt8
  portLowByte := endpoint.port.toUInt8
  address := endpoint.address
  userId := userId

/-- `buffers_ep`, which sets the endpoint first -/
def buffersEp (r : SocksRequest) (endpoint : Endpoint) : List UInt8 :=
  let r := { r with
    portHighByte := (endpoint.port >>> 8).toUInt8
    portLowByte := endpoint.port.toUInt8
    address := endpoint.address }
  let (a, b, c, d) := r.address
  [4, r.command, r.portHighByte, r.portLowByte, a, b, c, d, 0] ++ r.userId ++ [0]

end SocksRequest

/-- What `on_connect_proxy` writes. -/
def proxyRequest (host : List UInt8) : List UInt8 :=
  let endpoint : Endpoint := ⟨(0, 0, 0, 1), 443⟩
  (SocksRequest.ofEndpoint 1 endpoint host).buffersEp endpoint

/-! ### The proxy -/

/-- What a proxy is asked. -/
structure Asked where
  command : UInt8
  port : UInt16
  user : List UInt8
  host : List UInt8
  deriving DecidableEq

/-- A text up to its zero byte, and the rest. -/
def readText : List UInt8 → Option (List UInt8 × List UInt8)
  | [] => none
  | b :: bs => if b = 0 then some ([], bs) else (readText bs).map fun x => (b :: x.1, x.2)

/-- A request with the name of a host. -/
def readAsked : List UInt8 → Option (Asked × List UInt8)
  | version :: command :: high :: low :: a :: b :: c :: d :: bs => do
    if version = 4 ∧ a = 0 ∧ b = 0 ∧ c = 0 ∧ d ≠ 0 then
      let (user, bs) ← readText bs
      let (host, bs) ← readText bs
      return (⟨command, high.toUInt16 <<< 8 ||| low.toUInt16, user, host⟩, bs)
    else none
  | _ => none

theorem readText_append {text : List UInt8} (h : 0 ∉ text) (bs : List UInt8) :
    readText (text ++ 0 :: bs) = some (text, bs) := by
  induction text with
  | nil => rfl
  | cons b text ih =>
    rw [List.mem_cons, not_or] at h
    rw [List.cons_append, readText, if_neg (Ne.symm h.1), ih h.2]
    rfl

theorem notMem_of_readText {bs : List UInt8} {x : List UInt8 × List UInt8}
    (h : readText bs = some x) : 0 ∉ x.1 := by
  induction bs generalizing x with
  | nil => cases h
  | cons b bs ih =>
    rw [readText] at h
    split at h
    · rw [← Option.some.inj h]
      exact List.not_mem_nil
    · next hb =>
      obtain ⟨y, hy, rfl⟩ := Option.map_eq_some_iff.mp h
      exact fun hm => (List.mem_cons.mp hm).elim (fun e => hb e.symm) (ih hy)

/-- Two bytes make the port that they were made of. -/
theorem port_eq (port : UInt16) :
    (port >>> 8).toUInt8.toUInt16 <<< 8 ||| port.toUInt8.toUInt16 = port := by
  have hlt : port.toNat < 2 ^ 16 := port.toNat_lt
  have hlow : port.toNat % 2 ^ 8 < 2 ^ 8 := Nat.mod_lt _ (by decide)
  have hhigh : port.toNat >>> 8 < 2 ^ 8 := by
    rw [Nat.shiftRight_eq_div_pow]
    omega
  apply UInt16.toNat.inj
  simp only [UInt16.toNat_or, UInt16.toNat_shiftLeft, UInt8.toNat_toUInt16, UInt16.toNat_toUInt8,
    UInt16.toNat_shiftRight]
  have h8 : (8 : UInt16).toNat % 16 = 8 := rfl
  rw [h8, Nat.mod_eq_of_lt hhigh, Nat.shiftLeft_eq,
    Nat.mod_eq_of_lt (by omega : port.toNat >>> 8 * 2 ^ 8 < 2 ^ 16), ← Nat.shiftLeft_eq,
    ← Nat.shiftLeft_add_eq_or_of_lt hlow, Nat.shiftLeft_eq, Nat.shiftRight_eq_div_pow]
  omega

/-- The proxy reads the command, the port and the host that the request was made of, if and only
if no zero byte is in the name of the host; the address stands for none. -/
theorem readAsked_iff (command d : UInt8) (port : UInt16) (host rest : List UInt8) (hd : d ≠ 0) :
    let endpoint : Endpoint := ⟨(0, 0, 0, d), port⟩
    readAsked ((SocksRequest.ofEndpoint command endpoint host).buffersEp endpoint ++ rest) =
      some (⟨command, port, [], host⟩, rest) ↔ 0 ∉ host := by
  intro endpoint
  have hbytes : (SocksRequest.ofEndpoint command endpoint host).buffersEp endpoint ++ rest =
      4 :: command :: (port >>> 8).toUInt8 :: port.toUInt8 :: 0 :: 0 :: 0 :: d :: 0 ::
        (host ++ 0 :: rest) := by
    simp [SocksRequest.buffersEp, SocksRequest.ofEndpoint, endpoint]
  rw [hbytes]
  simp only [readAsked, readText, port_eq]
  constructor
  · intro h
    cases hr : readText (host ++ 0 :: rest) with
    | none => simp [hr] at h
    | some x =>
      have hhost : x.1 = host := by
        simpa [hr, hd] using congrArg (Option.map fun y => y.1.host) h
      exact hhost ▸ notMem_of_readText hr
  · intro h
    simp [readText_append h, hd]

/-- The request of the client names the host and the port 443. -/
theorem readAsked_binance : (1 : UInt8) ≠ 0 ∧
    (readAsked (proxyRequest [97, 112, 105]) = some (⟨1, 443, [], [97, 112, 105]⟩, []) ↔
      0 ∉ ([97, 112, 105] : List UInt8)) :=
  ⟨by decide, by simpa [proxyRequest] using readAsked_iff 1 1 443 [97, 112, 105] [] (by decide)⟩

end BotTrader.Https
