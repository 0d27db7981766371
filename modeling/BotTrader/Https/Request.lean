import BotTrader.Boost.Ptree

/-! Requests and responses of the HTTPS client. Of a request its method and target are
kept; the header fields and the body are for the server alone. -/

namespace BotTrader.Https

open Boost

/-- `http::verb` -/
inductive Verb where
  | get | post | put | delete_
  deriving DecidableEq, Repr

structure Request where
  method : Verb
  target : String
  deriving DecidableEq

/-- A response, with the tree that its body parses to, if the parser accepts it. A
response that was never read is `ok` and empty. -/
structure Response where
  status : ℕ := 200
  body : Option Ptree := none

/-- What stands before the first `pat`. -/
def before (pat : List Char) : List Char → Option (List Char)
  | [] => if pat = [] then some [] else none
  | c :: cs => if pat.isPrefixOf (c :: cs) then some [] else (before pat cs).map (c :: ·)

/-- `text.substr(0, text.find(pat))`, or nothing if the text has no `pat`. -/
def substrBefore (text pat : String) : Option String :=
  (before pat.toList text.toList).map String.ofList

/-- `std::string::npos != text.find(pat)` -/
def contains (text pat : String) : Bool := (substrBefore text pat).isSome

/-- The parameters of a payload, each with an ampersand behind it. -/
def parameters (payload : Ptree) : String :=
  String.join (payload.children.map fun rv => rv.1 ++ "=" ++ rv.2.data ++ "&")

/-- The target of a request with `ContentType::nocontent`. Without a key to sign with,
the ampersand at the end is removed. -/
def nocontent (hmac : String → String → String) (target : String) (payload : Ptree)
    (secretKey : String) : String :=
  let params := parameters payload
  let params :=
    if secretKey ≠ "" then params ++ "&signature=" ++ hmac secretKey params
    else String.ofList params.toList.dropLast
  if params ≠ "" then target ++ "?" ++ params else target

end BotTrader.Https
