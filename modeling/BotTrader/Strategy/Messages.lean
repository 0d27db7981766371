import BotTrader.Python.Rational
import BotTrader.Strategy.HandlerSpecs

/-! The messages that reach a symbol, as their senders build them: the commands
of the web client, and the order reports of the two channels. The property tree
that writes the reports prints every value as a string. -/

namespace BotTrader.Strategy

open Python

variable {F : Type}

/-- A trade-data message that stages the values of both sides. -/
def setData (buyTrigger buyPrice sellTrigger sellPrice quantity : String) : Dict F :=
  [("a", .str "set"), ("B", .obj [("t", .str buyTrigger), ("p", .str buyPrice)]),
    ("S", .obj [("t", .str sellTrigger), ("p", .str sellPrice)]), ("q", .str quantity)]

/-- A trade-run message. -/
def command (a p : String) : Dict F := [("a", .str a), ("p", .str p)]

/-- The report that `http_data_handler` makes of the answer to an order request. -/
def httpReport (symbol status id timeInForce side type : String) : Dict F :=
  [("e", .str "executionReport"), ("s", .str symbol), ("X", .str status), ("c", .str id),
    ("f", .str timeInForce), ("S", .str side), ("o", .str type)]

/-- The fields of a user-stream report that the script reads. -/
def streamReport (symbol status id asset n p : String) : Dict F :=
  [("e", .str "executionReport"), ("s", .str symbol), ("c", .str id), ("p", .str p),
    ("X", .str status), ("n", .str n), ("N", .str asset)]

@[simp] theorem textAt_httpReport_c (symbol status id f side type : String) :
    textAt (httpReport symbol status id f side type : Dict F) "c" = some id := rfl

@[simp] theorem textAt_httpReport_X (symbol status id f side type : String) :
    textAt (httpReport symbol status id f side type : Dict F) "X" = some status := rfl

@[simp] theorem textAt_streamReport_X (symbol status id asset n p : String) :
    textAt (streamReport symbol status id asset n p : Dict F) "X" = some status := rfl

/-! ### A first trade -/

/-- An order is placed at the trigger. -/
def placedOrder : List (Event ℚ) :=
  [.tradeData (setData "10" "10" "20" "20" "1"), .tradeRun (command "start" "BUY"),
    .price (.str "9"), .price (.str "11")]

def newReport : Dict ℚ := streamReport "BTCUSDT" "NEW" "order_USDT_to_BTC_0" "BNB" "0" "10"

def filledReport : Dict ℚ :=
  streamReport "BTCUSDT" "FILLED" "order_USDT_to_BTC_0" "BNB" "0.001" "10"

def canceledReport : Dict ℚ :=
  streamReport "BTCUSDT" "CANCELED" "order_USDT_to_BTC_0" "BNB" "0" "10"

/-- The answer to the order request, after the order was filled. -/
def filledAnswer : Dict ℚ :=
  httpReport "BTCUSDT" "FILLED" "order_USDT_to_BTC_0" "GTC" "BUY" "LIMIT"

/-- The order is confirmed. -/
def confirmedOrder : List (Event ℚ) := placedOrder ++ [.orderReport newReport]

end BotTrader.Strategy
