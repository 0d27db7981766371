import BotTrader.Automata.Machine
import BotTrader.Automata.Handler
import BotTrader.Automata.Fleet
import BotTrader.Automata.Balance
import BotTrader.Automata.WriteAhead
import BotTrader.Cpp.Int
import BotTrader.Python.Runtime
import BotTrader.Python.Rational
import BotTrader.Strategy.Events
import BotTrader.Control.Machine
import BotTrader.Strategy.EventSpecs
import BotTrader.Control.Refinement
import BotTrader.Strategy.Messages
import BotTrader.Control.Stop
import BotTrader.Control.OrderIds
import BotTrader.Control.Cycle
import BotTrader.Control.Reports
import BotTrader.Control.Channels
import BotTrader.Market.Timer
import BotTrader.Market.Exchange
import BotTrader.Https.SingleFlight
import BotTrader.Https.Resubmission
import BotTrader.Web.Receive
import BotTrader.Web.Admin
import BotTrader.Web.Access
import BotTrader.Web.Influence
import BotTrader.Binance.PriceTimer
import BotTrader.Binance.UserStream
import BotTrader.Telegram.Updates
import BotTrader.Telegram.Restart
import BotTrader.Control.Trigger
import BotTrader.Control.Commission
import BotTrader.Control.Ledger
import BotTrader.Strategy.Requests
import BotTrader.Strategy.Funds
import BotTrader.Binance.Routing
import BotTrader.Binance.UserMessages
import BotTrader.Order.Verdict
import BotTrader.Order.Exits
import BotTrader.Order.Keyboards
import BotTrader.Order.Replies
import BotTrader.Order.Submission
import BotTrader.Application.Liveness
import BotTrader.Web.Writer
import BotTrader.Web.Session
import BotTrader.Web.Site
import BotTrader.Application.Report
import BotTrader.Https.Parameters
import BotTrader.Web.Encode
import BotTrader.Application.Streams
import BotTrader.Application.Journal
import BotTrader.Https.Cleanup
import BotTrader.Strategy.RoundAtStep
import BotTrader.Strategy.Deliveries
import BotTrader.Strategy.Labels
import BotTrader.Strategy.Isolation
import BotTrader.Application.Timers
import BotTrader.Application.TimersEnd
import BotTrader.Application.Trading
import BotTrader.Application.Commands
import BotTrader.Application.Orders
import BotTrader.Application.Fills
import BotTrader.Application.Leaving
import BotTrader.Application.Confirmation
import BotTrader.Application.Dialogue
import BotTrader.Https.Proxy
