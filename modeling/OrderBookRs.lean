import OrderBookRs.AdmissionOrder
import OrderBookRs.AmountReport
import OrderBookRs.BulkCancel
import OrderBookRs.CoveredTaker
import OrderBookRs.Displayed
import OrderBookRs.Eviction
import OrderBookRs.Fees
import OrderBookRs.KillSwitch
import OrderBookRs.LevelStream
import OrderBookRs.Lifecycle
import OrderBookRs.Manager
import OrderBookRs.Predictions
import OrderBookRs.QuoteBudget
import OrderBookRs.RepricedPrices
import OrderBookRs.RiskExact
import OrderBookRs.RoundTrip
import OrderBookRs.Sequencer.FailedAppend
import OrderBookRs.Sequencer.ParserAgreement
import OrderBookRs.Sequencer.ReplayFaithful
import OrderBookRs.Simulation
import OrderBookRs.TrackerBounds
import OrderBookRs.WireFraming
import OrderBookRs.Index
import OrderBookRs.LotAlignment
import OrderBookRs.ModifyQuantity
import OrderBookRs.PostOnly
import OrderBookRs.RestoreChecks
import OrderBookRs.ValidateFirst
