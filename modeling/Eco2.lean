import Eco2.Atomicity
import Eco2.StandardLedger
import Eco2.StandardSupply
import Eco2.MintAuthority
import Eco2.Supply
import Eco2.CarbonEscrow
import Eco2.BidPayout
import Eco2.ThirdParty
import Eco2.Integrity
import Eco2.Permanence
import Eco2.BurnRequests
import Eco2.ApprovalEvents
import Eco2.OrderIds
import Eco2.Worker
import Eco2.FirstWrite
import Eco2.EventsListener
import Eco2.CrashRecovery
import Eco2.Sessions
import Eco2.CurrencyToVote
import Eco2.SessionKeys
import Eco2.Transfers
import Eco2.OverIssue
import Eco2.Preimages
import Eco2.Deliveries
import Eco2.BurnApprovals
import Eco2.ChainLog
import Eco2.Proposals
import Eco2.Holdings
import Eco2.Catalogue
import Eco2.Documents
import Eco2.CatalogueRecovery
import Eco2.Directory
import Eco2.Mirror
import Eco2.Submissions
import Eco2.WindUp
import Eco2.OrderQueries
import Eco2.Fills
import Eco2.Market
import Eco2.MarketRefinement
import Eco2.Statements
