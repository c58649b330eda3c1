import Vaulta.Chain
import Vaulta.Machine
import Vaulta.Agents
import Vaulta.MultiIndex
import Vaulta.Action
import Vaulta.Ledger
import Vaulta.Token
import Vaulta.System
import Vaulta.Transaction
import Vaulta.Balances
import Vaulta.Effects
import Vaulta.Movements
import Vaulta.Sends
import Vaulta.Conservation
import Vaulta.TokenLedger
import Vaulta.Supply
import Vaulta.Peg
import Vaulta.Swaps
import Vaulta.Authority
import Vaulta.Release
import Vaulta.Billing
import Vaulta.Trace
import Vaulta.Blocked
import Vaulta.Refinement
import Vaulta.Wrappers
import Vaulta.Forwarding
import Vaulta.Depth
import Vaulta.PathIndependence
import Vaulta.Value
import Vaulta.Swapto
import Vaulta.Calls
import Vaulta.Quote
import Vaulta.Excess
import Vaulta.Weave
import Vaulta.Interleaving
import Vaulta.Exchange
import Vaulta.Settled
import Vaulta.BlockList
import Vaulta.Bystanders
import Vaulta.Redemption
import Vaulta.Rounding
import Vaulta.Bancor
import Vaulta.Mocksys
import Vaulta.Fold
import Vaulta.MockEffects
import Vaulta.Stakes
import Vaulta.MockChain
import Vaulta.MockLaws
import Vaulta.TestRuns
import Vaulta.Wealth
import Vaulta.Proceeds
import Vaulta.Rex
