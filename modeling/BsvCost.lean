import BsvCost.Types
import BsvCost.CostModel
import BsvCost.Sighash
import BsvCost.Estimator
import BsvCost.Step
import BsvCost.Run
import BsvCost.Invariants
import BsvCost.Decode
import BsvCost.Walk
import BsvCost.Ledger
import BsvCost.Accounts
import BsvCost.ModelFile
import BsvCost.Extension
import BsvCost.StackBytes
import BsvCost.Reference
import BsvCost.Limits
import BsvCost.Payload
import BsvCost.ByteOps
import BsvCost.Harness
import BsvCost.StackOps
import BsvCost.Calibration
import BsvCost.HashBench
import BsvCost.ByteBench
import BsvCost.StackBench
