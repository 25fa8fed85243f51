import RiscvJit.Main
import RiscvJit.Stub.Script
import RiscvJit.Proofs.Stub.CallCorrection
import RiscvJit.Proofs.Stub.DeoptRoutines
import RiscvJit.Proofs.Cache.Answers
import RiscvJit.Proofs.Cache.SharedBlobs
import RiscvJit.Proofs.Lower.ProfileRaces
import RiscvJit.Proofs.Lower.SafepointPolls
import RiscvJit.Proofs.Stub.WrapperReach
import RiscvJit.Proofs.Lower.CompareAndSwap
import RiscvJit.Proofs.Lower.Conditions
import RiscvJit.Proofs.Lower.ProfileHistories
import RiscvJit.Proofs.Lower.LockTests
import RiscvJit.Proofs.Lower.Unwinding
import RiscvJit.Proofs.Lower.NewArrays
import RiscvJit.Proofs.Code.Barriers
import RiscvJit.Proofs.Lower.Accesses
import RiscvJit.Proofs.Value.OperandTexts
import RiscvJit.Proofs.Frame.Layout
import RiscvJit.Proofs.Config
import RiscvJit.Proofs.Cache.Reservations
import RiscvJit.Proofs.Code.BufferRuns
import RiscvJit.Proofs.Call.ReusedSolvers
