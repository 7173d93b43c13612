import BasedOp.Analysis.PreconfRecovery
import BasedOp.Analysis.PreconfBlockLaw
import BasedOp.Analysis.FragRefinement
import BasedOp.Analysis.HeadExtension
import BasedOp.Analysis.RpcInterference
import BasedOp.Analysis.ReceiptPositions
import BasedOp.Analysis.FragGas
import BasedOp.Analysis.HeaderAgreement
import BasedOp.Analysis.ParentHead
import BasedOp.Analysis.DepositLoop
import BasedOp.Analysis.SimulationEnv
import BasedOp.Analysis.GasAccounting
import BasedOp.Analysis.Receipts
import BasedOp.Analysis.SyncTargets
import BasedOp.Analysis.RejectedBlocks
import BasedOp.Analysis.BlockFetching
import BasedOp.Analysis.CacheCoherence
import BasedOp.Analysis.CanonicalTxs
import BasedOp.Analysis.PortalGateway
import BasedOp.Analysis.PreconfPending
import BasedOp.Analysis.PreconfTermination
import BasedOp.Analysis.StaleEvents
import BasedOp.Analysis.SealedReads
import BasedOp.Analysis.BroadcastOrder
import BasedOp.Analysis.CircularBuffers
import BasedOp.Analysis.TxListMap
import BasedOp.Analysis.SimulatedLists
import BasedOp.Analysis.ActiveMirror
import BasedOp.Analysis.SortingTermination
import BasedOp.Analysis.SortingPanics
import BasedOp.Analysis.EndToEnd
