import WorldZk.AttestationReplay
import WorldZk.AttestedCommands
import WorldZk.AuditExport
import WorldZk.AutoFinalize
import WorldZk.BatchRefinement
import WorldZk.BatchReload
import WorldZk.BatchRuns
import WorldZk.BatchSessions
import WorldZk.BatchSoundness
import WorldZk.BatchStorage
import WorldZk.BatchedEquations
import WorldZk.Bn254Moduli
import WorldZk.BoundOutputs
import WorldZk.BundleVerification
import WorldZk.CallArguments
import WorldZk.ChallengeWatcher
import WorldZk.CheckedRuns
import WorldZk.ChunkBinding
import WorldZk.CircuitBreaker
import WorldZk.CircuitCompleteness
import WorldZk.CircuitDescription
import WorldZk.CircuitPreparation
import WorldZk.CircuitSoundness
import WorldZk.CivilCalendar
import WorldZk.ClaimBinding
import WorldZk.ClaimCoefficients
import WorldZk.ClaimGrouping
import WorldZk.ClaimTransactions
import WorldZk.CommittedSumcheck
import WorldZk.CsvGrammar
import WorldZk.CumulativeSelection
import WorldZk.CurveOrder
import WorldZk.DagLayers
import WorldZk.DecisionTrees
import WorldZk.DecoderAgreement
import WorldZk.DescriptionShape
import WorldZk.EcBatchCircuits
import WorldZk.EcBatchSoundness
import WorldZk.EnclaveAgreement
import WorldZk.EnclaveAttestation
import WorldZk.EnclaveModel
import WorldZk.EncodingRoundTrip
import WorldZk.EngineAccounts
import WorldZk.EngineRefunds
import WorldZk.EngineSettlement
import WorldZk.EnsembleScores
import WorldZk.ExecutionEngine
import WorldZk.FieldArithmetic
import WorldZk.FieldInversion
import WorldZk.FieldMultiplication
import WorldZk.FieldReduction
import WorldZk.FiniteTotals
import WorldZk.FlatArrays
import WorldZk.FlatDescription
import WorldZk.FlatLayouts
import WorldZk.ForestVotes
import WorldZk.GateWirings
import WorldZk.GlobMatching
import WorldZk.GreedySelection
import WorldZk.Groth16Layout
import WorldZk.GroupBackends
import WorldZk.GroupChecks
import WorldZk.GuestInference
import WorldZk.HexText
import WorldZk.HybridChecks
import WorldZk.HybridOutputs
import WorldZk.HybridReplay
import WorldZk.HybridSimulation
import WorldZk.HybridSoundness
import WorldZk.HybridVerifier
import WorldZk.I64Arithmetic
import WorldZk.IndexedKeys
import WorldZk.InferenceCircuit
import WorldZk.InferenceWitness
import WorldZk.InputBinding
import WorldZk.InputDecomposition
import WorldZk.InputHashes
import WorldZk.InputLayers
import WorldZk.InputPrefetcher
import WorldZk.IpAddresses
import WorldZk.JacobianLaw
import WorldZk.JobQueue
import WorldZk.JsonValues
import WorldZk.Keccak256
import WorldZk.KeyedLists
import WorldZk.KeyedTotals
import WorldZk.LayerChecks
import WorldZk.LayeredAgreement
import WorldZk.LayeredBinding
import WorldZk.LayeredChecks
import WorldZk.LayeredHybrid
import WorldZk.LayeredReplay
import WorldZk.LayeredVerifier
import WorldZk.LightgbmTrees
import WorldZk.LimbArithmetic
import WorldZk.LittleEndianWords
import WorldZk.LogConsumers
import WorldZk.LoggedRuns
import WorldZk.LogisticRegression
import WorldZk.MerkleTrees
import WorldZk.MlpCircuit
import WorldZk.MlpCircuitInputs
import WorldZk.MlpForward
import WorldZk.MlpLookup
import WorldZk.MlpModel
import WorldZk.MlpSoundness
import WorldZk.ModelParsers
import WorldZk.ModelReload
import WorldZk.ModularPower
import WorldZk.NamedInstances
import WorldZk.NativeCurve
import WorldZk.NativeCurveLaw
import WorldZk.NitroAttestation
import WorldZk.NonceManager
import WorldZk.OffsetParsers
import WorldZk.OpeningBinding
import WorldZk.OwnedContracts
import WorldZk.PaddedDecimals
import WorldZk.PaddedTables
import WorldZk.PaginatedViews
import WorldZk.ParserRelations
import WorldZk.PedersenCommitments
import WorldZk.PointValidity
import WorldZk.PoseidonSponge
import WorldZk.PrecomputedProofs
import WorldZk.PrivateInputs
import WorldZk.ProcessedEvents
import WorldZk.ProgramRegistry
import WorldZk.ProofArchive
import WorldZk.ProofCache
import WorldZk.ProofDecoding
import WorldZk.ProofEncoding
import WorldZk.ProofSubmission
import WorldZk.ProofTypes
import WorldZk.ProvedClass
import WorldZk.ProverJobs
import WorldZk.ProverRanking
import WorldZk.ProverRegistry
import WorldZk.ProverReputation
import WorldZk.ProverSelection
import WorldZk.RandomForest
import WorldZk.RawVerification
import WorldZk.RecursiveWrapper
import WorldZk.ReentrantCalls
import WorldZk.RegistryBookkeeping
import WorldZk.ReplayProtection
import WorldZk.ReputationBookkeeping
import WorldZk.ResultEvents
import WorldZk.ResultIndexer
import WorldZk.RoundCounts
import WorldZk.RoundPolynomials
import WorldZk.RuleAggregates
import WorldZk.RuleEngine
import WorldZk.Sha256
import WorldZk.ShapedEncodings
import WorldZk.SigmaSoundness
import WorldZk.SlidingWindows
import WorldZk.SolidityVerifier
import WorldZk.SplitInference
import WorldZk.SpongeAgreement
import WorldZk.SpongeLaws
import WorldZk.StandardHosts
import WorldZk.StepRuns
import WorldZk.StorageAreas
import WorldZk.StylusHybrid
import WorldZk.StylusVerifier
import WorldZk.SubmittedProofs
import WorldZk.SumcheckCompleteness
import WorldZk.TableWalks
import WorldZk.TeeDisputes
import WorldZk.TeeLifecycle
import WorldZk.TeeProofBinding
import WorldZk.TeeReentrancy
import WorldZk.TeeSolvency
import WorldZk.TeeVerifier
import WorldZk.TensorEvaluation
import WorldZk.TensorProducts
import WorldZk.TimelockController
import WorldZk.TipDecay
import WorldZk.TransactionSenders
import WorldZk.Transcript
import WorldZk.TransparencyLog
import WorldZk.TreeEnsemble
import WorldZk.UnwindingCalls
import WorldZk.UpgradeTimelock
import WorldZk.UpgradeableEngine
import WorldZk.UrlGuard
import WorldZk.UrlGuardHosts
import WorldZk.UsableTrees
import WorldZk.VerifiedPrograms
import WorldZk.VerifierBackend
import WorldZk.WeightedSelection
import WorldZk.WordSerde
import WorldZk.XGBoostGuest
import WorldZk.ZkmlVerifier
