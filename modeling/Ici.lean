import Ici.Adapters.CompilerArgv
import Ici.Adapters.GcovUnion
import Ici.Adapters.Qtest
import Ici.Analysis.CppBoundaries
import Ici.Analysis.CppParsed
import Ici.Analysis.CyclePath
import Ici.Analysis.DupRegions
import Ici.Analysis.DupReport
import Ici.Analysis.GcovText
import Ici.Analysis.LinkerDeadSound
import Ici.Analysis.PytestOutput
import Ici.Analysis.SplicedSource
import Ici.Application.BaselineDelta
import Ici.Application.CheckoutBlind
import Ici.Application.ExpandedArtifacts
import Ici.Application.LocksSafe
import Ici.Application.NoEmptyPass
import Ici.Application.PublishSafe
import Ici.Application.SharingTransparent
import Ici.Application.TemMerging
import Ici.Cli.WatchedRun
import Ici.Config.ConvertAccounts
import Ici.Config.InlineChild
import Ici.Config.OverlayBlind
import Ici.Config.Ratchet
import Ici.Core.CacheIdentityCovers
import Ici.Core.CanonicalPaths
import Ici.Core.ComparisonReported
import Ici.Core.CppReplaySafe
import Ici.Core.OrderIndependent
import Ici.Core.PipelineRuns
import Ici.Core.ResponseFiles
import Ici.Core.SuiteStatus
import Ici.Domain.ResultHonest
import Ici.Execution.ManifestExact
import Ici.Execution.OutputRoot
import Ici.Execution.ProductionWhole
import Ici.QualityZoo.ReportContract
import Ici.Scripts.MergeGateNewest
import Ici.Toolchain.ResolverFree
import Ici.Workspace.InventoryAccounts
import Ici.Workspace.ModelDiagnosed
