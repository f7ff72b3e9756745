import Luminosity.Foundation.LastWrite
import Luminosity.Config.Domain
import Luminosity.Config.ServiceRuns
import Luminosity.Config.SetConflicts
import Luminosity.Config.KeyGrammar
import Luminosity.Config.TrimmedLines
import Luminosity.Config.FragmentNormalForm
import Luminosity.Commands.FailSafe
import Luminosity.Foundation.Interleaving
import Luminosity.Foundation.OldestFirst
import Luminosity.Host.ModifiedTimes
import Luminosity.Foundation.SumPrograms
import Luminosity.Launch.KeyFiles
import Luminosity.Launch.Executions
import Luminosity.Adapters.StoreProse
import Luminosity.Adapters.StoreAtomicity
import Luminosity.Adapters.StoreWriteContainment
import Luminosity.Adapters.DiscoveryStability
import Luminosity.Adapters.FragmentPaths
import Luminosity.Adapters.StoreRegisters
import Luminosity.Launch.ResolverConcurrency
import Luminosity.Launch.ResolverFreshness
import Luminosity.Launch.Fetch
import Luminosity.Launch.Offline
import Luminosity.Launch.FailedStores
import Luminosity.Launch.Retention
import Luminosity.Launch.RetentionFamilies
import Luminosity.Launch.RetentionOrder
import Luminosity.Bootstrap.CacheDirectory
import Luminosity.Bootstrap.ReplacedShims
import Luminosity.Tasks.Release
import Luminosity.Tasks.Publication
import Luminosity.Tasks.Reverification
import Luminosity.Tasks.AnchorDrift
import Luminosity.Tasks.LinkGate
import Luminosity.Tasks.LeakGuard
import Luminosity.Tasks.Prerelease
import Luminosity.Launch.CacheWrites
