import UsageGraph.Main
import UsageGraph.Version.Defect
import UsageGraph.Walk.Sources
import UsageGraph.Proofs.Crawl.Coverage
import UsageGraph.Proofs.History.AsOf
import UsageGraph.Proofs.History.WellFormed
import UsageGraph.Proofs.Import.Isolation
import UsageGraph.Proofs.Import.Slots
import UsageGraph.Proofs.Module.Transparency
import UsageGraph.Proofs.Reference.Assembly
import UsageGraph.Proofs.Store.RoundTrip
import UsageGraph.Proofs.History.Extension
import UsageGraph.Proofs.History.Independence
import UsageGraph.Proofs.Store.Registry
import UsageGraph.Proofs.Tasks
import UsageGraph.Proofs.Import.Cleanup
import UsageGraph.Proofs.Module.Agreement
import UsageGraph.Proofs.Crawl.Scraping
import UsageGraph.Proofs.Reference.Agreement
import UsageGraph.Proofs.Import.Noninterference
import UsageGraph.Proofs.History.Maximality
import UsageGraph.Proofs.Store.Frame
import UsageGraph.Proofs.Store.Referrers
import UsageGraph.Proofs.Store.Queue
import UsageGraph.Proofs.Diagnostic.Overview
import UsageGraph.Proofs.Diagnostic.Names
import UsageGraph.Proofs.Diagnostic.Records
import UsageGraph.Proofs.Reference.Keys
import UsageGraph.Proofs.Import.Pool
import UsageGraph.Proofs.Store.Intervals
import UsageGraph.Proofs.Git.Trace
import UsageGraph.Proofs.CommandLine.History
import UsageGraph.Proofs.Version.Numbers
import UsageGraph.Proofs.Version.Range
import UsageGraph.Proofs.Version.Order
import UsageGraph.Proofs.Version.Selection
import UsageGraph.Proofs.Package.Manifests
import UsageGraph.Proofs.Import.Course
import UsageGraph.Proofs.History.Discipline
import UsageGraph.Proofs.Git.Restoring
import UsageGraph.Proofs.Module.Recall
import UsageGraph.Proofs.Module.Location
import UsageGraph.Proofs.Reference.Locators
import UsageGraph.Proofs.Crawl.Turns
import UsageGraph.Proofs.History.Log
import UsageGraph.Proofs.Package.Dependencies
import UsageGraph.Proofs.History.Lifetime
import UsageGraph.Proofs.Module.Headers
import UsageGraph.Proofs.Store.Metadata
import UsageGraph.Proofs.Reference.Dumps
import UsageGraph.Proofs.FileTree.Sound
import UsageGraph.Proofs.Walk.Sources
import UsageGraph.Proofs.FileTree.Making
import UsageGraph.Proofs.Command.Artifacts
import UsageGraph.Proofs.Config.Loading
import UsageGraph.Proofs.Shell.Progress
import UsageGraph.Proofs.Shell.Quoting
