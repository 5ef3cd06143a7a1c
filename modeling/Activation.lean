import Activation.Assembly
import Activation.Batch
import Activation.Catalog
import Activation.CommandLine.Arguments
import Activation.CommandLine.Program
import Activation.CommandLine.Text
import Activation.Decimal
import Activation.Error
import Activation.Files
import Activation.Filter
import Activation.Host
import Activation.Listener
import Activation.Main
import Activation.Metadata
import Activation.Name
import Activation.Order.Placement
import Activation.Order.Rank
import Activation.Order.Sort
import Activation.Proofs.Assembly
import Activation.Proofs.Batch
import Activation.Proofs.Calls
import Activation.Proofs.Course
import Activation.Proofs.Disabled
import Activation.Proofs.Entry
import Activation.Proofs.Exclusion
import Activation.Proofs.Files
import Activation.Proofs.Filter
import Activation.Proofs.FirstFailure
import Activation.Proofs.FirstReading
import Activation.Proofs.History
import Activation.Proofs.Judging
import Activation.Proofs.Listener
import Activation.Proofs.Listing
import Activation.Proofs.Merge
import Activation.Proofs.Name.Distinct
import Activation.Proofs.Name.Lookup
import Activation.Proofs.Noting
import Activation.Proofs.Order.Agreement
import Activation.Proofs.Order.Counting
import Activation.Proofs.Order.Cycle
import Activation.Proofs.Order.Declaration
import Activation.Proofs.Order.Gathering
import Activation.Proofs.Order.Greedy
import Activation.Proofs.Order.Links
import Activation.Proofs.Order.Notes
import Activation.Proofs.Order.Placement
import Activation.Proofs.Order.Rank
import Activation.Proofs.Order.Removal
import Activation.Proofs.Order.Sort
import Activation.Proofs.Order.Theorems
import Activation.Proofs.Order.Walk
import Activation.Proofs.Override
import Activation.Proofs.Parallel
import Activation.Proofs.Property.Cutting
import Activation.Proofs.Property.Layers
import Activation.Proofs.Property.RoundTrip
import Activation.Proofs.Repetition
import Activation.Proofs.Report
import Activation.Proofs.Resolver
import Activation.Proofs.Roots
import Activation.Proofs.Scaffold
import Activation.Proofs.Screening
import Activation.Proofs.Selection
import Activation.Proofs.Session
import Activation.Proofs.SiteOrder
import Activation.Proofs.Steady
import Activation.Proofs.Stores
import Activation.Proofs.Telling
import Activation.Proofs.Text
import Activation.Proofs.Toml.Plain
import Activation.Property
import Activation.Resolver
import Activation.Scaffold
import Activation.Session
import Activation.Site
import Activation.Stores
import Activation.Text
import Activation.Toml.Document
import Activation.Toml.Draft
import Activation.Toml.Expression
import Activation.Toml.Number
import Activation.Toml.Text
import Activation.Toml.Value
