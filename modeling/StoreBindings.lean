import StoreBindings.Boot
import StoreBindings.Main
import StoreBindings.Proofs.Session.Coalescing
import StoreBindings.Proofs.Session.Coherence
import StoreBindings.Proofs.Session.FromScratch
import StoreBindings.Proofs.Session.Gate
import StoreBindings.Proofs.Session.Needless
import StoreBindings.Proofs.Session.Order
import StoreBindings.Proofs.Session.Retry
import StoreBindings.Proofs.Files.Proper
import StoreBindings.Proofs.Glob.Growth
import StoreBindings.Proofs.Program.Growth
import StoreBindings.Proofs.Session.Restart
import StoreBindings.Proofs.Generate.Loader
import StoreBindings.Proofs.Store.Matching
import StoreBindings.Proofs.Store.Validity
import StoreBindings.Proofs.Store.Independence
import StoreBindings.Proofs.Program.Insertion
import StoreBindings.Proofs.Program.Interface
import StoreBindings.Proofs.Generate.Declarations
import StoreBindings.Proofs.Generate.PropertyName
import StoreBindings.Proofs.Session.Recognition
import StoreBindings.Proofs.Program.Exclusion
import StoreBindings.Proofs.Program.Moved
import StoreBindings.Proofs.Store.Decorations
import StoreBindings.Proofs.Generate.Decoding
import StoreBindings.Proofs.Json.Comments
import StoreBindings.Proofs.Store.Accessors
import StoreBindings.Proofs.Store.State
import StoreBindings.Proofs.Boot.Prefilter
import StoreBindings.Proofs.Boot.Addressing
import StoreBindings.Proofs.Files.Within
import StoreBindings.Proofs.Session.Addressing
import StoreBindings.Proofs.Program.Pointed
import StoreBindings.Proofs.Session.Reporting
import StoreBindings.Proofs.Text.Position
import StoreBindings.Proofs.Report.Colours
import StoreBindings.Proofs.Watch.Drained
import StoreBindings.Proofs.Store.Exclusive
import StoreBindings.Proofs.Report.Scopes
import StoreBindings.Proofs.Generate.Indentation
import StoreBindings.Proofs.Store.Arguments
import StoreBindings.Proofs.Store.ParameterTypes
import StoreBindings.Proofs.Store.Belonging
import StoreBindings.Proofs.Session.Recorded
