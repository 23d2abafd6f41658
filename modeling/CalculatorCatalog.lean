import CalculatorCatalog.Analysis
import CalculatorCatalog.Command.Arguments
import CalculatorCatalog.Command.Console
import CalculatorCatalog.Command.Run
import CalculatorCatalog.Main
import CalculatorCatalog.Proofs.Definition.Accounting
import CalculatorCatalog.Proofs.Definition.RoundTrip
import CalculatorCatalog.Proofs.Definition.Borrowing
import CalculatorCatalog.Proofs.Definition.Offsets
import CalculatorCatalog.Proofs.Edit.Comments
import CalculatorCatalog.Proofs.Edit.Extent
import CalculatorCatalog.Proofs.Edit.Idempotence
import CalculatorCatalog.Proofs.Edit.KeyAttributes
import CalculatorCatalog.Proofs.Edit.Leftovers
import CalculatorCatalog.Proofs.Edit.ListRemoval
import CalculatorCatalog.Proofs.Edit.Renaming
import CalculatorCatalog.Proofs.Dictionary.Entries
import CalculatorCatalog.Proofs.Dictionary.Extension
import CalculatorCatalog.Proofs.Dictionary.Unresolved
import CalculatorCatalog.Proofs.Files.Addresses
import CalculatorCatalog.Proofs.Files.Contents
import CalculatorCatalog.Proofs.Files.Overwriting
import CalculatorCatalog.Proofs.Files.Parents
import CalculatorCatalog.Proofs.Json.Readable
import CalculatorCatalog.Proofs.Command.DryRun
import CalculatorCatalog.Proofs.Command.Flags
import CalculatorCatalog.Proofs.Command.Footprint
import CalculatorCatalog.Proofs.Command.Printing
import CalculatorCatalog.Proofs.Command.Analyzing
import CalculatorCatalog.Proofs.Command.Fates
import CalculatorCatalog.Proofs.Generation.Targets
import CalculatorCatalog.Proofs.Files.Places
import CalculatorCatalog.Proofs.Files.Repeats
import CalculatorCatalog.Proofs.Files.Matching
import CalculatorCatalog.Proofs.Files.Spelling
import CalculatorCatalog.Proofs.Files.Tidy
import CalculatorCatalog.Proofs.Files.Selection
import CalculatorCatalog.Proofs.Files.Retrying
import CalculatorCatalog.Proofs.Text.ByteViews
import CalculatorCatalog.Proofs.Text.Slice
import CalculatorCatalog.Proofs.Definition.Shielding
import CalculatorCatalog.Proofs.Text.Blanking
import CalculatorCatalog.Proofs.Text.Masking
import CalculatorCatalog.Proofs.Definition.WholeTexts
import CalculatorCatalog.Proofs.Definition.Numbers
import CalculatorCatalog.Proofs.Command.SourceLines
import CalculatorCatalog.Proofs.Definition.Comments
import CalculatorCatalog.Proofs.Dictionary.Additions
import CalculatorCatalog.Proofs.Command.ScanOrder
import CalculatorCatalog.Proofs.Command.EditBatches
import CalculatorCatalog.Proofs.Config.Searching
import CalculatorCatalog.Proofs.Command.Reporting
import CalculatorCatalog.Proofs.Issue.Ordering
import CalculatorCatalog.Proofs.Citation.Shape
import CalculatorCatalog.Proofs.Naming.SnakeCase
import CalculatorCatalog.Proofs.Config.Settings
