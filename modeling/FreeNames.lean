import FreeNames.Main
import FreeNames.Resolution.Resolver
import FreeNames.Settings.Store
import FreeNames.Tree.Links
import FreeNames.Proofs.Resolution.AccessPath
import FreeNames.Proofs.Resolution.Exactness
import FreeNames.Proofs.Resolution.InScope
import FreeNames.Proofs.Resolution.Renaming
import FreeNames.Proofs.Resolution.NewVariable
import FreeNames.Proofs.Resolution.ArrowArguments
import FreeNames.Proofs.Conversion.Coverage
import FreeNames.Proofs.Conversion.Invariance
import FreeNames.Proofs.Resolution.Progress
import FreeNames.Proofs.Resolution.SourceOrder
import FreeNames.Proofs.Output.TableIcons
import FreeNames.Proofs.CommandLine.PlainLines
import FreeNames.Proofs.Settings.History
import FreeNames.Proofs.Resolution.Reuse
import FreeNames.Proofs.Scope.Groups
import FreeNames.Proofs.Resolution.Recursion
import FreeNames.Proofs.Conversion.Recursion
import FreeNames.Proofs.Resolution.Patterns
import FreeNames.Proofs.Literal.Pieces
import FreeNames.Proofs.Literal.Numbers
import FreeNames.Proofs.Decimal.Key
import FreeNames.Proofs.Resolution.BigKeys
import FreeNames.Proofs.Grammar.FirstError
import FreeNames.Proofs.Conversion.Sequences
import FreeNames.Proofs.Scope.Shadowing
import FreeNames.Proofs.Files.Discovery
import FreeNames.Proofs.Terminal.Tags
import FreeNames.Proofs.Conversion.Markup
import FreeNames.Proofs.Conversion.Nesting
