import Caret.Main
import Caret.Proofs.Agreement
import Caret.Sum
import Caret.Workbench.Bench
import Caret.Proofs.Progress
import Caret.Proofs.Combinators
import Caret.Proofs.Json.Numeral
import Caret.Proofs.Json.Scan
import Caret.Proofs.Json.Strings
import Caret.Proofs.Json.Scalars
import Caret.Proofs.Contracts
import Caret.Proofs.Json.Brackets
import Caret.Proofs.Json.Members
import Caret.Proofs.Json.Completeness
import Caret.Proofs.Json.Acceptance
import Caret.Proofs.Recast
import Caret.Proofs.Json.Linking
import Caret.Proofs.Json.Overflow
import Caret.Proofs.Json.Sharing
import Caret.Proofs.Workbench.History
import Caret.Proofs.Number.Printed
import Caret.Proofs.Json.Parts
import Caret.Proofs.Json.Printed
import Caret.Proofs.Json.RoundTrip
import Caret.Proofs.Json.Limits
import Caret.Proofs.Moments
import Caret.Proofs.Json.Levels
import Caret.Proofs.Likeness
import Caret.Proofs.Json.Policies
import Caret.Proofs.Forward
import Caret.Proofs.Diagnostics
import Caret.Proofs.Json.Canonical
import Caret.Proofs.Json.Malformed
import Caret.Proofs.Endings
import Caret.Proofs.Json.Compact
import Caret.Proofs.Invocation
import Caret.Proofs.Workbench.Cells
import Caret.Proofs.Enumeration
import Caret.Proofs.Json.Longest
import Caret.Proofs.Repetition
import Caret.Proofs.Json.Items
import Caret.Proofs.Integers
import Caret.Proofs.Sums
import Caret.Proofs.Json.Duplicates
import Caret.Proofs.Json.Openings
import Caret.Proofs.Stalls
import Caret.Proofs.Literals
import Caret.Proofs.Grouping
import Caret.Proofs.Json.Collectors
