import Exemplar.Main
import Exemplar.Proofs.Batch
import Exemplar.Proofs.Cached.Accuracy
import Exemplar.Proofs.CharSet.Builder
import Exemplar.Proofs.CharSet.Enumeration
import Exemplar.Proofs.CharSet.Folding
import Exemplar.Proofs.CharSet.Levels
import Exemplar.Proofs.CharSet.Ranges
import Exemplar.Proofs.Checked.Refinement
import Exemplar.Proofs.Emission.Admission
import Exemplar.Proofs.Generation.Completeness
import Exemplar.Proofs.Generation.Counted
import Exemplar.Proofs.Generation.Narrowing
import Exemplar.Proofs.Grammar.BracketCase
import Exemplar.Proofs.Grammar.BracketTerm
import Exemplar.Proofs.Grammar.Loops
import Exemplar.Proofs.Length.Copies
import Exemplar.Proofs.Length.Division
import Exemplar.Proofs.Length.Exact
import Exemplar.Proofs.Packed.Sets
import Exemplar.Proofs.Pattern.Checked
import Exemplar.Proofs.Pattern.EscapedUnits
import Exemplar.Proofs.Pattern.QuotedText
import Exemplar.Proofs.Pattern.References
import Exemplar.Proofs.Pattern.Refusals
import Exemplar.Proofs.Pattern.RoundTrip
import Exemplar.Proofs.Pattern.Scopes
import Exemplar.Proofs.Pattern.Wrapping
import Exemplar.Proofs.Random.Bounded
import Exemplar.Proofs.Regex.Paths
import Exemplar.Proofs.Regex.Reduced
import Exemplar.Proofs.Shrink.Checked
import Exemplar.Proofs.Shrink.Return
import Exemplar.Random.Counting
