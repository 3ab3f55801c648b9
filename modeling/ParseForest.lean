import ParseForest.Main
import ParseForest.NulTerminated
import ParseForest.Tree.Edit
import ParseForest.Proofs.Derivation
import ParseForest.Proofs.Nullable
import ParseForest.Proofs.Validity
import ParseForest.Proofs.Cycle
import ParseForest.Proofs.Chart
import ParseForest.Proofs.Enumeration
import ParseForest.Proofs.Forest
import ParseForest.Proofs.RoundTrip
import ParseForest.Proofs.Nesting
import ParseForest.Proofs.Fixpoint
import ParseForest.Proofs.WellFormed
import ParseForest.Proofs.Combinations
import ParseForest.Proofs.Sentence
import ParseForest.Proofs.Declarations
import ParseForest.Proofs.GrammarJson
import ParseForest.Proofs.Checked
import ParseForest.Proofs.FrontEnds
import ParseForest.Proofs.Relabel
import ParseForest.Proofs.Distinct
import ParseForest.Proofs.ExitCodes
import ParseForest.Proofs.Order
import ParseForest.Proofs.Passes
import ParseForest.Proofs.CycleSearch
import ParseForest.Proofs.FaultPlace
import ParseForest.Proofs.Names
import ParseForest.Proofs.Transposition
import ParseForest.Proofs.Counter
import ParseForest.Proofs.Substitution
import ParseForest.Proofs.TreeJson
import ParseForest.Proofs.Display
import ParseForest.Proofs.Pruning
import ParseForest.Proofs.Candidates
