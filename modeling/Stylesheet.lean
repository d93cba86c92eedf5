import Stylesheet.Main
import Stylesheet.Proofs.Evaluations
import Stylesheet.Proofs.Membership
import Stylesheet.Proofs.Navigation
import Stylesheet.Proofs.Offsets
import Stylesheet.Proofs.Overfull
import Stylesheet.Proofs.RuleNames
import Stylesheet.Proofs.Segments
import Stylesheet.Proofs.Shallow
import Stylesheet.Proofs.SourceOrder
import Stylesheet.Proofs.Values
import Stylesheet.Proofs.Visits
