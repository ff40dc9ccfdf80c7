import Klex.Main
import Klex.Tree.Alike
import Klex.Proofs.Grammar.Soundness
import Klex.Proofs.Grammar.Prefix
import Klex.Proofs.Grammar.Viability
import Klex.Proofs.Grammar.Completeness
import Klex.Proofs.Grammar.Respacing
import Klex.Proofs.Grammar.Alternatives
import Klex.Proofs.Tree.Places
import Klex.Proofs.Session.Scopes
import Klex.Proofs.Session.Reports
import Klex.Proofs.Session.Isolation
import Klex.Proofs.Session.Offsets
import Klex.Proofs.Session.Absence
import Klex.Proofs.Session.Traces
import Klex.Proofs.Token.Modes
import Klex.Proofs.Session.Splitting
import Klex.Proofs.Session.Locations
import Klex.Proofs.Session.Unparsed
import Klex.Proofs.Session.Effects
import Klex.Proofs.Token.Delimiter
import Klex.Proofs.Session.Quotation
import Klex.Proofs.Grammar.Grouping
import Klex.Proofs.Token.Numeral
import Klex.Proofs.Token.Spacing
import Klex.Proofs.Highlight.Markup
import Klex.Proofs.Report.Excerpt
import Klex.Proofs.Session.Methods
import Klex.Proofs.Scope.Visibility
import Klex.Proofs.Grammar.Bounds
