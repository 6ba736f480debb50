import Stencil.Decimal.Reader
import Stencil.Proofs.Addition
import Stencil.Proofs.Argument
import Stencil.Proofs.Case
import Stencil.Proofs.Comment
import Stencil.Proofs.Concatenation
import Stencil.Proofs.Delimited
import Stencil.Proofs.Depth
import Stencil.Proofs.Equality
import Stencil.Proofs.Exact
import Stencil.Proofs.Extent
import Stencil.Proofs.Inline
import Stencil.Proofs.Junction
import Stencil.Proofs.Leaves
import Stencil.Proofs.Limit
import Stencil.Proofs.Nesting
import Stencil.Proofs.Order
import Stencil.Proofs.Passage
import Stencil.Proofs.Places
import Stencil.Proofs.RoundTrip
import Stencil.Proofs.Route
import Stencil.Proofs.Scope
import Stencil.Proofs.Seams
import Stencil.Proofs.Slashes
import Stencil.Proofs.Sort
import Stencil.Proofs.Timestamp
import Stencil.Proofs.Transfer
import Stencil.Proofs.Wording
import Stencil.Template.Show
