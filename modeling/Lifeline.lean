import Lifeline.Command.Disk
import Lifeline.Diagram.Equality
import Lifeline.Main
import Lifeline.Proofs.History
import Lifeline.Proofs.Expansion
import Lifeline.Proofs.Accepted
import Lifeline.Proofs.Nesting
import Lifeline.Proofs.Arrows
import Lifeline.Proofs.Blanks
import Lifeline.Proofs.Layout
import Lifeline.Proofs.Messages
import Lifeline.Proofs.Built
import Lifeline.Proofs.Colors
import Lifeline.Proofs.RoundTrip
import Lifeline.Proofs.Alike
import Lifeline.Proofs.Readers
import Lifeline.Proofs.Sessions
import Lifeline.Proofs.Recovery
import Lifeline.Proofs.Payloads
import Lifeline.Proofs.Breaking
import Lifeline.Proofs.Lifespans
import Lifeline.Proofs.Redrawing
import Lifeline.Proofs.Formatting
import Lifeline.Proofs.Folding
import Lifeline.Proofs.Coherence
import Lifeline.Proofs.Closing
import Lifeline.Proofs.Arrangement
import Lifeline.Proofs.Permanence
import Lifeline.Proofs.Unnumbered
import Lifeline.Proofs.Balance
import Lifeline.Proofs.Registry
import Lifeline.Proofs.Header
import Lifeline.Proofs.Extents
import Lifeline.Proofs.Spans
import Lifeline.Proofs.Activity
import Lifeline.Proofs.Interactions
import Lifeline.Proofs.Seams
import Lifeline.Proofs.Declarations
import Lifeline.Proofs.Addresses
import Lifeline.Proofs.Said
import Lifeline.Proofs.Misfits
import Lifeline.Proofs.Boxes
import Lifeline.Proofs.Sightings
