import PaperGraph.Main
import PaperGraph.Proofs.Acceptance
import PaperGraph.Proofs.Commitment
import PaperGraph.Proofs.Connection
import PaperGraph.Proofs.Cutting
import PaperGraph.Proofs.Facts
import PaperGraph.Proofs.Locations
import PaperGraph.Proofs.Paths
import PaperGraph.Proofs.Media
import PaperGraph.Proofs.NTriplesRoundTrip
import PaperGraph.Proofs.PublicationReading
import PaperGraph.Proofs.Resolution
import PaperGraph.Proofs.Scanning
import PaperGraph.Proofs.Steps
import PaperGraph.Proofs.Work
import PaperGraph.Proofs.Writing
import PaperGraph.Proofs.Sources
import PaperGraph.Proofs.Settling
import PaperGraph.Proofs.Handling
import PaperGraph.Proofs.Readings
import PaperGraph.Proofs.Rendering
import PaperGraph.Proofs.BodyStart
import PaperGraph.Proofs.Occurrences
import PaperGraph.Proofs.Collecting
import PaperGraph.Proofs.Confinement
import PaperGraph.Proofs.Independence
import PaperGraph.Proofs.Requests
import PaperGraph.Proofs.Rewriting
import PaperGraph.Proofs.Stability
import PaperGraph.Proofs.Orders
import PaperGraph.Proofs.Delivery
import PaperGraph.Proofs.DryRuns
import PaperGraph.Proofs.Reimport
import PaperGraph.Proofs.TurtleBlocks
import PaperGraph.Proofs.TurtleTerms
import PaperGraph.Proofs.TurtleForm
import PaperGraph.Proofs.GroupForms
import PaperGraph.Proofs.SameStatements
import PaperGraph.Proofs.Unrelated
import PaperGraph.Proofs.Boundaries
import PaperGraph.Proofs.QuotedTexts
import PaperGraph.Proofs.Gaps
import PaperGraph.Proofs.Substitution
import PaperGraph.Proofs.LineByLine
import PaperGraph.Proofs.Verdicts
import PaperGraph.Proofs.Exchanges
import PaperGraph.Proofs.Sessions
import PaperGraph.Proofs.Expansions
import PaperGraph.Proofs.Separators
import PaperGraph.Proofs.PairLists
import PaperGraph.Proofs.Excluding
import PaperGraph.Proofs.ProperTrees
import PaperGraph.Proofs.Discovery
import PaperGraph.Proofs.DirectoryContents
import PaperGraph.Export.Register
import PaperGraph.Run.Passes
import PaperGraph.Proofs.Registers
import PaperGraph.Proofs.Positions
import PaperGraph.Proofs.Joins
import PaperGraph.Proofs.NewManifests
import PaperGraph.Proofs.Repetitions
import PaperGraph.Proofs.Flattening
