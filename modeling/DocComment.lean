import DocComment.Main
import DocComment.Node.Shape
import DocComment.Proofs.Arrays
import DocComment.Proofs.Blocks
import DocComment.Proofs.Command.AllOrNothing
import DocComment.Proofs.Command.Channels
import DocComment.Proofs.Command.Printing
import DocComment.Proofs.Command.Verbosity
import DocComment.Proofs.Completion
import DocComment.Proofs.Faults
import DocComment.Proofs.LostShapes
import DocComment.Proofs.Labels
import DocComment.Proofs.Parameters
import DocComment.Proofs.Rendering
import DocComment.Proofs.ShownShapes
import DocComment.Proofs.Tables
import DocComment.Proofs.Tags.ClosingPlace
import DocComment.Proofs.Tags.Fields
import DocComment.Proofs.Unrelated
import DocComment.Proofs.WellFormed
import DocComment.Proofs.ClosingSigns
import DocComment.Proofs.Gutters
import DocComment.Proofs.Results
