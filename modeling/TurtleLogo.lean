import TurtleLogo.Command
import TurtleLogo.Console.View
import TurtleLogo.Main
import TurtleLogo.Proofs.Evaluate.Frames
import TurtleLogo.Proofs.Evaluate.Quota
import TurtleLogo.Proofs.Parse.Complete
import TurtleLogo.Proofs.Parse.Faithful
import TurtleLogo.Proofs.Evaluate.Counterpart
import TurtleLogo.Proofs.Lint.Unreachable
import TurtleLogo.Proofs.Scan.Pieces
import TurtleLogo.Proofs.Evaluate.Policy
import TurtleLogo.Proofs.Indent.Layout
import TurtleLogo.Proofs.Lint.Calls
import TurtleLogo.Proofs.Parse.Concatenated
import TurtleLogo.Proofs.Session.Concatenated
import TurtleLogo.Proofs.Parse.Messages
import TurtleLogo.Proofs.Session.Spelling
import TurtleLogo.Proofs.Evaluate.Scope
import TurtleLogo.Proofs.Evaluate.Depth
import TurtleLogo.Proofs.Console.Held
import TurtleLogo.Proofs.Scan.Munch
import TurtleLogo.Proofs.Editor.Framing
import TurtleLogo.Proofs.Command.Run
import TurtleLogo.Proofs.Command.Format
import TurtleLogo.Proofs.Console.Record
import TurtleLogo.Proofs.Parse.Layers
import TurtleLogo.Proofs.Text.Seam
import TurtleLogo.Proofs.Scan.Places
import TurtleLogo.Proofs.Scan.Lines
import TurtleLogo.Proofs.Parse.Blocks
import TurtleLogo.Proofs.Indent.Levels
import TurtleLogo.Proofs.Parse.Counts
import TurtleLogo.Proofs.Parse.Recovery
import TurtleLogo.Proofs.Evaluate.NamedLoops
import TurtleLogo.Proofs.Evaluate.Operands
import TurtleLogo.Proofs.Turtle.Path
import TurtleLogo.Proofs.Image.Svg
import TurtleLogo.Proofs.Parse.Faults
import TurtleLogo.Proofs.Fault.Frames
import TurtleLogo.Proofs.Editor.Ranges
import TurtleLogo.Proofs.Editor.Words
import TurtleLogo.Proofs.Scan.Adjacent
import TurtleLogo.Proofs.Program.Standing
import TurtleLogo.Proofs.Editor.Identifiers
import TurtleLogo.Proofs.Session.Origins
import TurtleLogo.Proofs.Scan.Comments
import TurtleLogo.Proofs.Console.Recall
import TurtleLogo.Proofs.Editor.Outline
import TurtleLogo.Proofs.Editor.Completions
import TurtleLogo.Proofs.Console.Window
