import DocComment.CommandLine.Run
import DocComment.Main
import DocComment.Proofs.ByteOrder
import DocComment.Proofs.CommentFrame
import DocComment.Proofs.CommentLines
import DocComment.Proofs.DanglingBreaks
import DocComment.Proofs.DebugFlags
import DocComment.Proofs.DefaultCommand
import DocComment.Proofs.DocumentedParameters
import DocComment.Proofs.DrawnTrees
import DocComment.Proofs.Dropped
import DocComment.Proofs.EnclosedBreaks
import DocComment.Proofs.Erasure
import DocComment.Proofs.FrameLines
import DocComment.Proofs.Height
import DocComment.Proofs.Hidden
import DocComment.Proofs.Inspection
import DocComment.Proofs.Knobs
import DocComment.Proofs.Layering
import DocComment.Proofs.Leaves
import DocComment.Proofs.Mentions
import DocComment.Proofs.Nesting
import DocComment.Proofs.NormalForm
import DocComment.Proofs.NothingLost
import DocComment.Proofs.OutputOption
import DocComment.Proofs.Pairwise
import DocComment.Proofs.Passes
import DocComment.Proofs.Qualifiers
import DocComment.Proofs.Quotation
import DocComment.Proofs.ReadBack
import DocComment.Proofs.Readings
import DocComment.Proofs.Reframing
import DocComment.Proofs.Registrations
import DocComment.Proofs.Runs
import DocComment.Proofs.Sections
import DocComment.Proofs.ShiftInPlace
import DocComment.Proofs.Spelling
import DocComment.Proofs.TransformNames
import DocComment.Proofs.Unescaping
import DocComment.Proofs.Waiting
import DocComment.Proofs.Warnings
import DocComment.Proofs.WellFormed
import DocComment.Proofs.WithoutOutput
