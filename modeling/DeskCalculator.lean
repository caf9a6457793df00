import DeskCalculator.Main
import DeskCalculator.Proofs.Rendering
import DeskCalculator.Proofs.Sentence
import DeskCalculator.Proofs.Adjacency
import DeskCalculator.Proofs.Alternation
import DeskCalculator.Proofs.FaultOrder
import DeskCalculator.Proofs.Trimming
import DeskCalculator.Proofs.Spacing
import DeskCalculator.Proofs.LineForms
import DeskCalculator.Proofs.OpenGroups
import DeskCalculator.Proofs.Rereading
import DeskCalculator.Proofs.SessionSteps
import DeskCalculator.Proofs.SessionNames
import DeskCalculator.Proofs.Interchange
import DeskCalculator.Proofs.SignSpacing
import DeskCalculator.Proofs.PostfixShown
import DeskCalculator.Proofs.BrokenWriter
import DeskCalculator.Proofs.OperandOrder
import DeskCalculator.Proofs.GroupOperand
import DeskCalculator.Proofs.LineEnds
import DeskCalculator.Proofs.SingleExpression
import DeskCalculator.Proofs.Conversation
import DeskCalculator.Proofs.StrayParentheses
import DeskCalculator.Proofs.InsertedSpaces
import DeskCalculator.Proofs.Lossless
import DeskCalculator.Proofs.GrowingStore
import DeskCalculator.Proofs.FirstFault
import DeskCalculator.Proofs.DefaultTarget
import DeskCalculator.Proofs.NearestMultiple
import DeskCalculator.Proofs.ExactValue
import DeskCalculator.Proofs.Unpacking
import DeskCalculator.Proofs.DecimalText
import DeskCalculator.Proofs.CorrectRounding
import DeskCalculator.Proofs.WholeResults
import DeskCalculator.Proofs.Classification
import DeskCalculator.Proofs.Listing
import DeskCalculator.Proofs.StackOrder
