import StackLang.Main
import StackLang.Queue.Lemmas
import StackLang.Stack.Lemmas
import StackLang.Proofs.Resume
import StackLang.Proofs.Run
import StackLang.Proofs.Tree
import StackLang.Proofs.Denotation
import StackLang.Proofs.Composition
import StackLang.Proofs.Congruence
import StackLang.Proofs.Laws
import StackLang.Proofs.Limit
import StackLang.Proofs.Sequence
import StackLang.Proofs.StraightLine
import StackLang.Proofs.Untyped.Machine
import StackLang.Proofs.Untyped.Typing
import StackLang.Proofs.Untyped.Erasure
import StackLang.Proofs.Execute
import StackLang.Proofs.Expression
import StackLang.Proofs.Depth
import StackLang.Proofs.Frame
import StackLang.Proofs.EventLog
import StackLang.Proofs.Dictionary
import StackLang.Proofs.Factorial
import StackLang.Proofs.Rounding
import StackLang.Proofs.Shortest
import StackLang.Proofs.Layout
import StackLang.Proofs.Double
import StackLang.Proofs.Literal
import StackLang.Proofs.Arguments
import StackLang.Proofs.Rendering
import StackLang.Proofs.CommandLine
import StackLang.Proofs.Calls
import StackLang.Proofs.Walk
import StackLang.Proofs.Commutation
import StackLang.Proofs.Peephole
import StackLang.Proofs.Promotion
import StackLang.Proofs.Table
import StackLang.Proofs.Buffer
import StackLang.Proofs.Grammar
import StackLang.Proofs.Coercion
import StackLang.Proofs.Reading
import StackLang.Proofs.Words
import StackLang.Proofs.Joining
import StackLang.Proofs.Successors
