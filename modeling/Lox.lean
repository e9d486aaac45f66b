import Lox.Main
import Lox.Proofs.Grammar.Parsing
import Lox.Proofs.Run.Control
import Lox.Proofs.Run.Inheritance
import Lox.Proofs.Run.Lookup
import Lox.Proofs.Run.Termination
import Lox.Proofs.Scope.Checking
import Lox.Syntax.Uses
import Lox.Proofs.Grammar.Moved
import Lox.Proofs.Heap.Twin
import Lox.Proofs.Run.Lockstep
import Lox.Proofs.Run.Origin
import Lox.Proofs.Run.Pieces
import Lox.Proofs.Run.Renaming
import Lox.Proofs.Session.Pieces
import Lox.Proofs.Session.Policy
import Lox.Proofs.Session.Prompt
import Lox.Proofs.Run.Call
import Lox.Proofs.Token.Partition
import Lox.Proofs.Grammar.ErrorOrder
import Lox.Proofs.Run.Confined
import Lox.Proofs.Run.FullSink
import Lox.Proofs.Session.FullSink
import Lox.Proofs.Run.ExtraBlock
import Lox.Proofs.Grammar.Cascade
import Lox.Proofs.Run.Founded
import Lox.Proofs.Run.Construct
import Lox.Proofs.Heap.Forest
import Lox.Proofs.Grammar.Ending
import Lox.Proofs.Run.Loop
import Lox.Proofs.Token.Lines
import Lox.Proofs.Scope.Independence
import Lox.Proofs.Run.FailedClass
import Lox.Proofs.Grammar.Limit
import Lox.Proofs.Grammar.Recovery
import Lox.Proofs.Run.Merging
import Lox.Proofs.Run.Order
import Lox.Proofs.Grammar.Legible
