import DoWhile.Checker.Session
import DoWhile.Main
import DoWhile.Parse.Session
import DoWhile.Proofs.Parse.Moves
import DoWhile.Proofs.Parse.Yield
import DoWhile.Proofs.Token.Layout
import DoWhile.Service.Application
import DoWhile.Service.Launch
import DoWhile.SymbolTable.Session
import DoWhile.Token.Session
import DoWhile.Proofs.Parse.Derivation
import DoWhile.Proofs.Parse.Settled
import DoWhile.Proofs.Parse.Statements
import DoWhile.Proofs.Parse.Acceptance
import DoWhile.Proofs.Checker.Exact
import DoWhile.Proofs.Analysis.Quiet
import DoWhile.Proofs.Parse.Progress
import DoWhile.Proofs.Parse.Calls
import DoWhile.Proofs.Parse.Recovery
import DoWhile.Proofs.Parse.Shape
import DoWhile.Proofs.Token.Order
import DoWhile.Proofs.Analysis.Occurrences
import DoWhile.Proofs.Parse.Composition
import DoWhile.Proofs.Parse.Ending
import DoWhile.Proofs.Parse.Strays
import DoWhile.Proofs.Analysis.Spread
import DoWhile.Proofs.Parse.Relabeling
import DoWhile.Proofs.Analysis.LayoutIndependence
import DoWhile.Proofs.Parse.Resumption
import DoWhile.Proofs.Parse.Unterminated
import DoWhile.Proofs.Parse.EndToken
import DoWhile.Proofs.Checker.Faults
import DoWhile.Proofs.Checker.Reordering
import DoWhile.Proofs.Checker.Reuse
import DoWhile.Proofs.Analysis.Renaming
import DoWhile.Proofs.Token.Calls
import DoWhile.Proofs.Token.Printing
import DoWhile.Proofs.Analysis.LineEnds
import DoWhile.Proofs.Tree.Sameness
import DoWhile.Proofs.Tree.Writing
import DoWhile.Proofs.SymbolTable.Histories
import DoWhile.Proofs.Analysis.Trace
import DoWhile.Proofs.Analysis.Counting
import DoWhile.Proofs.Analysis.Listing
import DoWhile.Proofs.Service.Origins
import DoWhile.Proofs.Service.Requests
import DoWhile.Proofs.Parse.Held
import DoWhile.Proofs.Parse.Behind
