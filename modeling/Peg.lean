import Peg.Cursor.Lemmas
import Peg.Cursor.Registers
import Peg.Span
import Peg.CharClass
import Peg.Rule.Store
import Peg.Parser.Choice
import Peg.Parser.Repeat
import Peg.Parser.Lookahead
import Peg.Parser.Drive
import Peg.Request
import Peg.Arithmetic
import Peg.Session.Script
import Peg.Grammar.Fuel
import Peg.Proofs.Grammar.Confined
import Peg.Proofs.Cursor.Suffix
import Peg.Proofs.Parser.Returns
import Peg.Proofs.Semantics.Derives
import Peg.Proofs.Semantics.Reflects
import Peg.Proofs.Semantics.Realizes
import Peg.Proofs.Semantics.Adequacy
import Peg.Proofs.Grammar.Nullable
import Peg.Proofs.Grammar.WellFormed
import Peg.Proofs.Semantics.Progress
import Peg.Proofs.Semantics.Terminates
import Peg.Proofs.Semantics.CharRun
import Peg.Proofs.Arithmetic.Chain
import Peg.Proofs.Arithmetic.Complete
import Peg.Proofs.Arithmetic.Sound
import Peg.Proofs.Arithmetic.Longest
import Peg.Proofs.Rule.Undefined
import Peg.Proofs.Semantics.Lossless
import Peg.Proofs.Shift.Runs
import Peg.Proofs.Session.BindOnce
import Peg.Proofs.Shape.Runs
import Peg.Proofs.Context.Unfolding
import Peg.Proofs.Semantics.Blame
import Peg.Proofs.Span.Runs
import Peg.Proofs.Span.Cut
import Peg.Proofs.Location.LineOffset
import Peg.Proofs.Location.Window
import Peg.Proofs.Location.Pointer
import Peg.Proofs.Grammar.Comes
import Peg.Proofs.Grammar.Rounds
import Peg.Proofs.Grammar.CharRuns
import Peg.Proofs.Grammar.Guards
import Peg.Proofs.Grammar.Encoding
import Peg.Proofs.Cursor.Sound
import Peg.Proofs.Grammar.Bracketing
import Peg.Proofs.Grammar.Literal
import Peg.Proofs.Plan.Course
import Peg.Proofs.Grammar.Driven
