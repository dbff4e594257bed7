import Descent.Cursor.Slice
import Descent.Cursor.Text
import Descent.Grammar.Bindings
import Descent.Grammar.Brackets
import Descent.Grammar.Calculator
import Descent.Grammar.History
import Descent.Parser.Builder
import Descent.Parser.Skip
import Descent.Parser.Whitespace
import Descent.Proofs.Refinement
import Descent.Proofs.Lockstep
import Descent.Proofs.Budget
import Descent.Proofs.Result
import Descent.Proofs.Rounds
import Descent.Proofs.Postcondition
import Descent.Proofs.Reachable
import Descent.Proofs.Consumption
import Descent.Proofs.Remaining
import Descent.Proofs.Termination
import Descent.Proofs.Verdict
import Descent.Proofs.Sequencing
import Descent.Proofs.Alternatives
import Descent.Proofs.Peg
import Descent.Proofs.Denotation
import Descent.Proofs.Translation
import Descent.Proofs.Spelling
import Descent.Proofs.Repetition
import Descent.Proofs.Shape
import Descent.Proofs.Strategy
import Descent.Proofs.Defect
import Descent.Proofs.Invocation
import Descent.Proofs.Footprint
import Descent.Proofs.History
import Descent.Proofs.Effect
import Descent.Proofs.Inlining
import Descent.Proofs.Blanks
import Descent.Proofs.Renaming
import Descent.Proofs.Log
import Descent.Proofs.Portions
import Descent.Proofs.Phrases
import Descent.Proofs.Reading
import Descent.Proofs.Calculator
import Descent.Proofs.SymbolSets
import Descent.Proofs.Tokens
import Descent.Grammar.Nesting
import Descent.Proofs.Nesting
import Descent.Parser.Outline
import Descent.Proofs.Decoding
import Descent.Proofs.Legible
import Descent.Proofs.Descriptions
import Descent.Proofs.Characters
import Descent.Proofs.Elements
