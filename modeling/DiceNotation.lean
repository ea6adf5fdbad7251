import DiceNotation.Amount
import DiceNotation.Config
import DiceNotation.Cup
import DiceNotation.Decimal.Shortest
import DiceNotation.Defines
import DiceNotation.Dice.Basic
import DiceNotation.Dice.Extremes
import DiceNotation.Dice.Spec
import DiceNotation.Dice.Total
import DiceNotation.DiceCode.Finding
import DiceNotation.DiceCode.Key
import DiceNotation.DiceCode.Parameters
import DiceNotation.DiceCode.Reader
import DiceNotation.Error
import DiceNotation.Expr.Basic
import DiceNotation.Expr.Eval
import DiceNotation.Expr.Parser
import DiceNotation.Expr.Token
import DiceNotation.Flags
import DiceNotation.Group
import DiceNotation.History
import DiceNotation.Number
import DiceNotation.NumberRun
import DiceNotation.Reduction
import DiceNotation.Resolution.Arena
import DiceNotation.Resolution.Atom
import DiceNotation.Resolution.Build
import DiceNotation.Resolution.Flatten
import DiceNotation.Roll.Basic
import DiceNotation.Roll.Describe
import DiceNotation.Roller.Basic
import DiceNotation.Roller.Scripted
import DiceNotation.Roller.Seeded
import DiceNotation.Roller.Stepping
import DiceNotation.Roller.Words
import DiceNotation.Session.Basic
import DiceNotation.Session.Pipeline
import DiceNotation.Session.RollCode
import DiceNotation.Text.Alphanumeric
import DiceNotation.Text.Basic
import DiceNotation.Text.Blank
import DiceNotation.Text.CodePoints
import DiceNotation.Text.DecimalDigit
import DiceNotation.Text.Name
import DiceNotation.Text.Quoted
import DiceNotation.Text.Segments
import DiceNotation.Text.Word
import DiceNotation.Trigger.Basic
import DiceNotation.Trigger.Fire
import DiceNotation.Trigger.Script
import DiceNotation.Trigger.Surroundings
import DiceNotation.Whole
import DiceNotation.Proofs.Fallible
import DiceNotation.Proofs.Blanks
import DiceNotation.Proofs.Origins
import DiceNotation.Proofs.Coupling.Basic
import DiceNotation.Proofs.Coupling.Rolling
import DiceNotation.Proofs.Failure
import DiceNotation.Proofs.Coupling.Firing
import DiceNotation.Proofs.Coupling.Evaluating
import DiceNotation.Proofs.Chains
import DiceNotation.Proofs.Budget
import DiceNotation.Proofs.Messages
import DiceNotation.Proofs.UserText
import DiceNotation.Proofs.Parts
import DiceNotation.Proofs.Words
import DiceNotation.Proofs.Atoms
import DiceNotation.Proofs.Numerals
import DiceNotation.Proofs.Macros
import DiceNotation.Proofs.Occurrences
import DiceNotation.Proofs.Twins
import DiceNotation.Proofs.LeftOver
import DiceNotation.Proofs.Expr.Grammar
import DiceNotation.Proofs.Expr.Symbols
import DiceNotation.Proofs.Counting
import DiceNotation.Proofs.Folding
import DiceNotation.Proofs.Refolding
import DiceNotation.Proofs.Splices
import DiceNotation.Proofs.Decimal.Quotients
import DiceNotation.Proofs.Decimal.Rounding
import DiceNotation.Proofs.Decimal.Bits
import DiceNotation.Proofs.Decimal.Reading
import DiceNotation.Proofs.Decimal.Shortest
import DiceNotation.Proofs.Decimal.Texts
import DiceNotation.Proofs.Expr.Values
import DiceNotation.Proofs.Runs.Operands
import DiceNotation.Proofs.Runs.Neat
import DiceNotation.Proofs.Runs.Values
import DiceNotation.Proofs.Runs.Folds
import DiceNotation.Proofs.Runs.Fixed
import DiceNotation.Proofs.Runs.Sites
import DiceNotation.Proofs.Runs.Alone
import DiceNotation.Proofs.Runs.Twice
import DiceNotation.Proofs.Arithmetic
import DiceNotation.Proofs.Code.Gathering
import DiceNotation.Proofs.Code.Marks
import DiceNotation.Proofs.Code.Found
import DiceNotation.Proofs.Code.Sites
import DiceNotation.Proofs.Code.Layout
import DiceNotation.Proofs.Code.Recognition
import DiceNotation.Proofs.Code.Encoding
import DiceNotation.Proofs.Code.Restating
import DiceNotation.Proofs.Code.Collapse
import DiceNotation.Proofs.Outcomes
import DiceNotation.Proofs.Totals
import DiceNotation.Proofs.Code.References
import DiceNotation.Proofs.Code.RuleOrder
import DiceNotation.Proofs.Code.FaceLists
import DiceNotation.Proofs.Histories
import DiceNotation.Proofs.BackReferences
import DiceNotation.Proofs.Dismantling
import DiceNotation.Proofs.Nesting
import DiceNotation.Proofs.Depths
import DiceNotation.Proofs.GroupResults
import DiceNotation.Proofs.Expr.Derivations
import DiceNotation.Proofs.Unfolding
import DiceNotation.Proofs.Operations
import DiceNotation.Proofs.RaisedLimits
import DiceNotation.Proofs.TriggerSpans
import DiceNotation.Proofs.Dice.Dropping
import DiceNotation.Proofs.Dice.Sums
import DiceNotation.Proofs.Dice.Waves
import DiceNotation.Proofs.Dice.Ranks
import DiceNotation.Proofs.Dice.Overflow
import DiceNotation.Proofs.Dice.Sorting
import DiceNotation.Proofs.Dice.Successes
import DiceNotation.Proofs.Faces
import DiceNotation.Proofs.Arenas
import DiceNotation.Proofs.GroupRolls
import DiceNotation.Proofs.Numbers.Whole
import DiceNotation.Proofs.Expr.Exactness
import DiceNotation.Proofs.Decimal.Comparison
import DiceNotation.Proofs.Decimal.Integers
import DiceNotation.Proofs.Numbers.Integers
import DiceNotation.Proofs.Expr.Printing
import DiceNotation.Proofs.Expr.Places
import DiceNotation.Proofs.Runs.Entire
import DiceNotation.Proofs.Repetition
import DiceNotation.Proofs.PlainRolls
import DiceNotation.Proofs.Projects
import DiceNotation.Proofs.Loops
import DiceNotation.Proofs.Stretches
import DiceNotation.Proofs.FiringOrder
import DiceNotation.Proofs.TrailingWords
import DiceNotation.Proofs.Binding
import DiceNotation.Proofs.Partners
import DiceNotation.Proofs.Assignments
import DiceNotation.Proofs.Branches
import DiceNotation.Proofs.FailedTriggers
import DiceNotation.Proofs.Delimiters
import DiceNotation.Proofs.Exhaustion
