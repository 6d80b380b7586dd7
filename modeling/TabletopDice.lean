import TabletopDice.CommandLine
import TabletopDice.Condition
import TabletopDice.Dice
import TabletopDice.Die
import TabletopDice.Expr
import TabletopDice.Generator
import TabletopDice.Modifier
import TabletopDice.Number
import TabletopDice.Parser.Basic
import TabletopDice.Parser.Diagnostic
import TabletopDice.Parser.Dice
import TabletopDice.Parser.Expr
import TabletopDice.Parser.Number
import TabletopDice.Parser.Reach
import TabletopDice.Roll
import TabletopDice.Rolling.Evaluation
import TabletopDice.Rolling.Record
import TabletopDice.Rolling.Throw
import TabletopDice.Selection
import TabletopDice.Selection.Apply
import TabletopDice.Source
import TabletopDice.Text
import TabletopDice.Text.Blank
import TabletopDice.Main
import TabletopDice.Proofs.Notation.Grammar
import TabletopDice.Proofs.Notation.Reading
import TabletopDice.Proofs.Notation.Numbers
import TabletopDice.Proofs.Notation.Modifiers
import TabletopDice.Proofs.Notation.Terms
import TabletopDice.Proofs.Notation.Chains
import TabletopDice.Proofs.Notation.Expressions
import TabletopDice.Proofs.Notation.Printing
import TabletopDice.Proofs.Notation.Prefixes
import TabletopDice.Proofs.Notation.Orders
import TabletopDice.Proofs.Notation.Blanks
import TabletopDice.Proofs.Notation.Parentheses
import TabletopDice.Proofs.Rolling.Drawing
import TabletopDice.Proofs.Rolling.Throws
import TabletopDice.Proofs.Rolling.Completion
import TabletopDice.Proofs.Rolling.Outcomes
import TabletopDice.Proofs.Rolling.Replay
import TabletopDice.Proofs.Rolling.Exhaustion
import TabletopDice.Proofs.Rolling.Consumption
import TabletopDice.Proofs.Rolling.Answers
import TabletopDice.Proofs.Rolling.Stopping
import TabletopDice.Proofs.Rolling.Endless
import TabletopDice.Proofs.Rolling.Determinism
import TabletopDice.Proofs.Rolling.Resting
import TabletopDice.Proofs.Rolling.Journal
import TabletopDice.Proofs.Rolling.Chance
import TabletopDice.Proofs.Selection.Taking
import TabletopDice.Proofs.Selection.Ranks
import TabletopDice.Proofs.Selection.Places
import TabletopDice.Proofs.Totals.Sums
import TabletopDice.Proofs.Bounds.Interval
import TabletopDice.Proofs.Bounds.Expressions
import TabletopDice.Proofs.CommandLine.Typing
import TabletopDice.Proofs.CommandLine.Runs
import TabletopDice.Proofs.Totals.Rolls
import TabletopDice.Proofs.Totals.Exactness
import TabletopDice.Proofs.Selection.Succession
import TabletopDice.Proofs.Selection.Duality
import TabletopDice.Proofs.Rolling.Additivity
import TabletopDice.Proofs.Rolling.Constant
import TabletopDice.Proofs.Rolling.Narration
import TabletopDice.Proofs.Rolling.Lines
import TabletopDice.Proofs.Rolling.Telling
import TabletopDice.Proofs.Descriptions.Lists
import TabletopDice.Proofs.Descriptions.Distinction
import TabletopDice.Proofs.Notation.Notes
import TabletopDice.Proofs.Notation.Refusals
import TabletopDice.Proofs.Notation.Range
import TabletopDice.Proofs.Notation.Reports
import TabletopDice.Proofs.Notation.SingleTerms
import TabletopDice.Proofs.Construction
import TabletopDice.Proofs.Selection.Improvement
