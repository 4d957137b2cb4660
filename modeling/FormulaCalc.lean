import FormulaCalc.Binary64.Rounding
import FormulaCalc.Decimal.Shortest
import FormulaCalc.Text.Blank
import FormulaCalc.Text.Quoted
import FormulaCalc.VarTable
import FormulaCalc.Token.Walk
import FormulaCalc.Validity
import FormulaCalc.ImplicitProduct
import FormulaCalc.Expr.Eval
import FormulaCalc.Expr.Print
import FormulaCalc.Expr.Build
import FormulaCalc.Session.Window
import FormulaCalc.Proofs.Adjacency
import FormulaCalc.Proofs.DisplayRoundTrip
import FormulaCalc.Proofs.Transparency
import FormulaCalc.Proofs.Substitution
import FormulaCalc.Proofs.CompactRoundTrip
import FormulaCalc.Proofs.KnownCharacters
import FormulaCalc.Proofs.PrintedForms
import FormulaCalc.Proofs.LetterHistory
import FormulaCalc.Proofs.TableAgreement
import FormulaCalc.Proofs.Evaluations
import FormulaCalc.Proofs.Variables
import FormulaCalc.Proofs.NamedVariables
import FormulaCalc.Proofs.EnterKey
import FormulaCalc.Proofs.SessionFields
import FormulaCalc.Proofs.LeadingSign
import FormulaCalc.Proofs.TokenWalks
import FormulaCalc.Proofs.Leaves
import FormulaCalc.Proofs.Slices
import FormulaCalc.Proofs.RegistryRuns
import FormulaCalc.Proofs.ButtonFrames
import FormulaCalc.Proofs.DepthCounting
import FormulaCalc.Proofs.NeededBrackets
