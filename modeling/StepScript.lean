import StepScript.Main
import StepScript.Proofs.Agreement
import StepScript.Proofs.CaseInsensitive
import StepScript.Proofs.CheckedCalls
import StepScript.Proofs.Conditions
import StepScript.Proofs.DoubleConditions
import StepScript.Proofs.Failing
import StepScript.Proofs.GroupSpans
import StepScript.Proofs.HostLiterals
import StepScript.Proofs.IntComparisons
import StepScript.Proofs.Layout
import StepScript.Proofs.Lexemes
import StepScript.Proofs.MatchingBraces
import StepScript.Proofs.MissingOperators
import StepScript.Proofs.Nesting
import StepScript.Proofs.Progress
import StepScript.Proofs.QuotedNumbers
import StepScript.Proofs.References
import StepScript.Proofs.Refinement
import StepScript.Proofs.Registration
import StepScript.Proofs.RegistrationOrder
import StepScript.Proofs.RejectedCalls
import StepScript.Proofs.Resolution
import StepScript.Proofs.Restart
import StepScript.Proofs.SafeCuts
import StepScript.Proofs.Seeds
import StepScript.Proofs.Shadowing
import StepScript.Proofs.Slices
import StepScript.Proofs.Stability
import StepScript.Proofs.StringExpressions
import StepScript.Proofs.StringLiterals
import StepScript.Proofs.Unquoted
import StepScript.Proofs.Unrelated
import StepScript.Proofs.WrittenStatements
