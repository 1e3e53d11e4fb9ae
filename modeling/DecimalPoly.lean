import DecimalPoly.Decimal.Text
import DecimalPoly.Decimal.Division
import DecimalPoly.Binary64
import DecimalPoly.Text.Quoted
import DecimalPoly.Intake
import DecimalPoly.Term.Basic
import DecimalPoly.SparsePoly.Basic
import DecimalPoly.SparsePoly.Product
import DecimalPoly.Journal
import DecimalPoly.SparsePoly.LongDivision
import DecimalPoly.SparsePoly.Reader
import DecimalPoly.Document
import DecimalPoly.Precision
import DecimalPoly.Sampling.Bytes
import DecimalPoly.Sampling.Draws
import DecimalPoly.Proofs.Decimal.Rounding
import DecimalPoly.Proofs.Decimal.Digits
import DecimalPoly.Proofs.Decimal.Quotient
import DecimalPoly.Proofs.Decimal.Ring
import DecimalPoly.Proofs.SparsePoly.Leading
import DecimalPoly.Proofs.SparsePoly.Product
import DecimalPoly.Proofs.SparsePoly.Ring
import DecimalPoly.Proofs.SparsePoly.NormalForm
import DecimalPoly.Proofs.SparsePoly.Power
import DecimalPoly.Proofs.SparsePoly.Convolution
import DecimalPoly.Proofs.SparsePoly.Derivative
import DecimalPoly.Proofs.SparsePoly.Evaluation
import DecimalPoly.Proofs.Text.Monomial
import DecimalPoly.Proofs.Text.RoundTrip
import DecimalPoly.Proofs.Plain.Buffer
import DecimalPoly.Proofs.Plain.Noted
import DecimalPoly.Proofs.Plain.Words
import DecimalPoly.Proofs.Plain.WordOperations
import DecimalPoly.Proofs.Plain.Arithmetic
import DecimalPoly.Proofs.Plain.Division
import DecimalPoly.Proofs.SparsePoly.ExactDivision
import DecimalPoly.Proofs.SparsePoly.Residue
import DecimalPoly.Proofs.SparsePoly.Recurrence
import DecimalPoly.Proofs.Binary64.Text
import DecimalPoly.Proofs.Plain.Sources
import DecimalPoly.Proofs.Plain.Recipe
import DecimalPoly.Proofs.Plain.Scanner
import DecimalPoly.Proofs.Text.Grammar
import DecimalPoly.Proofs.Text.Acceptance
import DecimalPoly.Proofs.Session
import DecimalPoly.Proofs.Text.Fault
import DecimalPoly.Proofs.Text.Rejection
import DecimalPoly.Proofs.Text.Terse
import DecimalPoly.Proofs.Plain.Notation
import DecimalPoly.Proofs.Decimal.Text
import DecimalPoly.Proofs.Text.Printed
import DecimalPoly.Proofs.Plain.Display
import DecimalPoly.Proofs.Binary64.RoundTrip
import DecimalPoly.Proofs.SparsePoly.Intake
import DecimalPoly.Proofs.Decimal.Monotone
import DecimalPoly.Proofs.SparsePoly.Collecting
import DecimalPoly.Proofs.Text.Joining
import DecimalPoly.Proofs.Text.Transcript
import DecimalPoly.Proofs.Plain.Transcript
import DecimalPoly.Proofs.Sampling.Bytes
import DecimalPoly.Proofs.Sampling.Draws
import DecimalPoly.Proofs.Plain.Estimate
import DecimalPoly.Proofs.Plain.WorkingBuffer
import DecimalPoly.Proofs.Plain.LowestTerms
