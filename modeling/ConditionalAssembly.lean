import ConditionalAssembly.Expr.Equality
import ConditionalAssembly.Main
import ConditionalAssembly.Proofs.Resolution.Completeness
import ConditionalAssembly.Proofs.Resolution.Acceptance
import ConditionalAssembly.Proofs.Phrase.Spelling
import ConditionalAssembly.Proofs.Resolution.Origins
import ConditionalAssembly.Proofs.Expr.Queries
import ConditionalAssembly.Proofs.Resolution.Dependencies
import ConditionalAssembly.Proofs.Evaluation.Independence
import ConditionalAssembly.Proofs.Evaluation.Operators
import ConditionalAssembly.Proofs.Resolution.Recovery
import ConditionalAssembly.Proofs.Expr.Derivation
import ConditionalAssembly.Proofs.Expr.Parsing
import ConditionalAssembly.Proofs.Token.Scanning
import ConditionalAssembly.Proofs.Concatenation.Quotation
import ConditionalAssembly.Proofs.Concatenation.Templates
import ConditionalAssembly.Proofs.Concatenation.Numerals
import ConditionalAssembly.Proofs.Concatenation.Parts
import ConditionalAssembly.Proofs.Concatenation.CreatedNames
import ConditionalAssembly.Proofs.Resolution.CharacterOperands
import ConditionalAssembly.Proofs.Evaluation.Alike
import ConditionalAssembly.Proofs.Resolution.Comparisons
import ConditionalAssembly.Proofs.Expr.Erasure
import ConditionalAssembly.Proofs.Resolution.Erasure
import ConditionalAssembly.Proofs.Evaluation.Erasure
import ConditionalAssembly.Proofs.Token.Enclosing
import ConditionalAssembly.Proofs.Expr.Moving
import ConditionalAssembly.Proofs.Evaluation.Parentheses
import ConditionalAssembly.Proofs.Token.Lexing
import ConditionalAssembly.Proofs.Printing.Elementary
import ConditionalAssembly.Proofs.Printing.Legible
import ConditionalAssembly.Proofs.Printing.Restoring
import ConditionalAssembly.Proofs.Printing.ReadingBack
import ConditionalAssembly.Proofs.Printing.Numbers
import ConditionalAssembly.Proofs.Evaluation.Places
import ConditionalAssembly.Proofs.Token.LetterCase
import ConditionalAssembly.Proofs.Expr.Dependencies
import ConditionalAssembly.Proofs.Store.History
import ConditionalAssembly.Proofs.Evaluation.Strings
import ConditionalAssembly.Proofs.CommandLine.Writing
import ConditionalAssembly.Proofs.CommandLine.Assigned
import ConditionalAssembly.Proofs.Operator.Exact
import ConditionalAssembly.Proofs.Operator.Shifts
import ConditionalAssembly.Proofs.Concatenation.Sublists
import ConditionalAssembly.Proofs.Concatenation.Joining
import ConditionalAssembly.Proofs.Resolution.Arithmetic
import ConditionalAssembly.Proofs.Evaluation.Arithmetic
import ConditionalAssembly.Proofs.Text.Bytes
import ConditionalAssembly.Proofs.Operator.Ordering
import ConditionalAssembly.Proofs.Operator.Searching
import ConditionalAssembly.Proofs.Resolution.Again
import ConditionalAssembly.Proofs.Evaluation.CombinedOperators
import ConditionalAssembly.Proofs.Resolution.Locality
import ConditionalAssembly.Proofs.Expr.ErrorPlaces
import ConditionalAssembly.Proofs.CommandLine.Forms
import ConditionalAssembly.Proofs.Store.Subscripts
import ConditionalAssembly.Proofs.Resolution.InPlace
