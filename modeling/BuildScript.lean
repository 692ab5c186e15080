import BuildScript.Arena.Dump
import BuildScript.Program
import BuildScript.Proofs.Grammar.Composition
import BuildScript.Proofs.Grammar.Count
import BuildScript.Proofs.Grammar.Limit
import BuildScript.Proofs.Arena.Layout
import BuildScript.Proofs.Arena.Canonical
import BuildScript.Proofs.Flat.Statement
import BuildScript.Proofs.NodeLimit
import BuildScript.Proofs.Grammar.Derivation
import BuildScript.Proofs.Grammar.Exact
import BuildScript.Proofs.Grammar.Recognition
import BuildScript.Proofs.Grammar.Acceptance
import BuildScript.Proofs.Source.Bytes
import BuildScript.Proofs.Source.Remaining
import BuildScript.Proofs.Lexeme.Recognize
import BuildScript.Proofs.Token.Decimal
import BuildScript.Proofs.Token.Spelt
import BuildScript.Proofs.Tree.Proper
import BuildScript.Proofs.Grammar.Binding
import BuildScript.Proofs.Spelling.Expression
import BuildScript.Proofs.Spelling.Statement
import BuildScript.Proofs.Spelling.Seams
import BuildScript.Proofs.Spelling.Written
import BuildScript.Proofs.RoundTrip
import BuildScript.Proofs.Tree.Schema
import BuildScript.Proofs.Spelling.Refusal
import BuildScript.Proofs.Dump.Sexpr
import BuildScript.Proofs.Dump.Faithful
import BuildScript.Proofs.Grammar.Bound
import BuildScript.Proofs.Lookahead
import BuildScript.Proofs.Arena.Assembled
import BuildScript.Proofs.Source.Character
import BuildScript.Proofs.Token.Continuous
import BuildScript.Proofs.Token.Lossless
import BuildScript.Proofs.Insertion
import BuildScript.Proofs.Lexeme.Tiling
import BuildScript.Proofs.Token.Calls
import BuildScript.Proofs.Grammar.Extension
import BuildScript.Proofs.Concatenation
import BuildScript.Proofs.Grammar.Opening
import BuildScript.Proofs.Grammar.Rejection
import BuildScript.Proofs.Grammar.Diagnosis
import BuildScript.Proofs.Diagnostics
import BuildScript.Proofs.Lexeme.WordRun
import BuildScript.Proofs.Literal
import BuildScript.Proofs.Grammar.Extent
import BuildScript.Proofs.Spelling.Terse
import BuildScript.Proofs.Parentheses
import BuildScript.Proofs.Arena.NodeCount
import BuildScript.Proofs.Spelling.Vacant
import BuildScript.Proofs.Arena.Written
import BuildScript.Lexeme.Guarded
import BuildScript.Proofs.Lexeme.Guarded
import BuildScript.Proofs.Grammar.Cutoff
import BuildScript.Proofs.Grammar.Contract
import BuildScript.Proofs.Flat.Contract
