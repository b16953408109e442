import ScriptReader.Text.Quoted
import ScriptReader.Source.Line
import ScriptReader.Token.Lexer
import ScriptReader.Tree.Equality
import ScriptReader.Tree.Outline
import ScriptReader.Diagnostic.Snippet
import ScriptReader.Parser.Session
import ScriptReader.Proofs.Parser.Steps
import ScriptReader.Proofs.Grammar.Shape
import ScriptReader.Proofs.Segments
import ScriptReader.Proofs.Grammar.Starts
import ScriptReader.Proofs.Capped
import ScriptReader.Proofs.Completeness
import ScriptReader.Proofs.Lexing
import ScriptReader.Proofs.Printing
import ScriptReader.Proofs.Tree.Tokens
import ScriptReader.Proofs.RoundTrip
import ScriptReader.Proofs.Programs
import ScriptReader.Proofs.Embedding.Basic
import ScriptReader.Proofs.Embedding.Parsers
import ScriptReader.Proofs.Embedding.Turns
import ScriptReader.Proofs.Embedding.Regions
import ScriptReader.Proofs.Concatenation
import ScriptReader.Proofs.Acceptance
import ScriptReader.Proofs.Failing.Earliest
import ScriptReader.Proofs.Layout
import ScriptReader.Proofs.Nesting
import ScriptReader.Proofs.Tree.Height
import ScriptReader.Proofs.Reprinting
import ScriptReader.Proofs.Failing.Descriptions
import ScriptReader.Proofs.LongestMatch
import ScriptReader.Proofs.Machine.Basic
import ScriptReader.Proofs.Machine.Balance
import ScriptReader.Proofs.Machine.Simulation
import ScriptReader.Proofs.Machine.Faithful
import ScriptReader.Proofs.Machine.Operations
import ScriptReader.Proofs.Machine.Progress
import ScriptReader.Proofs.Unambiguous
import ScriptReader.Proofs.Source.Bytes
import ScriptReader.Proofs.Snippet.Basic
import ScriptReader.Proofs.Snippet.Caret
import ScriptReader.Proofs.Joining
import ScriptReader.Proofs.Scanner.Basic
import ScriptReader.Proofs.Scanner.Coherence
import ScriptReader.Proofs.Integers
import ScriptReader.Proofs.Machine.Tightness
