import Polish.Session
import Polish.Config.File
import Polish.StandIn.Yaml.Document
import Polish.StandIn.Validator
import Polish.Proofs.Evaluate.Text
import Polish.Proofs.Evaluate.Agreement
import Polish.Proofs.Evaluate.Dangling
import Polish.Proofs.Evaluate.Reading
import Polish.Proofs.Compile.Steady
import Polish.Proofs.Session.Interleaving
import Polish.Proofs.Compile.Flatten
import Polish.Proofs.Grammar.Walk
import Polish.Proofs.Grammar.Lossless
import Polish.Proofs.Engine.Limits
import Polish.Proofs.Pattern.Run
import Polish.Proofs.Pattern.Symbols
import Polish.Proofs.Compile.Blame
import Polish.Proofs.Engine.Symbols
import Polish.Proofs.Grammar.Lexemes
import Polish.Proofs.Grammar.Sentences
import Polish.Proofs.Grammar.Words
import Polish.Proofs.Engine.Sentences
import Polish.Proofs.Grammar.Patterns
import Polish.Proofs.Evaluate.Names
import Polish.Proofs.Engine.Frame
import Polish.Proofs.Pattern.Written
import Polish.Proofs.Config.Settings
import Polish.Proofs.StandIn.Validator
import Polish.Proofs.Function.Draws
import Polish.Proofs.Engine.Settings
import Polish.Proofs.Compile.Replay
import Polish.Proofs.Compile.Follow
import Polish.Proofs.Evaluate.Nested
import Polish.Proofs.Evaluate.Machine
import Polish.Proofs.Session.Steps
import Polish.Proofs.Compile.Alone
import Polish.Proofs.Evaluate.Unknown
import Polish.Proofs.Compile.Nesting
import Polish.Proofs.Compile.Pointing
import Polish.Proofs.Session.Attempt
import Polish.Proofs.Compile.Contents
import Polish.Proofs.Sheet
import Polish.Proofs.Grammar.Stall
import Polish.Proofs.Grammar.Progress
import Polish.Proofs.Grammar.Viable
import Polish.Proofs.Engine.Moving
import Polish.Proofs.Function.Bitwise
import Polish.Proofs.Grammar.Bisimulation
import Polish.Proofs.Grammar.Rewriting
import Polish.Proofs.Compile.Mirror
import Polish.Proofs.Pattern.Spread
import Polish.Proofs.Grammar.Spacing
import Polish.Proofs.Engine.Spacing
import Polish.Proofs.Text.Separated
import Polish.Proofs.Grammar.Tokens
import Polish.Proofs.Grammar.Spelling
import Polish.Proofs.Number.Literal
import Polish.Proofs.Compile.Counts
import Polish.Proofs.Compile.Rendering
import Polish.Proofs.Evaluate.Complaints
import Polish.Proofs.Evaluate.Depth
import Polish.Proofs.Engine.Failures
import Polish.Proofs.Engine.Counts
import Polish.Proofs.Engine.Numbers
import Polish.Proofs.Engine.Pointing
import Polish.Proofs.Engine.Rendering
import Polish.Proofs.Compile.Splices
import Polish.Proofs.Session.Calls
