import LambdaCalculus.Data.Except
import LambdaCalculus.Data.List
import LambdaCalculus.Grammar
import LambdaCalculus.Main
import LambdaCalculus.Parser.Rules
import LambdaCalculus.Proofs.RenamingEquivalence
import LambdaCalculus.Term.Context
import LambdaCalculus.Token.Lexeme
import LambdaCalculus.Token.Stream
import LambdaCalculus.Proofs.Descent
import LambdaCalculus.Proofs.Simulation
import LambdaCalculus.Proofs.LazyReading
import LambdaCalculus.Proofs.Spelling
import LambdaCalculus.Proofs.Derivation
import LambdaCalculus.Proofs.RoundTrip
import LambdaCalculus.Proofs.Tokenizing
import LambdaCalculus.Proofs.Acceptance
import LambdaCalculus.Proofs.Lookahead
import LambdaCalculus.Proofs.Rejection
import LambdaCalculus.Proofs.EagerReading
import LambdaCalculus.Proofs.ErrorPosition
import LambdaCalculus.Proofs.CallSequence
import LambdaCalculus.Proofs.Lossless
import LambdaCalculus.Proofs.FreeLabels
import LambdaCalculus.Proofs.Parentheses
import LambdaCalculus.Proofs.ReadBack
import LambdaCalculus.Proofs.NormalPositions
import LambdaCalculus.Proofs.Arguments
import LambdaCalculus.Proofs.RenamingSequence
import LambdaCalculus.Proofs.NormalFormIterates
import LambdaCalculus.Proofs.Congruence
import LambdaCalculus.Proofs.Composition
import LambdaCalculus.Proofs.SameTokens
import LambdaCalculus.Proofs.FoundKinds
import LambdaCalculus.Proofs.FreeListing
import LambdaCalculus.Proofs.TokenListing
import LambdaCalculus.Token.ByteScan
import LambdaCalculus.Proofs.Boundary
import LambdaCalculus.Proofs.Labelling
import LambdaCalculus.Proofs.RuleSelection
import LambdaCalculus.Parser.Machine
import LambdaCalculus.Proofs.Progress
import LambdaCalculus.Proofs.Execution
import LambdaCalculus.Proofs.Nesting
