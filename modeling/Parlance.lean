import Parlance.Main
import Parlance.Proofs.Expr.RoundTrip
import Parlance.Proofs.Grammar.Filled
import Parlance.Proofs.Grammar.Script
import Parlance.Proofs.Grammar.Shorthand
import Parlance.Proofs.Grammar.Written
import Parlance.Proofs.Number.ReadBack
import Parlance.Proofs.Prompt.Comment
import Parlance.Proofs.Prompt.Failing
import Parlance.Proofs.Prompt.Groups
import Parlance.Proofs.Prompt.Replay
import Parlance.Proofs.Prompt.Unfinished
import Parlance.Proofs.Reader.Ending
import Parlance.Proofs.Reader.Outlook
import Parlance.Proofs.Run.Definite
import Parlance.Proofs.Run.ErrorLines
import Parlance.Proofs.Run.Errors
import Parlance.Proofs.Run.Levels
import Parlance.Proofs.Run.Postfix
import Parlance.Proofs.Run.Scoping
import Parlance.Proofs.Run.Shadowing
import Parlance.Proofs.Run.Unchanged
import Parlance.Proofs.Run.Variant
import Parlance.Proofs.Run.Visible
import Parlance.Proofs.Scopes.Place
import Parlance.Proofs.Scopes.Within
import Parlance.Proofs.Token.Lexemes
import Parlance.Proofs.Token.Numeral
import Parlance.Proofs.Token.Spacing
import Parlance.Proofs.Token.Terminal
import Parlance.Proofs.Value.Equality
import Parlance.Proofs.Value.Sequence
