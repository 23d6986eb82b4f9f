import DeskCalculator.Main
import DeskCalculator.Proofs.Expression.Acceptance
import DeskCalculator.Proofs.Expression.Finite
import DeskCalculator.Proofs.Expression.Value
import DeskCalculator.Proofs.Number.Projection
import DeskCalculator.Proofs.Postfix.Order
import DeskCalculator.Proofs.Postfix.Substitution
import DeskCalculator.Proofs.Settings.Formats
import DeskCalculator.Proofs.State.Account
import DeskCalculator.Proofs.State.Agreement
import DeskCalculator.Proofs.State.Consistency
import DeskCalculator.Proofs.State.Continuation
import DeskCalculator.Proofs.State.Decimals
import DeskCalculator.Proofs.State.Entries
import DeskCalculator.Proofs.State.Typing
import DeskCalculator.Proofs.Token.Alphabet
import DeskCalculator.Proofs.Token.Literals
import DeskCalculator.Proofs.Window.Input
import DeskCalculator.Proofs.Window.Texts
import DeskCalculator.Proofs.Session.Logging
