import WideDecimal.Bytes.Arbitrary
import WideDecimal.Json.Document
import WideDecimal.Native.Float
import WideDecimal.Proofs.Notation
import WideDecimal.Proofs.Rescale
import WideDecimal.Proofs.RoundTrip
import WideDecimal.Proofs.RegisterRun
import WideDecimal.Proofs.Route
import WideDecimal.Proofs.ShortestNumeral
import WideDecimal.Proofs.Encoding
import WideDecimal.Proofs.ViablePrefix
import WideDecimal.Proofs.UnexpectedCharacter
import WideDecimal.Proofs.Refusal
import WideDecimal.Proofs.Exchange
import WideDecimal.Proofs.CheckedArithmetic
import WideDecimal.Proofs.TrailingZeros
import WideDecimal.Proofs.Respelling
import WideDecimal.Proofs.Shift
import WideDecimal.Proofs.Aggregate
import WideDecimal.Proofs.Order
import WideDecimal.Proofs.Sample
import WideDecimal.Proofs.Bitwise
import WideDecimal.Proofs.ByteLayout
import WideDecimal.Proofs.PaddedNumeral
import WideDecimal.Proofs.QuotientLimb
import WideDecimal.Proofs.DivisionBounds
import WideDecimal.Proofs.DigitChunks
import WideDecimal.Proofs.ExponentRange
import WideDecimal.Proofs.LimbShift
