import TypedLiteral.Binary.Bits
import TypedLiteral.Binary.Calculator
import TypedLiteral.Binary.Format
import TypedLiteral.Binary.Rounding
import TypedLiteral.CommandLine
import TypedLiteral.Constant
import TypedLiteral.Escape.Item
import TypedLiteral.Escape.Units
import TypedLiteral.Event
import TypedLiteral.Finding
import TypedLiteral.FloatLiteral
import TypedLiteral.Initializer
import TypedLiteral.IntType
import TypedLiteral.IntegerLiteral
import TypedLiteral.Kind
import TypedLiteral.Lexicon
import TypedLiteral.Literal
import TypedLiteral.Number
import TypedLiteral.Numeral
import TypedLiteral.Pattern
import TypedLiteral.Proofs.Binary.Chain
import TypedLiteral.Proofs.Binary.Encoding
import TypedLiteral.Proofs.Binary.Ladder
import TypedLiteral.Proofs.Binary.Narrowing
import TypedLiteral.Proofs.Binary.Nearest
import TypedLiteral.Proofs.Binary.NearestEven
import TypedLiteral.Proofs.Binary.Number
import TypedLiteral.Proofs.Binary.Quotient
import TypedLiteral.Proofs.Binary.RoundedStep
import TypedLiteral.Proofs.Binary.Scaled
import TypedLiteral.Proofs.Binary.Widening
import TypedLiteral.Proofs.FloatLiteral
import TypedLiteral.Proofs.IntegerConstant
import TypedLiteral.Proofs.IntegerLiteral
import TypedLiteral.Proofs.Numeral
import TypedLiteral.Proofs.TierTable
import TypedLiteral.QuotedLiteral
import TypedLiteral.Text.Quoted
import TypedLiteral.Text.Unprintable
import TypedLiteral.Text.Utf8
import TypedLiteral.TierTable
import TypedLiteral.Token
import TypedLiteral.Violation
import TypedLiteral.Weight
import TypedLiteral.Main
import TypedLiteral.Proofs.Lexicon
import TypedLiteral.Proofs.Token
import TypedLiteral.Proofs.Entry
import TypedLiteral.Proofs.Initializer
import TypedLiteral.Proofs.Excerpt
import TypedLiteral.Proofs.Recovery
import TypedLiteral.Proofs.Escape.Grammar
import TypedLiteral.Proofs.Escape.Decoding
import TypedLiteral.Proofs.Listing
import TypedLiteral.Proofs.Accounting
import TypedLiteral.Proofs.Lossless
import TypedLiteral.Proofs.Causes
import TypedLiteral.Proofs.Comment
import TypedLiteral.Proofs.NumericWord
import TypedLiteral.Proofs.Tiling
import TypedLiteral.Proofs.Rendering
import TypedLiteral.Proofs.Reproduction
import TypedLiteral.Proofs.Layout
import TypedLiteral.Proofs.TierValidation
import TypedLiteral.Proofs.Binary.Rounding
import TypedLiteral.Proofs.Binary.Rerounding
import TypedLiteral.Proofs.CommandLine
import TypedLiteral.Proofs.Escape.Widths
import TypedLiteral.Proofs.CharacterLiteral
import TypedLiteral.Proofs.QuotedWord
import TypedLiteral.Proofs.Separation
import TypedLiteral.Proofs.RangeError
import TypedLiteral.Proofs.TwosComplement
import TypedLiteral.Proofs.Binary.Alignment
import TypedLiteral.Proofs.Binary.Digits
import TypedLiteral.Proofs.Binary.Calculator
