import FilterLang.Binary64.Bits
import FilterLang.Expr.Node
import FilterLang.Main
import FilterLang.Proofs.Digits
import FilterLang.Proofs.QuotedForms
import FilterLang.Proofs.QuotedTokens
import FilterLang.Proofs.ExprNodes
import FilterLang.Proofs.LexemeBoundaries
import FilterLang.Proofs.NumberTexts
import FilterLang.Proofs.ShortestNumbers
import FilterLang.Proofs.CivilTime
import FilterLang.Proofs.QuotedGrammar
import FilterLang.Proofs.StringSites
import FilterLang.Proofs.WrittenTokens
import FilterLang.Proofs.RenderedTokens
import FilterLang.Proofs.Lexemes
import FilterLang.Proofs.MaximalMunch
import FilterLang.Proofs.LexerCalls
import FilterLang.Proofs.Tilings
import FilterLang.Proofs.DisplayedTokens
import FilterLang.Proofs.TimeLiterals
import FilterLang.Proofs.JsonNumbers
import FilterLang.Proofs.JsonStrings
import FilterLang.Proofs.JsonNesting
import FilterLang.Proofs.JsonLiterals
import FilterLang.Proofs.JsonDocuments
import FilterLang.Proofs.JsonValues
import FilterLang.Proofs.ReportedTokens
import FilterLang.Proofs.Stamps
import FilterLang.Proofs.EncodedTrees
import FilterLang.Proofs.DecodedTrees
import FilterLang.Proofs.OutermostNodes
import FilterLang.Proofs.FilledDrafts
import FilterLang.Proofs.JsonRoundTrip
import FilterLang.Proofs.ReadOperators
import FilterLang.Proofs.InterchangeableValues
import FilterLang.Proofs.Presentations
import FilterLang.Proofs.PrintableText
import FilterLang.Proofs.QuotedReadings
import FilterLang.Proofs.ErrorPositions
import FilterLang.Proofs.ReadStamps
import FilterLang.Proofs.ReadValues
import FilterLang.Proofs.BracketLevels
import FilterLang.Proofs.ReadTrees
import FilterLang.Proofs.SpacedTexts
import FilterLang.Proofs.NearestMagnitudes
import FilterLang.Proofs.ReadThousandths
import FilterLang.Proofs.RoundedOffsets
import FilterLang.Proofs.SeventeenDigits
import FilterLang.Proofs.WrittenDecimals
import FilterLang.Proofs.ComposedRoundings
import FilterLang.Proofs.NumbersThroughJson
import FilterLang.Proofs.LoneTokens
import FilterLang.Proofs.OperatorTexts
import FilterLang.Proofs.TimeTexts
import FilterLang.Proofs.EqualTrees
import FilterLang.Proofs.HiddenStructure
import FilterLang.Proofs.ReportedEscapes
import FilterLang.Proofs.ScannedNumbers
