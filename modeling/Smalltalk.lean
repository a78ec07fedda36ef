import Smalltalk.Text
import Smalltalk.Text.CharClass
import Smalltalk.Cursor
import Smalltalk.ScanError
import Smalltalk.Double.Basic
import Smalltalk.Double.Power
import Smalltalk.Double.Shortest
import Smalltalk.Double.Notation
import Smalltalk.Numeral
import Smalltalk.Text.Printable
import Smalltalk.Text.Extending
import Smalltalk.Text.Quoted
import Smalltalk.Text.Json
import Smalltalk.Token
import Smalltalk.Lexeme
import Smalltalk.Lexer
import Smalltalk.Scan
import Smalltalk.Script
import Smalltalk.Source
import Smalltalk.Diagnostic
import Smalltalk.Path
import Smalltalk.Failure
import Smalltalk.Toml.Value
import Smalltalk.Toml.Scalar
import Smalltalk.Toml.Document
import Smalltalk.Settings
import Smalltalk.Place
import Smalltalk.FileTree
import Smalltalk.Command.Input
import Smalltalk.Dump
import Smalltalk.Command.Tokens
import Smalltalk.Command.Convert
import Smalltalk.Settings.Search
import Smalltalk.Arguments
import Smalltalk.Program
import Smalltalk.Main
import Smalltalk.Proofs.Step
import Smalltalk.Proofs.Rules
import Smalltalk.Proofs.Spelling
import Smalltalk.Proofs.Tiling
import Smalltalk.Proofs.Resumption
import Smalltalk.Proofs.RoundTrip
import Smalltalk.Proofs.LiteralFaults
import Smalltalk.Proofs.FaultOffsets
import Smalltalk.Proofs.Calls
import Smalltalk.Proofs.Blanks
import Smalltalk.Proofs.Separation
import Smalltalk.Proofs.Rendering
import Smalltalk.Proofs.Templates
import Smalltalk.Proofs.LineComments
import Smalltalk.Proofs.TemplateValues
import Smalltalk.Proofs.NumberText
import Smalltalk.Proofs.ScriptCode
import Smalltalk.Proofs.CommentsApart
import Smalltalk.Proofs.Lines
import Smalltalk.Proofs.Reports
import Smalltalk.Proofs.Iteration
import Smalltalk.Proofs.Locations
import Smalltalk.Proofs.Conversion
import Smalltalk.Proofs.Preservation
import Smalltalk.Proofs.Delivery
import Smalltalk.Proofs.Outcomes
import Smalltalk.Proofs.NumberCapture
import Smalltalk.Proofs.Repetition
import Smalltalk.Proofs.TokenDumps
import Smalltalk.Proofs.NumeralGrammar
import Smalltalk.Proofs.Rounding
import Smalltalk.Proofs.ShortestDigits
import Smalltalk.Proofs.CanonicalText
import Smalltalk.Proofs.RefusedLiterals
import Smalltalk.Proofs.Arithmetic
import Smalltalk.Proofs.LiteralValues
import Smalltalk.Proofs.IntegerLiterals
import Smalltalk.Proofs.Positions
import Smalltalk.Proofs.LongestTokens
import Smalltalk.Proofs.LineFeeds
import Smalltalk.Proofs.LetterCase
import Smalltalk.Proofs.LinePieces
import Smalltalk.Proofs.Carets
import Smalltalk.Proofs.QuotedTexts
import Smalltalk.Proofs.DumpLines
import Smalltalk.Proofs.JsonValues
import Smalltalk.Proofs.JsonDumps
import Smalltalk.Proofs.ErrorPlaces
import Smalltalk.Proofs.Destinations
import Smalltalk.Proofs.ByteCursors
import Smalltalk.Proofs.ByteLexers
