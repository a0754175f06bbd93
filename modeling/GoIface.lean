import GoIface.CommandLine.Options
import GoIface.CommandLine.Run
import GoIface.Diagnostic
import GoIface.Direction
import GoIface.Files.Environment
import GoIface.Files.Fault
import GoIface.Files.FileSystem
import GoIface.Files.Header
import GoIface.Files.ModuleFile
import GoIface.Files.Package
import GoIface.Files.Path
import GoIface.Files.Platform
import GoIface.Files.Reading
import GoIface.Files.Resolution
import GoIface.Flat
import GoIface.Flat.Arena
import GoIface.Flat.Declarations
import GoIface.Flat.Types
import GoIface.Flat.Visitor
import GoIface.ImportPath
import GoIface.Lexeme
import GoIface.Lexeme.Reader
import GoIface.Lexeme.Stream
import GoIface.Main
import GoIface.Model
import GoIface.Model.Conversion
import GoIface.Model.Extraction
import GoIface.Model.Imports
import GoIface.Model.Length
import GoIface.Model.Packages
import GoIface.Model.Rendering
import GoIface.Model.Report
import GoIface.Piece
import GoIface.Piece.Delimited
import GoIface.Piece.Numeral
import GoIface.Position
import GoIface.Proofs.Taking
import GoIface.Span
import GoIface.Symbols
import GoIface.Text.Affix
import GoIface.Text.Blank
import GoIface.Text.Cut
import GoIface.Text.Letter
import GoIface.Text.Quoted
import GoIface.Text.Ranges
import GoIface.Text.Uppercase
import GoIface.Text.Word
import GoIface.Token
import GoIface.Tree
import GoIface.Tree.Brackets
import GoIface.Tree.Cursor
import GoIface.Tree.Declarations
import GoIface.Tree.Fold
import GoIface.Tree.Grouping
import GoIface.Tree.Outline
import GoIface.Tree.Types
import GoIface.Tree.Visitor
import GoIface.Proofs.Balance
import GoIface.Proofs.Writing
import GoIface.Proofs.Entries
import GoIface.Proofs.ParamLists
import GoIface.Proofs.TypeReading
import GoIface.Proofs.Levels
import GoIface.Proofs.ParamGrouping
import GoIface.Proofs.Lexing
import GoIface.Proofs.Rendering
import GoIface.Proofs.WrittenTypes
import GoIface.Proofs.FileReading
import GoIface.Proofs.RoundTrip
import GoIface.Proofs.Channels
import GoIface.Proofs.Tiling
import GoIface.Proofs.Contents
import GoIface.Proofs.Layout
import GoIface.Proofs.Holding
import GoIface.Proofs.Readings
import GoIface.Proofs.ParamContents
import GoIface.Proofs.TypeContents
import GoIface.Proofs.FileContents
import GoIface.Proofs.Numbering
import GoIface.Proofs.Places
import GoIface.Proofs.ImportPaths
import GoIface.Proofs.SpanSafety
import GoIface.Proofs.ClippedNumerals
import GoIface.Proofs.Clipping
import GoIface.Proofs.Excerpts
import GoIface.Proofs.MovedTrees
import GoIface.Proofs.Relocation
import GoIface.Proofs.Endings
import GoIface.Proofs.LookingAhead
import GoIface.Proofs.Unrolling
import GoIface.Proofs.Steadiness
import GoIface.Proofs.Rereading
import GoIface.Proofs.InsertedSemicolons
import GoIface.Proofs.Prolonging
import GoIface.Proofs.Lines
import GoIface.Proofs.Respelling
import GoIface.Proofs.LongestNumerals
import GoIface.Proofs.RuleStarts
import GoIface.Proofs.LongestMatch
import GoIface.Proofs.Adjoining
import GoIface.Proofs.DeclSteadiness
import GoIface.Proofs.Discovery
import GoIface.Proofs.Exchanging
import GoIface.Proofs.FileModels
import GoIface.Proofs.Fillings
import GoIface.Proofs.FirstRefusal
import GoIface.Proofs.FormParts
import GoIface.Proofs.Holes
import GoIface.Proofs.ImportTable
import GoIface.Proofs.Independence
import GoIface.Proofs.LineFeeds
import GoIface.Proofs.Offences
import GoIface.Proofs.Parallel
import GoIface.Proofs.PlacedModels
import GoIface.Proofs.PlacedReading
import GoIface.Proofs.PlacedTrees
import GoIface.Proofs.Placing
import GoIface.Proofs.Rows
import GoIface.Proofs.SameTokens
import GoIface.Proofs.Skipping
import GoIface.Proofs.TypeLayout
import GoIface.Proofs.WellFormedModels
import GoIface.Proofs.Aliases
import GoIface.Proofs.Heads
import GoIface.Proofs.ImportEdits
import GoIface.Proofs.ArrayLengths
import GoIface.Proofs.BracketLanguage
import GoIface.Proofs.DeclaredArrays
import GoIface.Proofs.Insides
import GoIface.Proofs.NestingLimit
import GoIface.Proofs.DigitSeparators
import GoIface.Proofs.EntryRuns
import GoIface.Proofs.LexemeReaders
import GoIface.Proofs.Qualifiers
import GoIface.Proofs.Pruning
import GoIface.Proofs.LinePositions
import GoIface.Proofs.PackageClauses
import GoIface.Proofs.ReportNames
import GoIface.Proofs.Cuts
import GoIface.Proofs.PathSteps
import GoIface.Proofs.EnclosingModules
import GoIface.Proofs.PackagePlaces
import GoIface.Proofs.Following
import GoIface.Proofs.SelectedFiles
import GoIface.Proofs.FileChanges
import GoIface.Proofs.PackageSearch
import GoIface.Proofs.PlacesPassed
import GoIface.Proofs.Spellings
import GoIface.Proofs.HeaderLines
import GoIface.Proofs.BuildLines
import GoIface.Proofs.PlatformNames
import GoIface.Proofs.ModuleLines
import GoIface.Proofs.Kinds
import GoIface.Proofs.Listings
import GoIface.Proofs.MadeDirectories
import GoIface.Proofs.Runs
import GoIface.Proofs.Interning
import GoIface.Proofs.BracketReadings
import GoIface.Proofs.Visits
import GoIface.Proofs.Arenas
import GoIface.Proofs.References
import GoIface.Proofs.StoredTrees
import GoIface.Proofs.ArenaVisits
import GoIface.Proofs.Building
import GoIface.Proofs.BuiltTrees
import GoIface.Proofs.Room
import GoIface.Proofs.OneTree
