import GameScript.Definition.Basic
import GameScript.Definition.Kind
import GameScript.Extract.Build
import GameScript.Extract.Classify
import GameScript.Extract.File
import GameScript.Extract.Naming
import GameScript.Fault
import GameScript.Intake
import GameScript.Path
import GameScript.Proofs.Script.Lexing
import GameScript.Reader.Basic
import GameScript.Reader.BuiltIn
import GameScript.Reader.Defines
import GameScript.Reader.Files
import GameScript.Reader.Localization
import GameScript.Reader.Lua
import GameScript.Reader.Objects
import GameScript.Reader.PathSet
import GameScript.Reader.Registry
import GameScript.Reader.Settings
import GameScript.Script.Balance
import GameScript.Script.Element
import GameScript.Script.Layout
import GameScript.Script.Lexer
import GameScript.Script.Position
import GameScript.Script.Settings
import GameScript.Script.Source
import GameScript.Script.Token
import GameScript.Script.Tree
import GameScript.Store.Basic
import GameScript.Store.Catalog
import GameScript.Store.Index
import GameScript.Store.KeyCount
import GameScript.Store.Node
import GameScript.Store.Outline
import GameScript.Store.Table
import GameScript.Store.TagTrie
import GameScript.Text.Basic
import GameScript.Text.Case
import GameScript.Text.CaseTable
import GameScript.Text.Condensed
import GameScript.Text.Digest
import GameScript.Text.Numeral
import GameScript.Text.Order
import GameScript.Text.WordChar
import GameScript.Proofs.Script.Spacing
import GameScript.Proofs.Script.Canonical
import GameScript.Proofs.Script.Printing
import GameScript.Proofs.Script.Automaton
import GameScript.Proofs.Script.Steps
import GameScript.Proofs.Script.Descent
import GameScript.Proofs.Script.Spelling
import GameScript.Proofs.Script.RoundTrip
import GameScript.Proofs.Script.Tolerance
import GameScript.Proofs.Script.Effects
import GameScript.Proofs.Extract.Checking
import GameScript.Proofs.Store.Index
import GameScript.Proofs.Store.KeyCount
import GameScript.Proofs.Store.Catalog
import GameScript.Proofs.Store.Runs
import GameScript.Proofs.Text.Condensed
import GameScript.Proofs.Text.SingleLine
import GameScript.Proofs.Script.Condensing
import GameScript.Proofs.Script.Fingerprint
import GameScript.Proofs.Script.Grammar
import GameScript.Proofs.Script.Acceptance
import GameScript.Proofs.Store.Table
import GameScript.Proofs.Text.Ordering
import GameScript.Proofs.Store.TagIndex
import GameScript.Proofs.Store.TagTrie
import GameScript.Proofs.Store.Search
import GameScript.Proofs.Store.Outline
import GameScript.Proofs.Store.Nodes
import GameScript.Proofs.Store.Ledger
import GameScript.Proofs.Path
import GameScript.Proofs.Extract.Provenance
import GameScript.Proofs.Reader.Stamps
import GameScript.Proofs.Store.Sharing
import GameScript.Proofs.Store.Undo
import GameScript.Proofs.Extract.Completeness
import GameScript.Proofs.Script.Soundness
import GameScript.Proofs.Script.Tidying
import GameScript.Proofs.Extract.Meaning
import GameScript.Proofs.Script.Brackets
import GameScript.Proofs.Script.Rereading
import GameScript.Proofs.Script.Redrawing
import GameScript.Proofs.Text.Case
import GameScript.Proofs.Definition.Building
import GameScript.Proofs.Store.Stock
import GameScript.Proofs.Store.Listing
import GameScript.Proofs.Store.Finding
import GameScript.Proofs.Store.NodeKeys
import GameScript.Proofs.Script.Spread
import GameScript.Proofs.Script.Steady
import GameScript.Proofs.Script.Gaps
import GameScript.Proofs.Script.Places
import GameScript.Proofs.Script.Hashing
import GameScript.Proofs.Script.Tiling
import GameScript.Proofs.Reader.Failures
import GameScript.Proofs.Text.WordChar
import GameScript.Proofs.Reader.Localization
import GameScript.Proofs.Reader.Lua
import GameScript.Proofs.Reader.Writings
import GameScript.Proofs.Reader.Assignments
import GameScript.Proofs.Reader.Defines
import GameScript.Proofs.Script.Conservation
import GameScript.Proofs.Script.Nesting
import GameScript.Proofs.Script.Rewrapping
import GameScript.Proofs.Reader.ValueLists
import GameScript.Proofs.Reader.CommentLines
import GameScript.Proofs.Reader.Complaints
import GameScript.Proofs.Reader.Locales
import GameScript.Proofs.Script.Written
import GameScript.Proofs.Reader.Keyed
import GameScript.Proofs.Reader.Selection
import GameScript.Proofs.Script.LineByLine
import GameScript.Proofs.Script.Evident
import GameScript.Proofs.Script.BraceTally
import GameScript.Proofs.Script.BraceChecks
import GameScript.Proofs.Script.BracesOutside
import GameScript.Proofs.Script.Cleaning
import GameScript.Proofs.Script.Pruning
import GameScript.Proofs.Script.Indentation
import GameScript.Proofs.Script.TokenHash
import GameScript.Proofs.Reader.PathSet
import GameScript.Proofs.Definition.History
import GameScript.Proofs.Script.FaultPlaces
import GameScript.Proofs.Script.Respacing
import GameScript.Proofs.Script.Shapes
import GameScript.Proofs.Extract.Wrapping
import GameScript.Proofs.Reader.Ids
import GameScript.Proofs.Text.LooseBlanks
import GameScript.Proofs.Folders
