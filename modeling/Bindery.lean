import Bindery.Api
import Bindery.Bindings
import Bindery.CallError
import Bindery.Command
import Bindery.Command.Line
import Bindery.Command.Program
import Bindery.Command.Rehearsal
import Bindery.Config
import Bindery.Config.Read
import Bindery.Decimal.Binary64
import Bindery.Decimal.Notation
import Bindery.Decimal.Shortest
import Bindery.Declaration
import Bindery.Declaration.Closure
import Bindery.Definitions.Cache
import Bindery.Definitions.Manifest
import Bindery.Definitions.Published
import Bindery.Definitions.Script
import Bindery.Definitions.WebSource
import Bindery.Dict
import Bindery.Document
import Bindery.Document.Schema
import Bindery.Emission.DeclarationText
import Bindery.Emission.Header
import Bindery.Emission.OperationText
import Bindery.Emission.TypeText
import Bindery.Family
import Bindery.Files
import Bindery.Files.Path
import Bindery.Files.Tree
import Bindery.Generation
import Bindery.GenerationError
import Bindery.Http.Exchange
import Bindery.Http.Form
import Bindery.Http.Header
import Bindery.Http.Host
import Bindery.Http.Layer
import Bindery.Http.Percent
import Bindery.Http.Punycode
import Bindery.Http.Replay
import Bindery.Http.Request
import Bindery.Http.Url
import Bindery.Json.Decode
import Bindery.Json.Encode
import Bindery.Json.Number
import Bindery.Json.Pretty
import Bindery.Json.Tree
import Bindery.Json.Value
import Bindery.Log
import Bindery.Log.Filter
import Bindery.Main
import Bindery.NameIndex
import Bindery.Naming.DocComment
import Bindery.Naming.Identifier
import Bindery.Naming.Snake
import Bindery.Naming.TypeName
import Bindery.Operation
import Bindery.Operation.Gather
import Bindery.Proofs.Bytes
import Bindery.Proofs.Closure
import Bindery.Proofs.Comments
import Bindery.Proofs.Declarable
import Bindery.Proofs.Declared
import Bindery.Proofs.Definitions.Calls
import Bindery.Proofs.Definitions.Coherence
import Bindery.Proofs.Definitions.Conversation
import Bindery.Proofs.Definitions.Downloads
import Bindery.Proofs.Definitions.Exchange
import Bindery.Proofs.Definitions.Interleaving
import Bindery.Proofs.Definitions.Misses
import Bindery.Proofs.Definitions.Order
import Bindery.Proofs.Definitions.Refusal
import Bindery.Proofs.Definitions.Requests
import Bindery.Proofs.Definitions.Settling
import Bindery.Proofs.Definitions.Simultaneous
import Bindery.Proofs.Dependencies
import Bindery.Proofs.Descriptions
import Bindery.Proofs.Dictionary
import Bindery.Proofs.Distinctness
import Bindery.Proofs.Enumerations
import Bindery.Proofs.Envelopes
import Bindery.Proofs.Extension.Lookup
import Bindery.Proofs.Extension.Paths
import Bindery.Proofs.Extension.Runs
import Bindery.Proofs.Extension.Schemas
import Bindery.Proofs.Fields
import Bindery.Proofs.Flags
import Bindery.Proofs.Genericity
import Bindery.Proofs.Http.Headers
import Bindery.Proofs.Http.Layers
import Bindery.Proofs.Http.Percent
import Bindery.Proofs.Http.Query
import Bindery.Proofs.Http.Segments
import Bindery.Proofs.Identifiers
import Bindery.Proofs.Imports
import Bindery.Proofs.Inlining
import Bindery.Proofs.Json.Decoding
import Bindery.Proofs.Json.Numerals
import Bindery.Proofs.Json.Printing
import Bindery.Proofs.Json.Strings
import Bindery.Proofs.Json.Structures
import Bindery.Proofs.Json.Tokens
import Bindery.Proofs.KeyBounds
import Bindery.Proofs.Kinds
import Bindery.Proofs.Legibility
import Bindery.Proofs.Marking
import Bindery.Proofs.NameLookup
import Bindery.Proofs.Names
import Bindery.Proofs.Naming
import Bindery.Proofs.Operations
import Bindery.Proofs.Parameters
import Bindery.Proofs.Queue
import Bindery.Proofs.Quotation
import Bindery.Proofs.QuotedInts
import Bindery.Proofs.Renaming
import Bindery.Proofs.Spelling
import Bindery.Proofs.Steps
import Bindery.Proofs.Substitution
import Bindery.Proofs.Tables
import Bindery.Proofs.Typing.Agreement
import Bindery.Proofs.Typing.Form
import Bindery.Proofs.Typing.History
import Bindery.Proofs.Typing.Memory
import Bindery.Proofs.Typing.Rules
import Bindery.Proofs.Wire
import Bindery.Resolver
import Bindery.Text.Blank
import Bindery.Text.Integer
import Bindery.Text.Layout
import Bindery.Text.Printable
import Bindery.Text.Quoted
import Bindery.Text.Utf8
import Bindery.Toml.Document
import Bindery.Toml.Fill
import Bindery.Toml.Scalar
import Bindery.Toml.Value
import Bindery.TypeExpr
import Bindery.Wanted
import Bindery.Wire
import Bindery.Wire.Envelope
import Bindery.Wire.FlagSet
import Bindery.Wire.HashRef
import Bindery.Wire.Nullable
import Bindery.Wire.QuotedInt
