import ApiClientGen.Backend.Client
import ApiClientGen.Backend.Registry
import ApiClientGen.Canonical.Document
import ApiClientGen.Canonical.Openapi31
import ApiClientGen.Canonical.References
import ApiClientGen.Canonical.Schemas
import ApiClientGen.Canonical.Swagger.Description
import ApiClientGen.Canonical.Swagger.Operation
import ApiClientGen.Canonical.Swagger.Parameter
import ApiClientGen.Canonical.Swagger.Schema
import ApiClientGen.Canonical.Upgrade
import ApiClientGen.Client.BaseFile
import ApiClientGen.Client.Library
import ApiClientGen.Client.Literal
import ApiClientGen.Client.Methods
import ApiClientGen.Client.Models
import ApiClientGen.Client.Names
import ApiClientGen.Client.Packaging
import ApiClientGen.Client.Types
import ApiClientGen.Code.Docstring
import ApiClientGen.Code.Draft
import ApiClientGen.Code.Model
import ApiClientGen.Code.Output
import ApiClientGen.Code.Render
import ApiClientGen.CommandLine.Arguments
import ApiClientGen.CommandLine.Run
import ApiClientGen.Document.Calendar
import ApiClientGen.Document.Display
import ApiClientGen.Document.Fields
import ApiClientGen.Document.Raw
import ApiClientGen.Document.Value
import ApiClientGen.Extraction.Operations
import ApiClientGen.Extraction.Progress
import ApiClientGen.Extraction.Schemas
import ApiClientGen.Extraction.Scope
import ApiClientGen.Extraction.Spec
import ApiClientGen.Files.Path
import ApiClientGen.Files.System
import ApiClientGen.Files.Tree
import ApiClientGen.Generate
import ApiClientGen.Json.Reader
import ApiClientGen.Main
import ApiClientGen.Naming.Words
import ApiClientGen.Number.Binary64
import ApiClientGen.Number.Reading
import ApiClientGen.Number.Shortest
import ApiClientGen.Reference.Address
import ApiClientGen.Reference.Host
import ApiClientGen.Reference.Node
import ApiClientGen.Reference.Pointer
import ApiClientGen.Reference.Resolve
import ApiClientGen.Settings.Generation
import ApiClientGen.Settings.Options
import ApiClientGen.Settings.Saved
import ApiClientGen.Source.Format
import ApiClientGen.Source.Reading
import ApiClientGen.Source.Version
import ApiClientGen.Spec.Model
import ApiClientGen.Text.Layout
import ApiClientGen.Text.Identifier
import ApiClientGen.Text.Quoted
import ApiClientGen.Text.RangeTable
import ApiClientGen.Text.Split
import ApiClientGen.Text.Table.Alphanumeric
import ApiClientGen.Text.Table.DecimalDigit
import ApiClientGen.Text.Table.Identifier
import ApiClientGen.Text.Table.Unprintable
import ApiClientGen.Text.Utf8
import ApiClientGen.Toml.Lines
import ApiClientGen.Toml.Reader
import ApiClientGen.Toml.Texts
import ApiClientGen.Toml.Times
import ApiClientGen.Toml.Values
import ApiClientGen.Toml.Writer
import ApiClientGen.Yaml.Cursor
import ApiClientGen.Yaml.Node
import ApiClientGen.Yaml.Reader
import ApiClientGen.Yaml.Scalar
import ApiClientGen.Yaml.Token
import ApiClientGen.Yaml.Token.Scalar
import ApiClientGen.Yaml.Token.Stream
import ApiClientGen.Proofs.Canonical.FixedPoint
import ApiClientGen.Proofs.Canonical.NormalForm
import ApiClientGen.Proofs.Canonical.Swagger.SchemaForms
import ApiClientGen.Proofs.Client.ModelsFile
import ApiClientGen.Proofs.Document.Answers
import ApiClientGen.Proofs.Extraction.ComponentReferences
import ApiClientGen.Proofs.Extraction.Descriptions
import ApiClientGen.Proofs.Extraction.Endpoints
import ApiClientGen.Proofs.Extraction.Growth
import ApiClientGen.Proofs.Extraction.Interfaces
import ApiClientGen.Proofs.Extraction.MorePaths
import ApiClientGen.Proofs.Extraction.Nesting
import ApiClientGen.Proofs.Extraction.SchemaTable
import ApiClientGen.Proofs.Extraction.Parameters
import ApiClientGen.Proofs.Extraction.TypeLists
import ApiClientGen.Proofs.Reference.Addresses
import ApiClientGen.Proofs.Extraction.Nullability
import ApiClientGen.Proofs.Client.ClassNames
import ApiClientGen.Proofs.Client.MethodNames
import ApiClientGen.Proofs.Source.ReadingFaults
import ApiClientGen.Proofs.Source.FormatsAgree
import ApiClientGen.Proofs.Settings.SavedReadBack
import ApiClientGen.Proofs.Client.FilePlaces
import ApiClientGen.Proofs.CommandLine.Failures
import ApiClientGen.Proofs.Client.ImportableNames
import ApiClientGen.Proofs.Code.Docstrings
import ApiClientGen.Proofs.Canonical.Swagger.MisplacedParts
import ApiClientGen.Proofs.Literal.ReadBack
import ApiClientGen.Proofs.Extraction.CombinedSchemas
import ApiClientGen.Proofs.Client.ModelsMembers
import ApiClientGen.Proofs.Client.ArgumentNames
import ApiClientGen.Proofs.Client.OuterNames
import ApiClientGen.Proofs.Client.FieldNames
import ApiClientGen.Proofs.Canonical.NumericBounds
import ApiClientGen.Proofs.Client.FieldKeys
import ApiClientGen.Proofs.Client.Enumerations
import ApiClientGen.Proofs.Canonical.KeptKeywords
import ApiClientGen.Proofs.Canonical.Swagger.ReferencedParameters
import ApiClientGen.Proofs.Yaml.UnrolledValues
import ApiClientGen.Proofs.Naming.WordBoundaries
import ApiClientGen.Proofs.Canonical.Swagger.ComparedKeys
