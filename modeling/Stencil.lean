import Stencil.Command.Verbosity
import Stencil.Main
import Stencil.Proofs.Schema.Written
import Stencil.Proofs.Schema.Blueprint
import Stencil.Proofs.Schema.Passage
import Stencil.Proofs.Schema.Shapes
import Stencil.Proofs.Schema.TokenPassage
import Stencil.Proofs.Ordered
import Stencil.Proofs.Schema.FieldTypes
import Stencil.Proofs.Schema.Declared
import Stencil.Proofs.Schema.RoundTrip
import Stencil.Proofs.Schema.Concatenation
import Stencil.Proofs.Files.Growth
import Stencil.Proofs.Files.Links
import Stencil.Proofs.Files.History
import Stencil.Proofs.Project.Calls
import Stencil.Proofs.Files.Location
import Stencil.Proofs.Spelling
import Stencil.Proofs.Template.Outputs
import Stencil.Proofs.Template.Filled
import Stencil.Proofs.Project.Places
import Stencil.Proofs.Project.FirstCandidate
import Stencil.Proofs.Project.ModuleFiles
import Stencil.Proofs.Template.Replacement
import Stencil.Proofs.Schema.Unclosed
import Stencil.Proofs.Template.LastNames
import Stencil.Proofs.Project.Accounts
import Stencil.Proofs.Project.Reports
import Stencil.Proofs.Template.Bounds
import Stencil.Proofs.Files.Confined
import Stencil.Proofs.Project.Inside
import Stencil.Proofs.Schema.Comments
import Stencil.Proofs.Schema.Literals
import Stencil.Proofs.Schema.WellFormed
import Stencil.Proofs.Schema.TokenPositions
import Stencil.Proofs.Project.Preview
import Stencil.Proofs.Project.Commute
import Stencil.Proofs.Settings.Precedence
import Stencil.Proofs.Schema.DeclaredModels
import Stencil.Proofs.Schema.RelationFields
import Stencil.Proofs.PascalCase
import Stencil.Proofs.Words
import Stencil.Proofs.SpeltTwice
import Stencil.Proofs.TypeScript
import Stencil.Proofs.SelfDelimiting
import Stencil.Proofs.Schema.Edited
import Stencil.Proofs.Schema.JsonText
import Stencil.Proofs.Schema.Unbroken
import Stencil.Proofs.Schema.Pieces
import Stencil.Proofs.Schema.Layouts
import Stencil.Proofs.Schema.Lookup
import Stencil.Proofs.Schema.Veiled
import Stencil.Proofs.Settings.NamedFile
import Stencil.Proofs.Template.Specifiers
import Stencil.Proofs.Template.Imports
