import SchemaAssist.Completion.Suggest
import SchemaAssist.Proofs.Completion.Suggest
import SchemaAssist.Proofs.Json.Reading
import SchemaAssist.Proofs.Registry.Freshness
import SchemaAssist.Proofs.Registry.Recency
import SchemaAssist.Registry.Request
import SchemaAssist.Text.Marked
import SchemaAssist.Proofs.Schema.Walk
import SchemaAssist.Proofs.Resource.GeneratedTree
import SchemaAssist.Proofs.Cursor.Misreading
import SchemaAssist.Proofs.Json.Writing
import SchemaAssist.Proofs.Template.Literal
import SchemaAssist.Proofs.Template.Member
import SchemaAssist.Proofs.Completion.InsertText
import SchemaAssist.Proofs.Cursor.Borrowed
import SchemaAssist.Proofs.Cursor.TypedMember
import SchemaAssist.Proofs.Completion.Continuation
import SchemaAssist.Proofs.Cursor.Nesting
import SchemaAssist.Proofs.Json.Characters
import SchemaAssist.Proofs.Registry.Content
import SchemaAssist.Proofs.Schema.Keywords
import SchemaAssist.Proofs.Schema.Required
import SchemaAssist.Proofs.Schema.Navigation
import SchemaAssist.Proofs.Cursor.Completed
import SchemaAssist.Proofs.Template.Path
import SchemaAssist.Proofs.Template.Numbering
import SchemaAssist.Proofs.Completion.Invitation
import SchemaAssist.Proofs.Json.Numeral
import SchemaAssist.Proofs.Json.WellFormed
import SchemaAssist.Proofs.Template.Faithful
import SchemaAssist.Proofs.Cursor.NamedMember
import SchemaAssist.Proofs.Completion.InlineText
import SchemaAssist.Proofs.Registry.Fruitless
import SchemaAssist.Proofs.Resource.FieldTypes
import SchemaAssist.Proofs.Completion.EnumOrder
import SchemaAssist.Proofs.Completion.MinimalTemplate
import SchemaAssist.Proofs.Resource.TypeName
import SchemaAssist.Proofs.Text.Marked
import SchemaAssist.Proofs.Cursor.OnePass
import SchemaAssist.Proofs.Cursor.Segments
import SchemaAssist.Proofs.Cursor.DecodedKey
import SchemaAssist.Proofs.Cursor.Indentation
