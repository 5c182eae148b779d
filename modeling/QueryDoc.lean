import QueryDoc.Error
import QueryDoc.NameMap
import QueryDoc.Numeric.Shortest
import QueryDoc.Numeric.Layout
import QueryDoc.Numeric.Numeral
import QueryDoc.Numeric.Word
import QueryDoc.Text.Quoted
import QueryDoc.Text.StringLiteral
import QueryDoc.Json.Text
import QueryDoc.Json.Token
import QueryDoc.Json.Read
import QueryDoc.Writing
import QueryDoc.Value.Json
import QueryDoc.Store.Outline
import QueryDoc.Request.Update
import QueryDoc.Request.Read
import QueryDoc.Proofs.Unfolding
import QueryDoc.Proofs.Grammar.RoundTrip
import QueryDoc.Proofs.Occurrence
import QueryDoc.Proofs.Equality
import QueryDoc.Proofs.Appending
import QueryDoc.Proofs.FieldLists
import QueryDoc.Proofs.Limit
import QueryDoc.Proofs.Json.Values
import QueryDoc.Proofs.Body
import QueryDoc.Proofs.Grammar.Literal
import QueryDoc.Proofs.LineFree
import QueryDoc.Proofs.Comparison
import QueryDoc.Proofs.Json.Same
import QueryDoc.Proofs.Lines
import QueryDoc.Proofs.Variables
import QueryDoc.Proofs.Substitution
import QueryDoc.Proofs.Nesting
import QueryDoc.Proofs.Arguments
import QueryDoc.Proofs.Operations
import QueryDoc.Proofs.Names
import QueryDoc.Proofs.Members
import QueryDoc.Proofs.Siblings
import QueryDoc.Proofs.PlainLists
import QueryDoc.Proofs.Updates
import QueryDoc.Proofs.Mirroring
import QueryDoc.Proofs.Integers
import QueryDoc.Proofs.Floats
