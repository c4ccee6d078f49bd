import ParamForm.Condition.Visible
import ParamForm.Definition.Service
import ParamForm.Proofs.Text.Units
import ParamForm.Proofs.Yaml.Cursor
import ParamForm.Proofs.Yaml.Plain
import ParamForm.Proofs.Number.Digits
import ParamForm.Proofs.Value.WellFormed
import ParamForm.Proofs.Yaml.BlockScalar
import ParamForm.Proofs.Yaml.Inline
import ParamForm.Proofs.Yaml.Mapping
import ParamForm.Proofs.Yaml.Numeral
import ParamForm.Proofs.Yaml.RoundTrip
import ParamForm.Proofs.Yaml.Ending.Document
import ParamForm.Proofs.Document
import ParamForm.Proofs.Definition.Add
import ParamForm.Proofs.Definition.Separation
import ParamForm.Proofs.Parameter.Shape
import ParamForm.Proofs.Parameter.Winner
import ParamForm.Proofs.Schema.Property
import ParamForm.Proofs.Parameter.Derive
import ParamForm.Proofs.Parameter.Distinct
import ParamForm.Proofs.Parameter.Keys
import ParamForm.Proofs.Schema.Widget
import ParamForm.Proofs.Schema.Node
import ParamForm.Proofs.Parameter.Returns
import ParamForm.Proofs.Condition.Reference
import ParamForm.Proofs.Parameter.Account
import ParamForm.Proofs.Parameter.Arranged
import ParamForm.Proofs.Schema.Reorder
import ParamForm.Proofs.Parameter.Reorder
import ParamForm.Proofs.Parameter.Relabel
import ParamForm.Proofs.Yaml.Flow
import ParamForm.Proofs.Schema.Json
import ParamForm.Proofs.Parameter.Siblings
import ParamForm.Proofs.Number.Integer
import ParamForm.Proofs.Options
import ParamForm.Proofs.Parameter.FurtherKeys
import ParamForm.Proofs.Number.Count
import ParamForm.Proofs.Parameter.Resort
import ParamForm.Proofs.Parameter.Numbering
import ParamForm.Proofs.Parameter.Repatch
import ParamForm.Proofs.Parameter.Tour
import ParamForm.Proofs.Parameter.Coherent
import ParamForm.Proofs.Parameter.Tag
import ParamForm.Proofs.Parameter.Address
import ParamForm.Proofs.Condition.Comparison
import ParamForm.Proofs.Condition.Issues
import ParamForm.Proofs.Override.Exact
import ParamForm.Proofs.Definition.Hits
import ParamForm.Proofs.Diagnostic
import ParamForm.Proofs.Schema.Document
import ParamForm.Proofs.Yaml.Date
