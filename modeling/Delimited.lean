import Delimited.Main
import Delimited.Proofs.Grammar.Rejection
import Delimited.Proofs.RoundTrip
import Delimited.Proofs.Grammar.LineBreaks
import Delimited.Proofs.Grammar.Composition
import Delimited.Proofs.Recovery
import Delimited.Proofs.Unwinding
import Delimited.Proofs.Encoding.Utf8
import Delimited.Proofs.Path
import Delimited.Proofs.FileTree
import Delimited.Proofs.Job
import Delimited.Proofs.Table.Layout
import Delimited.Proofs.Conversion.Source
import Delimited.Proofs.Conversion.Export
import Delimited.Proofs.Config.Validation
import Delimited.Proofs.Conversion.Transform
import Delimited.Proofs.Conversion.Workflow
import Delimited.Proofs.Conversion.Fixpoint
import Delimited.Proofs.Yaml.Double
import Delimited.Proofs.Yaml.Plain
import Delimited.Proofs.Yaml.Scalar
import Delimited.Proofs.Yaml.Mapping
import Delimited.Proofs.Config.File
import Delimited.Proofs.FileTree.Confined
import Delimited.Proofs.Effects
import Delimited.Proofs.Conversion.Files
import Delimited.Proofs.Conversion.Confinement
import Delimited.Proofs.Conversion.Inquiry
import Delimited.Proofs.Conversion.Repetition
import Delimited.Proofs.Batch.Effect
import Delimited.Proofs.Batch.Rejection
import Delimited.Proofs.Batch.Outputs
import Delimited.Proofs.Conversion.Decoding
import Delimited.Proofs.Grammar.Quoting
import Delimited.Proofs.Iteration
import Delimited.Proofs.Conversion.Description
import Delimited.Proofs.Grammar.Concatenation
import Delimited.Proofs.Ragged
import Delimited.Proofs.PlainText
import Delimited.Proofs.Table.Inference
import Delimited.Proofs.Decimal.Rounding
import Delimited.Proofs.Decimal.Shortest
import Delimited.Proofs.Table.Rendering
import Delimited.Proofs.Table.Selection
import Delimited.Proofs.Table.Exactness
import Delimited.Proofs.Grammar.Shape
import Delimited.Proofs.Conversion.Acceptance
import Delimited.Proofs.Conversion.Refusal
import Delimited.Proofs.Location
