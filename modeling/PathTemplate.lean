import PathTemplate.Json
import PathTemplate.Path
import PathTemplate.Template.Printer
import PathTemplate.Proofs.Template.Grammar
import PathTemplate.Proofs.Template.WellFormed
import PathTemplate.Proofs.Template.Slices
import PathTemplate.Proofs.Template.Offence
import PathTemplate.Proofs.Template.Parsed
import PathTemplate.Proofs.Loose
import PathTemplate.Proofs.Rebuild
import PathTemplate.Proofs.RoundTrip
import PathTemplate.Proofs.Segment.Build
import PathTemplate.Proofs.Accept
import PathTemplate.Proofs.Names
import PathTemplate.Proofs.Numbering
import PathTemplate.Proofs.Runs
import PathTemplate.Proofs.Anchors
import PathTemplate.Proofs.Encoded
import PathTemplate.Proofs.Resolution
import PathTemplate.Proofs.Json
import PathTemplate.Proofs.Written
import PathTemplate.Proofs.Elements
import PathTemplate.Proofs.Captureless
import PathTemplate.Proofs.Optional
import PathTemplate.Proofs.Strict
import PathTemplate.Proofs.Expression.Budget
import PathTemplate.Proofs.Refusal
import PathTemplate.Proofs.Expression.Cut
import PathTemplate.Proofs.Expression.Bytes
