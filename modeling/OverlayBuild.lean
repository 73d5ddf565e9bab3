import OverlayBuild.Build.Event
import OverlayBuild.Build.Flow
import OverlayBuild.Build.Schedule
import OverlayBuild.CommandLine.Run
import OverlayBuild.Launch
import OverlayBuild.Main
import OverlayBuild.Proofs.Build.Alone
import OverlayBuild.Trace
import OverlayBuild.Proofs.Build.Lock
import OverlayBuild.Proofs.Build.Standing
import OverlayBuild.Proofs.Build.Exclusion
import OverlayBuild.Proofs.Build.Course
import OverlayBuild.Proofs.Build.Context
import OverlayBuild.Proofs.Build.Staged
import OverlayBuild.Proofs.Build.Plain
import OverlayBuild.Proofs.Resource.Identifier
import OverlayBuild.Proofs.Resource.Result
import OverlayBuild.Proofs.Spec.Compose
import OverlayBuild.Proofs.Spec.Document
import OverlayBuild.Proofs.Spec.Labels
import OverlayBuild.Proofs.Spec.Pruning
import OverlayBuild.Proofs.Value.Alike
import OverlayBuild.Proofs.Json.Canonical
import OverlayBuild.Proofs.Resource.Document
import OverlayBuild.Proofs.Resource.Order
import OverlayBuild.Proofs.Build.Flow
import OverlayBuild.Proofs.Build.Report
import OverlayBuild.Proofs.Json.Readable
import OverlayBuild.Proofs.Spec.Written
import OverlayBuild.Proofs.Build.Output
import OverlayBuild.Proofs.Build.Progress
import OverlayBuild.Proofs.CommandLine.Run
import OverlayBuild.Proofs.Report.Format
import OverlayBuild.Proofs.Resource.Tier
import OverlayBuild.Proofs.Resource.Assembly
import OverlayBuild.Proofs.Value.Formed
import OverlayBuild.Proofs.Spec.Total
import OverlayBuild.Proofs.Resource.Validation
import OverlayBuild.Proofs.Resource.Distinct
import OverlayBuild.Proofs.Resource.Grammar
import OverlayBuild.Proofs.Resource.Rendered
import OverlayBuild.Proofs.Spec.Faithful
import OverlayBuild.Proofs.CommandLine.Overlay
import OverlayBuild.Proofs.Spec.Attributes
import OverlayBuild.Proofs.Spec.Count
import OverlayBuild.Proofs.Command
import OverlayBuild.Proofs.Report.Columns
import OverlayBuild.Proofs.Trace
import OverlayBuild.Proofs.Json.Ascii
import OverlayBuild.Proofs.Json.Reader
import OverlayBuild.Proofs.Json.Reading
import OverlayBuild.Proofs.Report.Json
