import CommonMeasure.Evidence.Publish
import CommonMeasure.Relay.Delivered
import CommonMeasure.Relay.Accounted
import CommonMeasure.Allowance.Settlement
import CommonMeasure.Allowance.Reports
import CommonMeasure.CrawlDelay.Files
import CommonMeasure.CrawlDelay.Spacing
import CommonMeasure.CrawlDelay.Exclusion
import CommonMeasure.Observation.Sessions
import CommonMeasure.Observation.Completions
import CommonMeasure.Optimise.Lossless
import CommonMeasure.Integrity.Intact
import CommonMeasure.Integrity.Outcomes
import CommonMeasure.Integrity.Record
import CommonMeasure.Artifact.Bundle
import CommonMeasure.Hosted.Verified
import CommonMeasure.Passes.Accounted
import CommonMeasure.Supply.Alike
import CommonMeasure.Instances.Closed
import CommonMeasure.Admission.Exact
import CommonMeasure.Published.Exact
import CommonMeasure.Turn.Stop
import CommonMeasure.Declarations.Crossings
import CommonMeasure.Declarations.Ends
import CommonMeasure.Declarations.Entered
import CommonMeasure.Mediation.Reserved
import CommonMeasure.Reporting.Promised
import CommonMeasure.Mediation.Sent
import CommonMeasure.Scopes.Resolved
import CommonMeasure.Evidence.Resumed
import CommonMeasure.Declarations.Refused
import CommonMeasure.Declarations.Contained
import CommonMeasure.CrawlDelay.Pacing
import CommonMeasure.Declarations.Reordered
import CommonMeasure.Supply.Edits
import CommonMeasure.Routes.Chosen
import CommonMeasure.Reporting.Binding
import CommonMeasure.Identity.Hops
import CommonMeasure.Processor.Screened
import CommonMeasure.Grounding.Fidelity
import CommonMeasure.Declarations.Licensed
import CommonMeasure.Admission.Modes
import CommonMeasure.Display.Delivered
import CommonMeasure.Evidence.Owed
import CommonMeasure.Json.Sealed
import CommonMeasure.Mediation.Parts
import CommonMeasure.Mediation.Deliver
