import RunPlan.Main
import RunPlan.Workflow.Mode
import RunPlan.Proofs.EnvFile
import RunPlan.Proofs.Schedule
import RunPlan.Proofs.Binary64
import RunPlan.Proofs.Decimal
import RunPlan.Proofs.Decode
import RunPlan.Proofs.Environment
import RunPlan.Proofs.Export
import RunPlan.Proofs.LoaderAgreement
import RunPlan.Proofs.RoundTrip
import RunPlan.Proofs.Printed
import RunPlan.Proofs.Resume
import RunPlan.Proofs.Validity
import RunPlan.Proofs.ExportedPlan
import RunPlan.Proofs.Connections
import RunPlan.Proofs.Case
import RunPlan.Proofs.Variable
import RunPlan.Proofs.Override
import RunPlan.Proofs.MergeOrder
import RunPlan.Proofs.OverrideOrder
import RunPlan.Proofs.Nearest
import RunPlan.Proofs.Kept
import RunPlan.Proofs.ScheduleForm
import RunPlan.Proofs.NullDocuments
import RunPlan.Proofs.Follow
import RunPlan.Proofs.Component
import RunPlan.Proofs.FileSystem
import RunPlan.Proofs.Prepare
import RunPlan.Proofs.Prepared
import RunPlan.Proofs.Refused
import RunPlan.Proofs.PrintedEnvironment
import RunPlan.Proofs.ResolvedEnvironment
import RunPlan.Proofs.Identity
import RunPlan.Proofs.Enumeration
import RunPlan.Proofs.BoundedRun
import RunPlan.Proofs.ProblemOrder
import RunPlan.Proofs.Seeding
import RunPlan.Proofs.LogFiles
import RunPlan.Proofs.RequiredFields
import RunPlan.Proofs.WordMultiples
import RunPlan.Proofs.ComponentNames
import RunPlan.Proofs.Create
