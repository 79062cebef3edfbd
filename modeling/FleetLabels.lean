import FleetLabels.ClientObject
import FleetLabels.Config
import FleetLabels.Draft
import FleetLabels.Inventory
import FleetLabels.Metrics
import FleetLabels.Yaml
import FleetLabels.Proofs.ApiVersion
import FleetLabels.Proofs.ClusterKey
import FleetLabels.Proofs.Complement
import FleetLabels.Proofs.ConfiguredKinds
import FleetLabels.Proofs.ContentHash
import FleetLabels.Proofs.CountBounds
import FleetLabels.Proofs.Deletion
import FleetLabels.Proofs.Drafts
import FleetLabels.Proofs.FailClosed
import FleetLabels.Proofs.FailureCount
import FleetLabels.Proofs.Gathering
import FleetLabels.Proofs.Handover
import FleetLabels.Proofs.InputOrder
import FleetLabels.Proofs.Isolation
import FleetLabels.Proofs.LabelOwners
import FleetLabels.Proofs.Listing
import FleetLabels.Proofs.PassContents
import FleetLabels.Proofs.Provisioning
import FleetLabels.Proofs.Recognition
import FleetLabels.Proofs.Reconciliation
import FleetLabels.Proofs.Registration
import FleetLabels.Proofs.Reload
import FleetLabels.Proofs.ReportName
import FleetLabels.Proofs.Restriction
import FleetLabels.Proofs.RoundTrip
import FleetLabels.Proofs.ScriptRuns
import FleetLabels.Proofs.Selection
import FleetLabels.Proofs.TimeOrder
import FleetLabels.Proofs.VersionGrammar
import FleetLabels.Proofs.VersionOrder
import FleetLabels.Proofs.Watching
