import Provision.Main
import Provision.Stack.Scripted
import Provision.Proofs.Layout.Compilation
import Provision.Proofs.Layout.NamesApart
import Provision.Proofs.Layout.Resolution
import Provision.Proofs.Placement.InstanceHints
import Provision.Proofs.Session.Lookup
import Provision.Proofs.Stack.History
import Provision.Proofs.Stack.Consistency
import Provision.Proofs.Topology.Acceptance
import Provision.Proofs.Session.Registration
import Provision.Proofs.Layout.Requests
import Provision.Proofs.Layout.OutputNames
import Provision.Proofs.Layout.Ports
import Provision.Proofs.Stack.Reporting
import Provision.Proofs.Deployment.Readback
import Provision.Proofs.Deployment.Recompilation
import Provision.Proofs.Graph.Order
import Provision.Proofs.Declaration.RoundTrip
import Provision.Proofs.Stack.Sweep
import Provision.Proofs.Stack.CreationOrder
import Provision.Proofs.Stack.Cancellation
import Provision.Proofs.Stack.Race
import Provision.Proofs.Lifecycle.Histories
import Provision.Proofs.Graph.Rendering
import Provision.Proofs.Stack.Polling
import Provision.Proofs.Stack.Prompt
import Provision.Proofs.Render.Templates
import Provision.Proofs.Render.Simulation
import Provision.Proofs.Placement.StableOrder
import Provision.Proofs.Topology.Roster
import Provision.Proofs.Deployment.Failure
import Provision.Proofs.Stack.Retries
import Provision.Proofs.Topology.InstanceNames
import Provision.Proofs.Layout.Wiring
import Provision.Proofs.Layout.FloatingIps
import Provision.Proofs.Layout.Newcomer
import Provision.Proofs.Deployment.Renewal
import Provision.Proofs.Declaration.Tables
import Provision.Proofs.Deployment.Plausible
import Provision.Proofs.Stack.Playback
