import K8sDev.Lts.Run
import K8sDev.Lts.Loop
import K8sDev.Lts.Mealy
import K8sDev.Lts.Memo
import K8sDev.Lts.Notify
import K8sDev.Lease.Lifecycle
import K8sDev.Cyclic.Window
import K8sDev.Path.Clean
import K8sDev.Json.Value
import K8sDev.Json.Merge
import K8sDev.Json.Path
import K8sDev.Heap.Tree
import K8sDev.Table.Basic
import K8sDev.Script.Basic
import K8sDev.Text.Lines
import K8sDev.Poll.Loop
import K8sDev.Spec.Http
import K8sDev.Spec.Broker
import K8sDev.Spec.Eager
import K8sDev.Spec.Consumer
import K8sDev.Spec.Drain
import K8sDev.Spec.Counters
import K8sDev.Spec.Devices
import K8sDev.Spec.Allocate
import K8sDev.Spec.Rpc
import K8sDev.Spec.Admission
import K8sDev.Spec.Webhook
import K8sDev.Spec.Session
import K8sDev.Spec.Widget
import K8sDev.Spec.Review
import K8sDev.Spec.Reconcile
import K8sDev.Spec.Blob
import K8sDev.Spec.Serve
import K8sDev.Spec.Socket
import K8sDev.Spec.Visible
import K8sDev.Spec.Strip
import K8sDev.Spec.Apiserver
import K8sDev.Spec.Real
import K8sDev.Spec.StaticPods
import K8sDev.Spec.Outages
import K8sDev.Spec.Upgrade
import K8sDev.Spec.Suite
import K8sDev.Spec.Cases
import K8sDev.Spec.Collect
import K8sDev.Spec.Polling
import K8sDev.Proof.Atomic
import K8sDev.Proof.Leases
import K8sDev.Proof.Authority
import K8sDev.Proof.Fencing
import K8sDev.Proof.Audit
import K8sDev.Proof.Conserve
import K8sDev.Proof.Eager
import K8sDev.Proof.Network
import K8sDev.Proof.LeaseGap
import K8sDev.Proof.ClaimOrder
import K8sDev.Proof.Drain
import K8sDev.Proof.Shadow
import K8sDev.Proof.Counters
import K8sDev.Proof.Exclusive
import K8sDev.Proof.ExactlyOnce
import K8sDev.Proof.Watch
import K8sDev.Proof.Allocate
import K8sDev.Proof.Preferred
import K8sDev.Proof.Rpc
import K8sDev.Proof.RoundRobin
import K8sDev.Proof.Mutation
import K8sDev.Proof.Assignments
import K8sDev.Proof.Session
import K8sDev.Proof.Remutate
import K8sDev.Proof.Concurrent
import K8sDev.Proof.Conversion
import K8sDev.Proof.Validity
import K8sDev.Proof.Review
import K8sDev.Proof.Reconcile
import K8sDev.Proof.Blob
import K8sDev.Proof.Serve
import K8sDev.Proof.Socket
import K8sDev.Proof.Visible
import K8sDev.Proof.Strip
import K8sDev.Proof.StripHeap
import K8sDev.Proof.Apiserver
import K8sDev.Proof.RealAudit
import K8sDev.Proof.Alone
import K8sDev.Proof.StaticPods
import K8sDev.Proof.Outages
import K8sDev.Proof.Upgrade
import K8sDev.Proof.Suite
import K8sDev.Proof.Collect
import K8sDev.Proof.Fixture
import K8sDev.Proof.ListWatch
import K8sDev.Proof.Plot
import K8sDev.Proof.Polling
