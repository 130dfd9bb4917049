import IoRing.LittleEndian
import IoRing.Sparse
import IoRing.Memory
import IoRing.Entry
import IoRing.Errno
import IoRing.Resource
import IoRing.Fault
import IoRing.Params
import IoRing.Layout
import IoRing.Registration
import IoRing.Mapping
import IoRing.Call
import IoRing.Kernel.Basic
import IoRing.Kernel.Queues
import IoRing.Kernel.Calls
import IoRing.Host
import IoRing.Region
import IoRing.SubmissionQueue
import IoRing.CompletionQueue
import IoRing.Submitter
import IoRing.Ring
import IoRing.SharedRing
import IoRing.Session.Basic
import IoRing.Session.Reply
import IoRing.Session.KernelStep
import IoRing.Session.QueueStep
import IoRing.Session.Parameters
import IoRing.Session.Regions
import IoRing.Session.Queues
import IoRing.Session.Rings
import IoRing.Proofs.Counter
import IoRing.Proofs.Place
import IoRing.Proofs.Params.Validity
import IoRing.Proofs.Submission.Site
import IoRing.Proofs.Running
import IoRing.Proofs.Registration.Calls
import IoRing.Proofs.Submission.Pushing
import IoRing.Proofs.Submission.Contents
import IoRing.Proofs.Submission.Consumption
import IoRing.Proofs.Submission.Fifo
import IoRing.Proofs.Submission.Batches
import IoRing.Proofs.Submission.Cuts
import IoRing.Proofs.Row
import IoRing.Proofs.Completion.Site
import IoRing.Proofs.Completion.Contents
import IoRing.Proofs.Completion.Delivery
import IoRing.Proofs.Region.Ownership
import IoRing.Proofs.Region.Range
import IoRing.Proofs.Ring.Site
import IoRing.Proofs.Ring.Opening
import IoRing.Proofs.Ring.Contents
import IoRing.Proofs.Ring.Serving
import IoRing.Proofs.Ring.Taking
import IoRing.Proofs.Ring.Renewal
import IoRing.Proofs.Ring.Conservation
import IoRing.Proofs.Ring.Accounting
import IoRing.Proofs.Ring.Parts
import IoRing.Proofs.Ring.Windows
import IoRing.Proofs.Ring.Construction
import IoRing.Proofs.Ring.Frames
import IoRing.Proofs.Ring.Lifecycle
import IoRing.Proofs.SharedRing.Steps
import IoRing.Proofs.SharedRing.Interleaving
import IoRing.Proofs.SharedRing.Popping
import IoRing.Proofs.Ring.Entering
import IoRing.Proofs.SharedRing.OneThread
import IoRing.Proofs.SharedRing.Handover
import IoRing.Proofs.Registration.Slots
import IoRing.Proofs.Twins.Agreement
import IoRing.Proofs.Twins.Kernels
import IoRing.Proofs.Twins.Steps
import IoRing.Proofs.Twins.Sessions
import IoRing.Proofs.Twins.Presets
import IoRing.Proofs.Twins.Layouts
import IoRing.Proofs.Twins.Unobservable
import IoRing.Proofs.Access.Basic
import IoRing.Proofs.Access.Submission
import IoRing.Proofs.Access.Completion
import IoRing.Proofs.Access.Bounds
import IoRing.Proofs.Access.Independence
import IoRing.Proofs.Ring.Lengths
