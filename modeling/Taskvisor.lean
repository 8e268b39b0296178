import Taskvisor.Lib.Count
import Taskvisor.Lib.Machine
import Taskvisor.Lib.Table
import Taskvisor.Lib.Usize
import Taskvisor.Lib.Duration
import Taskvisor.Lib.Panic
import Taskvisor.Lib.Split
import Taskvisor.Policies.Jitter
import Taskvisor.Policies.Backoff
import Taskvisor.Actor.Attempt
import Taskvisor.Actor.Retry
import Taskvisor.Actor.Streak
import Taskvisor.Actor.Bracket
import Taskvisor.Ownership.Capacity
import Taskvisor.Ownership.Clients
import Taskvisor.Ownership.Bundle
import Taskvisor.Ownership.Ledger
import Taskvisor.Ownership.Conservation
import Taskvisor.Ownership.Workers
import Taskvisor.Ownership.Backlog
import Taskvisor.Ownership.Fairness
import Taskvisor.Ownership.Headcount
import Taskvisor.Ownership.Intake
import Taskvisor.Runtime.Base
import Taskvisor.Controller.Slot
import Taskvisor.Controller.State
import Taskvisor.Controller.Admission
import Taskvisor.Controller.Driver
import Taskvisor.Controller.Frame
import Taskvisor.Controller.Abstract
import Taskvisor.Controller.Bridge
import Taskvisor.Controller.Coherence
import Taskvisor.Controller.Refinement
import Taskvisor.Controller.Index
import Taskvisor.Controller.Outcomes
import Taskvisor.Controller.Line
import Taskvisor.Controller.Tracking
import Taskvisor.Controller.Policy
import Taskvisor.Controller.Bounds
import Taskvisor.Controller.Wakeup
import Taskvisor.Controller.Retirement
import Taskvisor.Controller.Rejection
import Taskvisor.Controller.Notices
import Taskvisor.Controller.Parity
import Taskvisor.Events.Bus
import Taskvisor.Events.Accounting
import Taskvisor.Events.Settlement
import Taskvisor.Subscribers.Lane
import Taskvisor.Subscribers.Account
import Taskvisor.Registry.Listener
import Taskvisor.Registry.Lifecycle
import Taskvisor.Registry.Moves
import Taskvisor.Registry.Names
import Taskvisor.Registry.Gate
import Taskvisor.Registry.Steps
import Taskvisor.Registry.Entries
import Taskvisor.Registry.Fence
import Taskvisor.Registry.Identity
import Taskvisor.Registry.Reach
import Taskvisor.Registry.Growth
import Taskvisor.Registry.Drain
import Taskvisor.Registry.Claims
import Taskvisor.Registry.Exclusion
import Taskvisor.Registry.Limit
import Taskvisor.Registry.Empty
import Taskvisor.Registry.Rendezvous
import Taskvisor.Registry.Matching
import Taskvisor.Registry.Handover
import Taskvisor.Registry.Scheduler
import Taskvisor.Registry.Join
import Taskvisor.Registry.Admission
import Taskvisor.Registry.Commitment
import Taskvisor.Registry.Withdrawal
import Taskvisor.Registry.Honesty
import Taskvisor.Registry.Answers
import Taskvisor.Registry.Exit
import Taskvisor.Registry.Activity
import Taskvisor.Registry.Bursts
import Taskvisor.Controller.Bursts
import Taskvisor.Controller.Tenure
import Taskvisor.Controller.Precedence
import Taskvisor.System.Composed
import Taskvisor.System.Receipts
import Taskvisor.System.Slots
import Taskvisor.System.Cancellation
import Taskvisor.System.Delivery
import Taskvisor.System.Custody
import Taskvisor.Shutdown.Owner
import Taskvisor.Shutdown.Coordinator
import Taskvisor.Shutdown.Tail
import Taskvisor.Shutdown.Verdict
import Taskvisor.Subscribers.Delivery
import Taskvisor.Subscribers.Scheduling
import Taskvisor.Lib.Semaphore
import Taskvisor.Actor.Limit
import Taskvisor.Lib.FetchUpdate
import Taskvisor.Runtime.Sequence
import Taskvisor.Runtime.Transaction
import Taskvisor.Runtime.Termination
import Taskvisor.Controller.Replies
import Taskvisor.System.Management
import Taskvisor.Subscribers.Fanout
import Taskvisor.Subscribers.Rotation
import Taskvisor.Subscribers.Draining
import Taskvisor.System.Pipeline
import Taskvisor.Shutdown.Lifecycle
