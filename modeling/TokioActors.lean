import TokioActors.Supervision.Budget
import TokioActors.System.Backstop
import TokioActors.System.Verdict
import TokioActors.Executor.StartTimeout
import TokioActors.Mailbox.Delivery
import TokioActors.Supervision.Stale
import TokioActors.Supervision.Overrides
import TokioActors.Supervision.ChildRegistry
import TokioActors.Timer.Recurring
import TokioActors.Timer.Forwarders
import TokioActors.System.EndWait
import TokioActors.System.StopStep
import TokioActors.System.Reaping
import TokioActors.System.Guards
import TokioActors.Plane.Waking
import TokioActors.Subtree.Waiting
