import Frankenrust.Callbacks.ServerVars
import Frankenrust.Server.Handle
import Frankenrust.Server.Response
import Frankenrust.Thread.Cycle
import Frankenrust.Thread.Wakeup
import Frankenrust.Thread.Delivery
import Frankenrust.Thread.Erasure
import Frankenrust.Thread.Teardown
import Frankenrust.Thread.Completion
import Frankenrust.Thread.Subscription
import Frankenrust.Orchestrator.Merge
import Frankenrust.Orchestrator.Race
import Frankenrust.Orchestrator.Budget
import Frankenrust.Orchestrator.Exclusive
import Frankenrust.Orchestrator.Absorbing
import Frankenrust.Orchestrator.Claimable
import Frankenrust.Orchestrator.Journal
import Frankenrust.Orchestrator.Pool
import Frankenrust.Orchestrator.Custody
import Frankenrust.Orchestrator.Settling
import Frankenrust.Cgi.Splitting
import Frankenrust.Cgi.Address
import Frankenrust.Callbacks.LogLine
import Frankenrust.Context.Unquote
import Frankenrust.Context.Discipline
import Frankenrust.Server.Percent
import Frankenrust.Callbacks.Reading
import Frankenrust.Callbacks.Registration
import Frankenrust.Thread.Limits
import Frankenrust.Thread.ForceKill
import Frankenrust.Orchestrator.RetroClaim
import Frankenrust.Orchestrator.RootGuard
import Frankenrust.Orchestrator.GitDiff
import Frankenrust.Orchestrator.Upsert
import Frankenrust.Orchestrator.Wallclock
import Frankenrust.Orchestrator.SelfRestart
import Frankenrust.Orchestrator.Reviewing
import Frankenrust.Orchestrator.Trunk
import Frankenrust.Server.Serving
import Frankenrust.Orchestrator.Reverting
import Frankenrust.Orchestrator.Signal
import Frankenrust.Callbacks.Lifetime
import Frankenrust.Callbacks.Environment
