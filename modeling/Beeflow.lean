import Beeflow.Lib.Machine
import Beeflow.Lib.Tally
import Beeflow.Lib.StableSort
import Beeflow.Lib.Quota
import Beeflow.Lib.Windows
import Beeflow.Lib.Upserts
import Beeflow.Lib.Fields
import Beeflow.Lib.FileTree
import Beeflow.Lib.Calls
import Beeflow.Lib.Loops
import Beeflow.Airflow.Tables
import Beeflow.Scheduler.Pass
import Beeflow.Scheduler.Admission
import Beeflow.Scheduler.Loop
import Beeflow.Scheduler.Limits
import Beeflow.Scheduler.PassRuns
import Beeflow.Scheduler.Verdicts
import Beeflow.Scheduler.Starvation
import Beeflow.Scheduler.Priority
import Beeflow.Python.Json
import Beeflow.Python.JsonText
import Beeflow.Python.Model
import Beeflow.Python.Path
import Beeflow.Events.Classes
import Beeflow.Events.Parsing
import Beeflow.Events.Converter
import Beeflow.Events.Forwarder
import Beeflow.Events.Batches
import Beeflow.Events.Rows
import Beeflow.Events.Announcements
import Beeflow.Events.Decoding
import Beeflow.Events.Checkpoints
import Beeflow.Events.Rules
import Beeflow.Events.TableHint
import Beeflow.DagSchedules.Updater
import Beeflow.DagSchedules.Dispatch
import Beeflow.DagSchedules.Cron
import Beeflow.DagSchedules.Convergence
import Beeflow.DagSchedules.Handler
import Beeflow.DagSchedules.Fields
import Beeflow.DagsDownloader.Download
import Beeflow.DagsDownloader.LocalFiles
import Beeflow.Executors.Name
import Beeflow.Executors.Delivery
import Beeflow.Executors.Catcher
import Beeflow.Executors.Payload
import Beeflow.Scheduler.DagRuns
import Beeflow.Scheduler.DagViews
import Beeflow.Scheduler.DagSteps
import Beeflow.Scheduler.Intervals
import Beeflow.Scheduler.Rearm
import Beeflow.DagParsing.Funnel
import Beeflow.Scheduler.Zombies
import Beeflow.Scheduler.Datasets
import Beeflow.Scheduler.Starting
import Beeflow.Scheduler.Creating
import Beeflow.Scheduler.Consumption
import Beeflow.Scheduler.Turns
import Beeflow.Experiments.BucketManager
import Beeflow.Experiments.Controller
import Beeflow.Lib.Mailbox
import Beeflow.Lib.StateLanguage
import Beeflow.Pipeline.Executor
import Beeflow.Pipeline.System
import Beeflow.Pipeline.Delivered
import Beeflow.Pipeline.Drained
import Beeflow.Pipeline.StateMachines
import Beeflow.Pipeline.Routing
import Beeflow.Scheduler.Scheduling
import Beeflow.Scheduler.SchedulerLoop
import Beeflow.Scheduler.Progress
import Beeflow.Scheduler.Interleavings
import Beeflow.Pipeline.Deployment
import Beeflow.Pipeline.EndToEnd
import Beeflow.Pipeline.WakeUps
import Beeflow.Scheduler.Lifecycles
import Beeflow.Scheduler.ExecutorEvents
import Beeflow.Scheduler.Timers
import Beeflow.Lib.CommandLine
import Beeflow.Lib.Remote
import Beeflow.Cli.Commands
import Beeflow.Experiments.DagsManagers
import Beeflow.Experiments.Runs
