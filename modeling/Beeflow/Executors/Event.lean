import Mathlib.Data.Int.Notation

/-!
# The queued event

What the executors, the workers and the catchers are told about a task instance.
-/

namespace Beeflow.Executors

structure TaskInstanceQueued where
  dagId : String
  runId : String
  taskId : String
  mapIndex : Int
  tryNumber : Int
  pool : String
  queue : String
  queuedDttm : String
  deriving DecidableEq, Repr

/-- The task instance and the queue episode that the event announces. -/
structure Episode where
  dagId : String
  taskId : String
  runId : String
  queuedDttm : String
  mapIndex : Int
  tryNumber : Int
  deriving DecidableEq, Repr

def TaskInstanceQueued.episode (event : TaskInstanceQueued) : Episode :=
  ⟨event.dagId, event.taskId, event.runId, event.queuedDttm, event.mapIndex, event.tryNumber⟩

end Beeflow.Executors
