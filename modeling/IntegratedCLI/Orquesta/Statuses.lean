import Mathlib.Tactic.Common

/-!
# Statuses

The statuses of `statuses.py`, shared by workflows and tasks, and the lists that
group them.  `UNSET` is the string `"null"` in the source; it is a status like the
others and is what a task has before its first event.
-/

namespace IntegratedCLI
namespace Orquesta

inductive Status where
  | requested | scheduled | delayed | running | pending | pausing | paused | resuming
  | succeeded | failed | expired | abandoned | retrying | canceling | canceled | unset
  deriving DecidableEq, Repr

open Status

def startingStatuses : List Status := [requested, scheduled, delayed, running, pending]

def runningStatuses : List Status :=
  [requested, scheduled, delayed, running, resuming, retrying]

def activeStatuses : List Status :=
  [requested, scheduled, delayed, running, resuming, pausing, canceling]

def pauseStatuses : List Status := [pausing, paused]

def cancelStatuses : List Status := [canceling, canceled]

def abendedStatuses : List Status := [failed, expired, abandoned]

def completedStatuses : List Status := [succeeded, failed, expired, abandoned, canceled]

namespace Status

/-- The value of the status in the source, where it is a string. -/
def name : Status → String
  | requested => "requested"
  | scheduled => "scheduled"
  | delayed => "delayed"
  | running => "running"
  | pending => "pending"
  | pausing => "pausing"
  | paused => "paused"
  | resuming => "resuming"
  | succeeded => "succeeded"
  | failed => "failed"
  | expired => "timeout"
  | abandoned => "abandoned"
  | retrying => "retrying"
  | canceling => "canceling"
  | canceled => "canceled"
  | unset => "null"

theorem completed_of_abended {st : Status} (h : st ∈ abendedStatuses) :
    st ∈ completedStatuses := by
  revert h
  cases st <;> decide

/-- A completed status is not an active one. -/
theorem not_active_of_completed {st : Status} (h : st ∈ completedStatuses) :
    st ∉ activeStatuses := by
  revert h
  cases st <;> decide

/-- A starting status is not a completed one. -/
theorem not_completed_of_starting {st : Status} (h : st ∈ startingStatuses) :
    st ∉ completedStatuses := by
  revert h
  cases st <;> decide

end Status

end Orquesta
end IntegratedCLI
