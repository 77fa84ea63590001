import Interleave.Search.Explorer
import Interleave.View.State

/-!
What a search has found, as a JSON value.
-/

namespace Interleave

open JsonValue

instance : ToJson Violation where
  toJson v := .arr [v.message, v.trace]

instance : ToJson SearchStats where
  toJson s := ofEntries [
    ("transitions", s.transitions),
    ("new_states", s.newStates),
    ("revisited", s.revisited),
    ("backtracks", s.backtracks),
    ("max_depth", s.maxDepth),
    ("depth_limited", s.depthLimited),
    ("reclaimed", s.reclaimed)]

def SearchOutcome.entries (o : SearchOutcome) : List (String × JsonValue) := [
  ("end_states", o.endStates.map hex64),
  ("deadlocks", o.deadlocks),
  ("violations", o.violations),
  ("blocked_in_atomic", o.blockedInAtomic),
  ("aborted", o.aborted.map (·.label)),
  ("clean", o.isClean),
  ("complete", o.isComplete),
  ("stats", o.stats)]

def SearchOutcome.unorderedEntries (o : SearchOutcome) : List (String × JsonValue) := [
  ("end_states", (o.endStates.mergeSort fun a b => a ≤ b).map hex64),
  ("deadlock_free", o.deadlocks.isEmpty),
  ("new_states", o.stats.newStates),
  ("transitions", o.stats.transitions)]

def Kernel.summary (k : Kernel) : Except Fault (List (String × JsonValue)) := do
  return [
    ("fp", hex64 (← k.signature).hash),
    ("heap", k.heap.size),
    ("threads", k.threads.size),
    ("runnable", k.threads.runnableCount),
    ("pool", k.pool.size),
    ("classes", k.classes.size)]

end Interleave
