import Interleave.Config.Basic
import Interleave.Json.Decode
import Interleave.Json.Encode
import Interleave.Json.Printer
import Interleave.Json.Reader

/-!
Configurations as JSON text.

A section is an object or an array of its entries in order. Entries that are missing have their
defaults. In an object, unknown keys are passed over, and a key that is known must not occur twice. In
an array, there must not be more items than entries.
-/

namespace Interleave

namespace JsonValue

def limit? : JsonValue → Option (Option UInt64)
  | null => some none
  | v => v.uint64?.map some

def entries? (names : List String) : JsonValue → Option (List (Option JsonValue))
  | arr items => if items.length ≤ names.length then some (names.zipIdx.map (items[·.2]?)) else none
  | obj members => do
    let members ← named? members
    if ((members.map (·.1)).filter (· ∈ names)).Nodup then
      return names.map (List.lookup · members)
    else
      none
  | _ => none

def entry? {α : Type} (read : JsonValue → Option α) (default : α) : Option JsonValue → Option α
  | some v => read v
  | none => some default

def ofLimit : Option UInt64 → JsonValue
  | none => null
  | some n => int n.toNat

end JsonValue

open JsonValue

namespace BreakConfig

def names : List String := ["break_start", "break_yield", "break_sleep", "break_array_access"]

def ofJson? (v : JsonValue) : Option BreakConfig := do
  match ← v.entries? names with
  | [start, yield, sleep, arrayAccess] =>
    return {
      start := ← entry? bool? false start
      yield := ← entry? bool? false yield
      sleep := ← entry? bool? false sleep
      arrayAccess := ← entry? bool? false arrayAccess
    }
  | _ => none

def toJson (c : BreakConfig) : JsonValue :=
  ofEntries (names.zip [.bool c.start, .bool c.yield, .bool c.sleep, .bool c.arrayAccess])

end BreakConfig

namespace SchedulerConfig

def names : List String := ["policy", "seed"]

def ofJson? (v : JsonValue) : Option SchedulerConfig := do
  let d : SchedulerConfig := {}
  match ← v.entries? names with
  | [policy, seed] =>
    return { policy := ← entry? text? d.policy policy, seed := ← entry? uint64? d.seed seed }
  | _ => none

def toJson (c : SchedulerConfig) : JsonValue :=
  ofEntries (names.zip [ofText c.policy, .int c.seed.toNat])

end SchedulerConfig

namespace HeapConfig

def names : List String := ["max_live_objects"]

def ofJson? (v : JsonValue) : Option HeapConfig := do
  match ← v.entries? names with
  | [maxLiveObjects] => return { maxLiveObjects := ← entry? limit? none maxLiveObjects }
  | _ => none

def toJson (c : HeapConfig) : JsonValue := ofEntries (names.zip [ofLimit c.maxLiveObjects])

end HeapConfig

namespace BoxBounds

def names : List String :=
  ["byte_low", "byte_high", "char_high", "short_low", "short_high", "int_low", "int_high", "long_low",
    "long_high"]

def ofJson? (v : JsonValue) : Option BoxBounds := do
  let d : BoxBounds := {}
  match ← v.entries? names with
  | [byteLow, byteHigh, charHigh, shortLow, shortHigh, intLow, intHigh, longLow, longHigh] =>
    return {
      byteLow := ← entry? int64? d.byteLow byteLow
      byteHigh := ← entry? int64? d.byteHigh byteHigh
      charHigh := ← entry? int64? d.charHigh charHigh
      shortLow := ← entry? int64? d.shortLow shortLow
      shortHigh := ← entry? int64? d.shortHigh shortHigh
      intLow := ← entry? int64? d.intLow intLow
      intHigh := ← entry? int64? d.intHigh intHigh
      longLow := ← entry? int64? d.longLow longLow
      longHigh := ← entry? int64? d.longHigh longHigh
    }
  | _ => none

def toJson (b : BoxBounds) : JsonValue :=
  ofEntries (names.zip
    [ofInt64 b.byteLow, ofInt64 b.byteHigh, ofInt64 b.charHigh, ofInt64 b.shortLow,
      ofInt64 b.shortHigh, ofInt64 b.intLow, ofInt64 b.intHigh, ofInt64 b.longLow,
      ofInt64 b.longHigh])

end BoxBounds

namespace SearchConfig

def names : List String :=
  ["max_depth", "max_states", "max_transitions", "gc_after_transition", "state_table"]

def ofJson? (v : JsonValue) : Option SearchConfig := do
  let d : SearchConfig := {}
  match ← v.entries? names with
  | [maxDepth, maxStates, maxTransitions, gcAfterTransition, stateTable] =>
    return {
      maxDepth := ← entry? limit? none maxDepth
      maxStates := ← entry? limit? none maxStates
      maxTransitions := ← entry? limit? none maxTransitions
      gcAfterTransition := ← entry? bool? d.gcAfterTransition gcAfterTransition
      stateTable := ← entry? text? d.stateTable stateTable
    }
  | _ => none

def toJson (c : SearchConfig) : JsonValue :=
  ofEntries (names.zip
    [ofLimit c.maxDepth, ofLimit c.maxStates, ofLimit c.maxTransitions, .bool c.gcAfterTransition,
      ofText c.stateTable])

end SearchConfig

namespace Config

def names : List String :=
  ["threads", "break_single_choice", "scheduler", "heap", "box_cache", "search"]

def ofJson? (v : JsonValue) : Option Config := do
  match ← v.entries? names with
  | [threads, breakSingleChoice, scheduler, heap, boxes, search] =>
    return {
      threads := ← entry? BreakConfig.ofJson? {} threads
      breakSingleChoice := ← entry? bool? false breakSingleChoice
      scheduler := ← entry? SchedulerConfig.ofJson? {} scheduler
      heap := ← entry? HeapConfig.ofJson? {} heap
      boxes := ← entry? BoxBounds.ofJson? {} boxes
      search := ← entry? SearchConfig.ofJson? {} search
    }
  | _ => none

def toJson (c : Config) : JsonValue :=
  ofEntries (names.zip
    [c.threads.toJson, .bool c.breakSingleChoice, c.scheduler.toJson, c.heap.toJson, c.boxes.toJson,
      c.search.toJson])

def read? (text : String) : Option Config := do ofJson? (← JsonReader.read? text)

def parse (text : String) : Except ConfigError Config :=
  match read? text with
  | none => throw .malformed
  | some c => do
    c.validate
    return c

def print (c : Config) : String := JsonPrinter.print c.toJson

end Config

end Interleave
