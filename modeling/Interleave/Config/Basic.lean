import Interleave.Encoding.Matching
import Interleave.Schedule.PolicyKind

/-!
What can be configured, and which configurations make sense.
-/

namespace Interleave

structure BreakConfig where
  start : Bool := false
  yield : Bool := false
  sleep : Bool := false
  arrayAccess : Bool := false
  deriving DecidableEq, Repr

structure SchedulerConfig where
  policy : String := PolicyKind.inOrder.name
  seed : UInt64 := 0
  deriving DecidableEq, Repr

structure HeapConfig where
  maxLiveObjects : Option UInt64 := none
  deriving DecidableEq, Repr

structure BoxBounds where
  byteLow : Int64 := -128
  byteHigh : Int64 := 127
  charHigh : Int64 := 127
  shortLow : Int64 := -128
  shortHigh : Int64 := 127
  intLow : Int64 := -128
  intHigh : Int64 := 127
  longLow : Int64 := -128
  longHigh : Int64 := 127
  deriving DecidableEq, Repr

structure SearchConfig where
  -- new states below this many decisions are not expanded
  maxDepth : Option UInt64 := none
  maxStates : Option UInt64 := none
  maxTransitions : Option UInt64 := none
  gcAfterTransition : Bool := true
  stateTable : String := Matching.hashed.name
  deriving DecidableEq, Repr

structure Config where
  threads : BreakConfig := {}
  breakSingleChoice : Bool := false
  scheduler : SchedulerConfig := {}
  heap : HeapConfig := {}
  boxes : BoxBounds := {}
  search : SearchConfig := {}
  deriving DecidableEq, Repr

inductive ConfigError where
  | unknownPolicy (name : String)
  | unknownStateTable (name : String)
  | invalidBoxBounds (kind : String) (low high : Int64)
  | malformed
  deriving DecidableEq, Repr

namespace ConfigError

def message : ConfigError → String
  | unknownPolicy name =>
    s!"Unknown scheduling policy '{name}' (expected default, round_robin, priority or randomized)"
  | unknownStateTable name => s!"Unknown state table '{name}' (expected hashed or exact)"
  | invalidBoxBounds kind low high =>
    s!"Invalid box cache bounds for {kind}: low {low.toInt} > high {high.toInt}"
  | malformed => "Failed to parse checker configuration"

end ConfigError

namespace BoxBounds

def ranges (b : BoxBounds) : List (String × Int64 × Int64 × Int64 × Int64) :=
  [("byte", b.byteLow, b.byteHigh, -0x80, 0x7F),
   ("char", 0, b.charHigh, 0, 0xFFFF),
   ("short", b.shortLow, b.shortHigh, -0x8000, 0x7FFF),
   ("int", b.intLow, b.intHigh, -0x80000000, 0x7FFFFFFF),
   ("long", b.longLow, b.longHigh, Int64.minValue, Int64.maxValue)]

def validate (b : BoxBounds) : Except ConfigError Unit :=
  b.ranges.forM fun (kind, low, high, least, greatest) =>
    if high < low ∨ low < least ∨ greatest < high then
      throw (.invalidBoxBounds kind low high)
    else
      pure ()

end BoxBounds

namespace Config

def validate (c : Config) : Except ConfigError Unit := do
  if (PolicyKind.ofName? c.scheduler.policy).isNone then
    throw (.unknownPolicy c.scheduler.policy)
  if (Matching.ofName? c.search.stateTable).isNone then
    throw (.unknownStateTable c.search.stateTable)
  c.boxes.validate

end Config

end Interleave
