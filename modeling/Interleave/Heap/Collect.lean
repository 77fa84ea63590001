import Interleave.Heap.Reach

/-!
Collection. Elements that no seed reaches are reclaimed in ascending order of their slots. The others
stay where they are; their sharedness, weak slot and cached references are brought up to date.
-/

namespace Interleave

structure Roots where
  threads : List (ThreadId × Ref) := []
  statics : List Ref := []

structure CollectionStats where
  liveBefore : Nat
  marked : Nat
  reclaimed : Nat
  weakCleared : Nat
  scrubbed : Nat
  deriving DecidableEq, Repr

structure Collection where
  heap : Heap
  stats : CollectionStats
  released : List (Ref × GlobalId)

structure Upkeep where
  sharedness : Sharedness
  clearWeak : Bool
  stale : List Ref

namespace Element

def sharednessFor (e : Element) (mask : ThreadMask) : Sharedness :=
  match e.sharedness with
  | .shared => .shared
  | .threadLocal owner =>
    if mask.hasStatic || 1 < mask.threadCount then
      .shared
    else
      match mask.singleThread? with
      | some t => if t = owner then .threadLocal owner else .shared
      | none => .threadLocal owner

def hasStaleReferent (e : Element) (live : Ref → Bool) : Except Fault Bool :=
  if e.weak then do
    let referent ← e.fields.getRef 0
    return !referent.isNull && !live referent
  else
    return false

def upkeep (e : Element) (mask : ThreadMask) (live : Ref → Bool) : Except Fault Upkeep := do
  return {
    sharedness := e.sharednessFor mask
    clearWeak := ← e.hasStaleReferent live
    stale := e.cached.filter (!live ·)
  }

def needs (e : Element) (u : Upkeep) : Bool :=
  u.sharedness != e.sharedness || u.clearWeak || !u.stale.isEmpty

def maintain (e : Element) (u : Upkeep) : Except Fault Element := do
  let fields ← if u.clearWeak then e.fields.setRef 0 .null else pure e.fields
  return {
    e with
    sharedness := u.sharedness
    fields := fields
    cached := e.cached.filter (!u.stale.contains ·)
  }

end Element

namespace Heap

def seeds (h : Heap) (roots : Roots) : List (Nat × ThreadMask) :=
  let pinned := h.arena.indices.filter fun i => (h.arena.get? i).any (·.isPinned)
  pinned.map (·, .pinned)
    ++ roots.threads.filterMap (fun (t, r) => r.index?.map (·, .thread t))
    ++ roots.statics.filterMap (fun r => r.index?.map (·, .static))

def sweep (h : Heap) (masks : Array ThreadMask) : List (Ref × GlobalId) × Heap :=
  let dead := h.arena.indices.filter fun i => (masks.getD i .empty).isEmpty
  let released := dead.filterMap fun i => (h.arena.get? i).map fun e => (e.ref, e.gid)
  (released, { h with arena := dead.foldl Arena.erase h.arena })

def maintainAt (masks : Array ThreadMask) (c : Collection) (i : Nat) : Except Fault Collection :=
  match c.heap.arena.get? i with
  | none => return c
  | some e => do
    let u ← e.upkeep (masks.getD i .empty) c.heap.contains
    if e.needs u then
      let e' ← e.maintain u
      return {
        c with
        heap := { c.heap with arena := c.heap.arena.replace i e' }
        stats := {
          c.stats with
          weakCleared := c.stats.weakCleared + if u.clearWeak then 1 else 0
          scrubbed := c.stats.scrubbed + u.stale.length
        }
      }
    else
      return c

/-- Reclaim what neither a pin nor a root reaches, and bring the rest up to date. -/
def collect (h : Heap) (roots : Roots) : Except Fault Collection := do
  let masks := Reach.masks h.arena (h.seeds roots)
  let (released, swept) := h.sweep masks
  let survivors := swept.arena.indices
  let stats := {
    liveBefore := h.size
    marked := survivors.length
    reclaimed := released.length
    weakCleared := 0
    scrubbed := 0
  }
  survivors.foldlM (maintainAt masks) { heap := swept, stats, released }

end Heap

end Interleave
