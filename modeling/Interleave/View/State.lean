import Interleave.Encoding.StateTable
import Interleave.Heap.Collect
import Interleave.Json.Encode
import Interleave.Kernel.Sync

/-!
The parts of a program state as JSON values, for whoever wants to look at them.
-/

namespace Interleave

open JsonValue

instance : ToJson Ref := ⟨fun r => r.slot⟩

instance : ToJson ValueKind := ⟨fun k => k.name⟩

instance : ToJson ThreadState := ⟨fun s => s.label⟩

instance : ToJson Frame where
  toJson f := ofEntries [
    ("method", f.method),
    ("pc", f.pc),
    ("slots", f.slots),
    ("refmask", (List.range f.slots.size).map f.isReference),
    ("refs", f.references),
    ("depth", f.operandDepth)]

instance : ToJson Monitor where
  toJson m := ofEntries [
    ("owner", m.owner),
    ("count", m.count),
    ("waiters", m.waiters),
    ("requests", m.requests)]

instance : ToJson Fields where
  toJson f := ofEntries [
    ("values", f.values),
    ("refmask", (List.range f.size).map f.isReference),
    ("refs", f.references)]

instance : ToJson Sharedness where
  toJson
    | .shared => "shared"
    | .threadLocal t => .arr ["local", t]

instance : ToJson InitStatus where
  toJson s := .arr [s.label, s.rank, s.code]

instance : ToJson InitCheck where
  toJson
    | .ready => "ready"
    | .needsInitialization c => .arr ["needs", c]
    | .initializingBy t => .arr ["initializing", t]

instance : ToJson ElementKind where
  toJson
    | .object => "object"
    | .array elem length => .arr ["array", elem, length]
    | .static status classObject => .arr ["static", status, classObject]

instance : ToJson Element where
  toJson e := ofEntries [
    ("ref", e.ref),
    ("gid", e.gid),
    ("class", e.classId),
    ("kind", e.kind),
    ("values", e.fields.values),
    ("traced", e.traced),
    ("length", e.length?),
    ("monitor", e.monitor),
    ("sharedness", e.sharedness),
    ("shared", e.isShared),
    ("pinned", e.isPinned),
    ("weak", e.weak),
    ("interned", e.interned),
    ("cached", e.cached)]

instance : ToJson Heap where
  toJson h := ofEntries [
    ("len", h.size),
    ("empty", h.isEmpty),
    ("oom", h.outOfMemory),
    ("cap", h.arena.capacity),
    ("items", .arr (h.elements.map fun e => .arr [e.ref, e.gid, e.classId, e.sharedness])),
    ("changed", h.arena.changed.toList),
    ("epoch", h.epoch)]

instance : ToJson Thread where
  toJson t := ofEntries [
    ("id", t.id),
    ("gid", t.gid),
    ("name", t.name),
    ("state", t.state),
    ("priority", t.priority),
    ("flags", [t.daemon, t.suspended, t.interrupted, t.permit]),
    ("is", [t.isRunnable, t.isAlive, t.isTerminated, t.isBlocked]),
    ("object", t.object),
    ("lock_object", t.lockObject),
    ("locked", t.lockedObjects),
    ("wait_count", t.waitCount),
    ("depth", t.depth),
    ("frames", t.frames),
    ("refs", t.references)]

instance : ToJson Roster where
  toJson r := ofEntries [
    ("len", r.size),
    ("empty", r.isEmpty),
    ("next", r.nextId),
    ("runnable", r.runnable),
    ("count", r.runnableCount),
    ("any_alive", r.anyAlive),
    ("deadlocked", r.isDeadlocked),
    ("roots", r.roots)]

instance : ToJson Generator.Phase where
  toJson
    | .created => "created"
    | .advancing => "advancing"
    | .exhausted => "exhausted"

instance : ToJson ArrayAccess where
  toJson a := .arr [a.array, a.isRead]

def Generator.view (ordered : Bool) (g : Generator) : JsonValue :=
  ofEntries [
    ("kind", g.kind.tag),
    ("choices", if ordered then g.choices else g.choices.mergeSort),
    ("creator", g.creator),
    ("access", g.access),
    ("sched", g.schedules),
    ("counts", [g.processed, g.total]),
    ("more", g.hasMore),
    ("state", g.phase),
    ("current", g.current?),
    ("show", if ordered then g.label else .null)]

instance : ToJson Generator := ⟨Generator.view true⟩

instance : ToJson Layout where
  toJson l := ofEntries [
    ("slots", l.slotCount),
    ("refmask", l.refMask),
    ("fields", .arr (l.placed.map fun (f, offset) => .arr [f.name, f.kind, offset]))]

instance : ToJson ClassDescriptor where
  toJson c := ofEntries [
    ("name", c.name),
    ("id", c.id),
    ("instance", c.instances),
    ("static", c.statics),
    ("array", c.arrayOf)]

instance : ToJson IdKey where
  toJson k := .arr [k.origin.thread, k.count, k.origin.method, k.origin.insn]

instance : ToJson CollectionStats where
  toJson s := [s.liveBefore, s.marked, s.reclaimed, s.weakCleared, s.scrubbed]

instance : ToJson Visit where
  toJson
    | .new id => .arr ["new", id]
    | .seen id => .arr ["seen", id]

instance : ToJson LockOutcome where
  toJson
    | .acquired => "acquired"
    | .blocked => "blocked"

instance : ToJson AtomicSection where
  toJson a := .arr [a.owner, a.depth, a.blocked, a.owner.isSome, a.blocked]

instance : ToJson Epochs where
  toJson e := [e.heap, e.statics, e.threads, e.ids, e.atomic]

instance : ToJson Changes where
  toJson c := ofEntries [
    ("any", c.any),
    ("heap", c.heap),
    ("statics", c.statics),
    ("threads", c.threads),
    ("ids", c.ids),
    ("atomic", c.atomic)]

end Interleave
