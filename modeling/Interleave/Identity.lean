import Interleave.Ident

/-!
Names for allocations that do not depend on the interleaving. A name stands for the thread that
created something, the place at which it did so and how often it had done so before on its path.
The pool gives such keys dense numbers. It is shared by all paths and never rewound, whereas the
counts belong to the path and are captured and restored with it.
-/

namespace Interleave

structure Origin where
  thread : GlobalId
  method : Int
  insn : Int
  deriving DecidableEq, Repr

structure IdKey where
  origin : Origin
  count : Nat
  deriving DecidableEq, Repr

namespace Origin

def ofCreation (thread : Option GlobalId) (site : Option Site) : Origin where
  -- no thread counts as thread 0, no site as -1
  thread := thread.getD 0
  method := site.elim (-1) (·.method)
  insn := site.elim (-1) (·.insn)

end Origin

/-- Class objects are named by their class alone, so that the order of loading does not matter. -/
def IdKey.ofClass (c : ClassId) : IdKey where
  origin := { thread := 0, method := -2, insn := c }
  count := 0

structure IdPool where
  keys : Array IdKey := #[]
  deriving DecidableEq, Repr

namespace IdPool

def size (p : IdPool) : Nat := p.keys.size

def isEmpty (p : IdPool) : Bool := p.size == 0

def key? (p : IdPool) (id : GlobalId) : Option IdKey := p.keys[id]?

def intern (p : IdPool) (key : IdKey) : GlobalId × IdPool :=
  match p.keys.findIdx? (· == key) with
  | some id => (id, p)
  | none => (p.size, ⟨p.keys.push key⟩)

end IdPool

structure Tally where
  counts : List (Origin × Nat) := []
  epoch : Nat := 0

namespace Tally

def count (t : Tally) (o : Origin) : Nat := (t.counts.lookup o).getD 0

def bump (t : Tally) (o : Origin) : Tally where
  counts := (o, t.count o + 1) :: t.counts.filter (·.1 != o)
  epoch := t.epoch + 1

def next (t : Tally) (pool : IdPool) (o : Origin) : GlobalId × IdPool × Tally :=
  let t := t.bump o
  let (id, pool) := pool.intern ⟨o, t.count o⟩
  (id, pool, t)

def restore (t : Tally) (counts : List (Origin × Nat)) : Tally where
  counts := counts
  epoch := t.epoch + 1

end Tally

end Interleave
