import Interleave.Proofs.Kernel.Mirror

/-!
Putting a captured state back. Whatever has been done since, the state is then as it was when it was
captured: nothing that can be looked up in it, encoded or allocated next tells the two apart.
-/

namespace Interleave

namespace Kernel

/-- `k` is what `s` was: the parts that a snapshot captures are equal, and so is what follows from
them. -/
structure Recalls (s k : Kernel) : Prop where
  threads : k.threads.threads = s.threads.threads
  statics : ∀ c, k.statics.get? c = s.statics.get? c
  staticSize : k.statics.size = s.statics.size
  objects : ∀ i, k.heap.arena.get? i = s.heap.arena.get? i
  heapSize : k.heap.size = s.heap.size
  outOfMemory : k.heap.outOfMemory = s.heap.outOfMemory
  counts : k.tally.counts = s.tally.counts
  atomic : k.atomic = s.atomic
  encode : k.encode = s.encode
  lookup : ∀ q r, s.ask q = .ok r → k.ask q = .ok r
  nextSlot : k.heap.arena.nextFree = s.heap.arena.nextFree

/-- Whatever is done after a snapshot, the snapshots and restores of other states included, putting it
back brings back the state in which it was taken. -/
theorem recalls_restore {s k : Kernel} {as : List Action} {rs : List Answer} (hs : s.Reachable)
    (h : s.snapshot.2.run (as ++ [.restore s.snapshot.1]) = .ok (rs, k)) : s.Recalls k := by
  obtain ⟨rs₁, k₁, rs₂, hrun, hrestore, -⟩ := run_append.mp h
  cases hrestore
  have hlasts := Lasts.run hrun
  have hm : s.Mirrors (k₁.restore s.snapshot.1) :=
    mirrors_restore hs.packed
      ⟨⟨hlasts.precedes.classes, hlasts.precedes.pool⟩, ⟨hlasts.heap.limit, hlasts.heap.packed⟩⟩
  exact {
    threads := hm.threads
    statics := hm.getStatic?
    staticSize := congrArg (·.live) hm.statics
    objects := hm.heap.getSlot?
    heapSize := congrArg (·.arena.live) hm.heap.image
    outOfMemory := hm.heap.outOfMemory
    counts := hm.counts
    atomic := hm.atomic
    encode := hm.encode_eq
    lookup := by
      intro q r hr
      obtain ⟨_, hr', rfl⟩ := hm.ask q r hr
      exact hr'
    nextSlot := hm.heap.nextFree_eq }

def captured : Kernel :=
  (Kernel.withLimit (some 2)).performAll
    [.load 0, .newArray .int 1 none none, .createThread "main" none none, .start 0 (.fresh 0 1),
      .lock 0 ⟨1⟩, .beginAtomic 0]

def wandering : List Action :=
  [.perform (.newObject 0 (some 0) none), .perform (.unlock 0 ⟨1⟩), .perform .collect,
    .perform .snapshot, .restore (Kernel.withLimit none).snapshot.1, .perform (.newArray .char 2 none none),
    .restore captured.snapshot.1, .perform (.endAtomic 0), .perform (.terminate 0)]

theorem recalls_restore_wandering :
    captured.Reachable ∧ ∃ rs k,
      captured.snapshot.2.run (wandering ++ [.restore captured.snapshot.1]) = .ok (rs, k) ∧
        captured.Recalls k := by
  have hreachable : captured.Reachable := (Reachable.start .core {} (some 2) {}).performAll _
  have hsome : (captured.snapshot.2.run
      (wandering ++ [.restore captured.snapshot.1])).toOption.isSome = true := by
    decide +kernel
  obtain ⟨⟨rs, k⟩, hrun⟩ := Option.isSome_iff_exists.mp hsome
  rw [toOption_eq_some] at hrun
  exact ⟨hreachable, rs, k, hrun, recalls_restore hreachable hrun⟩

end Kernel

end Interleave
