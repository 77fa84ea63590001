import Interleave.Proofs.Kernel.Echo

/-!
Doing the same again from a state that was put back. The id pool, the registry and the interned strings
have moved on since. Still the same actions give the same answers and lead to the same encoding, as
long as they intern no strings, do not ask for the exclusive tracker and look up no class names that
were unknown the first time.
-/

namespace Interleave

/-- The answer does not depend on interned strings, on who tracks changes or on which class names are
still unknown. -/
def Action.replayable (k : Kernel) : Action → Bool
  | .perform (.intern ..) | .perform .acquireTracker => false
  | .perform (.loadNamed name) => (k.classes.lookup? name).isSome
  | _ => true

/-- Every action is replayable in the state in which it is done. -/
def Kernel.replayable (k : Kernel) : List Action → Bool
  | [] => true
  | a :: as =>
    a.replayable k &&
      match k.act a with
      | .ok (_, k') => k'.replayable as
      | .error _ => true

theorem Kernel.replayable_cons {k k' : Kernel} {a : Action} {as : List Action} {r : Answer}
    (h : k.replayable (a :: as) = true) (hact : k.act a = .ok (r, k')) :
    a.replayable k = true ∧ k'.replayable as = true := by
  rw [replayable, hact, Bool.and_eq_true] at h
  exact h

namespace Follows

variable {x y : Except Fault Kernel}

theorem answer (h : Follows Kernel.Mirrors x y) (r : Answer) :
    Follows Kernel.Echoes (x >>= fun k => pure (r, k)) (y >>= fun k => pure (r, k)) := by
  apply h.bind
  intro k k' hm
  exact .pure ⟨rfl, hm⟩

theorem mapAnswer {α : Type} {x y : Except Fault (α × Kernel)} (h : Follows Kernel.Echoes x y)
    (f : α → Answer) :
    Follows Kernel.Echoes (x >>= fun p => pure (f p.1, p.2)) (y >>= fun p => pure (f p.1, p.2)) := by
  apply h.bind
  intro p q hpq
  exact .pure ⟨congrArg f hpq.answer, hpq.state⟩

end Follows

namespace Kernel

namespace Mirrors

variable {k k' : Kernel} (h : k.Mirrors k')

include h

theorem respond {op : Op} (hop : Action.replayable k (.perform op) = true) {p : Answer × Kernel}
    (hk : k.respond op = .ok p) (hle : p.2.Precedes k') :
    Follows Echoes (k.respond op) (k'.respond op) := by
  cases op with
  | register c =>
    cases hk
    obtain ⟨hregister, hm⟩ := h.register hle
    dsimp only [Kernel.respond]
    rw [hregister]
    exact .pure ⟨rfl, hm⟩
  | load c =>
    obtain ⟨k₁, h₁, hk⟩ := bind_eq_ok.mp hk
    cases hk
    exact (h.loadClass h₁ hle).answer (.classId c)
  | loadNamed name =>
    obtain ⟨q, h₁, hk⟩ := bind_eq_ok.mp hk
    cases hk
    exact (h.loadClassNamed hop h₁ hle).mapAnswer (.ofAttempt .classId)
  | newName creator site =>
    obtain ⟨q, h₁, hk⟩ := bind_eq_ok.mp hk
    cases hk
    exact (h.newGlobalId h₁ hle).mapAnswer .name
  | newObject c creator site =>
    obtain ⟨q, h₁, hk⟩ := bind_eq_ok.mp hk
    cases hk
    exact (h.newObject h₁ hle).mapAnswer .ref
  | newArray elem length creator site =>
    obtain ⟨q, h₁, hk⟩ := bind_eq_ok.mp hk
    cases hk
    exact (h.newArray h₁ hle).mapAnswer .ref
  | createThread name creator site =>
    obtain ⟨q, h₁, hk⟩ := bind_eq_ok.mp hk
    cases hk
    exact (h.createThread h₁ hle).mapAnswer .thread
  | intern text creator => cases hop
  | acquireTracker => cases hop
  | setStatus c status =>
    obtain ⟨hanswer, hstate⟩ := h.setClassStatus c status
    exact .pure ⟨congrArg (Answer.ofAttempt fun _ => .done) hanswer, hstate⟩
  | writeField o name v => exact (h.writeField v.write o name).mapAnswer (.ofAttempt fun _ => .done)
  | writeStatic c name v => exact (h.writeStatic v.write c name).mapAnswer (.ofAttempt fun _ => .done)
  | writeSlot o i v => exact (h.updateElement o _).answer .done
  | pin o => exact (h.updateElement o _).answer .done
  | unpin o =>
    apply (h.unpin o).bind
    rintro p q ⟨hcount, hheap⟩
    exact .pure ⟨congrArg Answer.count hcount, h.onHeap hheap⟩
  | makeWeak o => exact (h.updateElement o _).answer .done
  | cache o r => exact (h.updateElement o _).answer .done
  | setOutOfMemory flag => exact .pure ⟨rfl, h.onHeap (h.heap.setOutOfMemory flag)⟩
  | start t frame => exact (h.startThread t frame).mapAnswer (.ofAttempt fun _ => .done)
  | enter t frame => exact (h.enterMethod t frame).mapAnswer (.ofAttempt fun _ => .done)
  | exit t => exact (h.exitMethod t).mapAnswer .left
  | executed t => exact (h.instructionExecuted t).answer .done
  | setFrame t frame => exact (h.updateThread t _).answer .done
  | setPriority t priority => exact (h.updateThread t _).answer .done
  | setDaemon t daemon => exact (h.updateThread t _).answer .done
  | sleep t => exact (h.setState t .sleeping).answer .done
  | endSleep t => exact (h.updateThread t _).answer .done
  | suspend t => exact (h.updateThread t _).answer .done
  | resume t => exact (h.updateThread t _).answer .done
  | terminate t => exact (h.terminateThread t).mapAnswer (.ofAttempt fun _ => .done)
  | lock t o => exact (h.lock t o).mapAnswer .lock
  | unlock t o => exact (h.unlock t o).mapAnswer (.ofAttempt .flag)
  | wait t o => exact (h.enterWait t o .waiting).mapAnswer (.ofAttempt fun _ => .done)
  | timedWait t o => exact (h.enterWait t o .timedWaiting).mapAnswer (.ofAttempt fun _ => .done)
  | timeOut t => exact (h.timeOut t).mapAnswer .flag
  | notifyThread t o waiter => exact (h.notifyThread t o waiter).mapAnswer (.ofAttempt .flag)
  | notify t o => exact (h.notify t o).mapAnswer (.ofAttempt .woken)
  | notifyAll t o => exact (h.notifyAll t o).mapAnswer (.ofAttempt .count)
  | park t => exact (h.updateThread t _).answer .done
  | unpark t => exact (h.unpark t).mapAnswer .flag
  | interrupt t => exact (h.interrupt t).answer .done
  | beginAtomic t => exact .pure ⟨rfl, h.beginAtomic t⟩
  | endAtomic t =>
    obtain ⟨hanswer, hstate⟩ := h.endAtomic t
    exact .pure ⟨congrArg (Answer.ofAttempt fun _ => .done) hanswer, hstate⟩
  | setBlockedInAtomic => exact .pure ⟨rfl, h.setBlockedInAtomic⟩
  | collect => exact h.collect.mapAnswer .stats
  | snapshot =>
    obtain ⟨hanswer, hstate⟩ := h.snapshot
    exact .pure ⟨congrArg Answer.snapshot hanswer, hstate⟩
  | tell e => exact .pure ⟨rfl, h.tell e e⟩
  | releaseTracker => exact .pure ⟨rfl, { h with precedes := ⟨h.precedes.classes, h.precedes.pool⟩ }⟩

theorem act {a : Action} (ha : a.replayable k = true) {p : Answer × Kernel} (hk : k.act a = .ok p)
    (hle : p.2.Precedes k') : Follows Echoes (k.act a) (k'.act a) := by
  cases a with
  | perform op => exact h.respond ha hk hle
  | ask q =>
    apply (h.ask q).bind
    rintro r _ rfl
    exact .pure ⟨rfl, h⟩
  | restore m =>
    exact .pure ⟨rfl, {
      heap := ⟨rfl, h.heap.limit, .restore _ _, .restore _ _⟩
      statics := rfl
      threads := rfl
      counts := rfl
      atomic := rfl
      precedes := ⟨h.precedes.classes, h.precedes.pool⟩ }⟩
  | intern key =>
    cases hk
    have hintern := IdPool.intern_of_prefix hle.pool
    dsimp only [Kernel.act]
    rw [hintern]
    exact .pure ⟨rfl, { h with precedes := hle }⟩
  | observe observers =>
    exact .pure ⟨rfl, { h with precedes := ⟨h.precedes.classes, h.precedes.pool⟩ }⟩
  | allocate c creator gid =>
    obtain ⟨href, hheap⟩ := h.heap.place fun ref =>
      .fresh ref gid c.id .object (.ofMask c.instances.refMask) creator
    exact .pure ⟨congrArg Answer.ref href, h.onHeap hheap⟩
  | allocateArray classId elem length creator gid =>
    obtain ⟨href, hheap⟩ := h.heap.place fun ref =>
      .fresh ref gid classId (.array elem length) (.ofArray elem length) creator
    exact .pure ⟨congrArg Answer.ref href, h.onHeap hheap⟩
  | modify o f =>
    dsimp only [Kernel.act]
    rw [h.heap.deref]
    apply Follows.after
    intro e
    apply Follows.after
    intro p
    exact .pure ⟨rfl, h.onHeap (h.heap.put o _)⟩
  | collectFrom roots =>
    apply (h.heap.collect roots).bind
    intro c c' hc
    exact .pure ⟨congrArg Answer.stats hc.stats, h.onHeap hc.heap⟩
  | captureHeap =>
    exact .pure ⟨congrArg Answer.image h.heap.image,
      h.onHeap ⟨h.heap.image, h.heap.limit, h.heap.packed, h.heap.packed'⟩⟩
  | restoreHeap m =>
    exact .pure ⟨rfl, h.onHeap ⟨rfl, h.heap.limit, .restore _ _, .restore _ _⟩⟩
  | addThread info =>
    apply (h.add info).bind
    rintro p q ⟨hid, hthreads⟩
    exact .pure ⟨congrArg Answer.thread hid, h.onThreads hthreads⟩
  | modifyThread t f =>
    dsimp only [Kernel.act]
    rw [h.getThread]
    apply Follows.after
    intro info
    apply Follows.after
    intro p
    exact .pure ⟨rfl, h.putThread t p.2⟩
  | restoreThreads threads => exact .pure ⟨rfl, h.onThreads rfl⟩

end Mirrors

theorem Mirrors.run {k k' k₁ : Kernel} {as : List Action} {rs : List Answer} (h : k.Mirrors k')
    (has : k.replayable as = true) (hk : k.run as = .ok (rs, k₁)) (hle : k₁.Precedes k') :
    ∃ k₁', k'.run as = .ok (rs, k₁') ∧ k₁.Mirrors k₁' := by
  induction as generalizing k k' rs with
  | nil =>
    cases hk
    exact ⟨k', rfl, h⟩
  | cons a as ih =>
    obtain ⟨r, k₂, rs, hact, hrun, rfl⟩ := run_cons.mp hk
    obtain ⟨ha, has⟩ := replayable_cons has hact
    have hle₂ : k₂.Precedes k' := (Lasts.run hrun).precedes.trans hle
    obtain ⟨⟨r, k₂'⟩, hact', rfl, h₂⟩ := h.act ha hact hle₂ _ hact
    -- what the second run knows can only grow, so it covers the rest of the first run too
    have hle' : k₁.Precedes k₂' := hle.trans (Lasts.act hact').precedes
    obtain ⟨k₁', hrun', h₁⟩ := ih h₂ has hrun hle'
    exact ⟨k₁', run_cons.mpr ⟨r, k₂', rs, hact', hrun', rfl⟩, h₁⟩

/-- After a snapshot some actions are done, then whatever else, and then the snapshot is put back. The
actions can be done again, with the answers that they gave the first time, and the state is encoded as
it was then. -/
theorem run_restore {s k₁ k₂ : Kernel} {w w' : List Action} {rs rs' : List Answer} (hs : s.Reachable)
    (hw : s.snapshot.2.replayable w = true) (hrun : s.snapshot.2.run w = .ok (rs, k₁))
    (hrestore : k₁.run (w' ++ [.restore s.snapshot.1]) = .ok (rs', k₂)) :
    ∃ k₃, k₂.run w = .ok (rs, k₃) ∧ k₃.encode = k₁.encode := by
  obtain ⟨_, k, _, hrun', hrestored, -⟩ := run_append.mp hrestore
  cases hrestored
  have hlasts := (Lasts.run hrun).trans (Lasts.run hrun')
  have hm : s.snapshot.2.Mirrors (k.restore s.snapshot.1) :=
    mirrors_restore (k := s.snapshot.2) hs.packed hlasts
  have hle := (Lasts.run hrun').precedes
  obtain ⟨k₃, hrun₃, h₃⟩ := hm.run hw hrun ⟨hle.classes, hle.pool⟩
  exact ⟨k₃, hrun₃, h₃.encode_eq⟩

def stage : Kernel :=
  (Kernel.withLimit (some 4)).performAll
    [.newArray .int 1 none none, .createThread "main" none none, .start 0 (.fresh 0 1), .lock 0 ⟨0⟩]

def scene : List Action :=
  [.perform (.register { name := "Counter", statics := ⟨[⟨"first", .reference⟩]⟩ }),
    .perform (.loadNamed "Counter"), .perform (.createThread "worker" (some 0) (some ⟨7, 3⟩)),
    .perform (.start 1 (.fresh 0 1)), .perform (.lock 1 ⟨0⟩),
    .perform (.newObject 4 (some 1) (some ⟨7, 4⟩)), .perform (.writeStatic 4 "first" (.ref ⟨4⟩)),
    .perform (.notify 1 ⟨0⟩), .perform (.unlock 0 ⟨0⟩), .perform .collect,
    .ask (.getStaticRef 4 "first"), .ask .outOfMemory]

def interlude : List Action :=
  [.perform (.intern "text" (some 0)), .perform (.register { name := "Late" }),
    .restore (Kernel.withLimit none).snapshot.1, .perform (.newArray .char 2 none none),
    .perform .acquireTracker, .perform (.loadNamed "Late"), .perform .collect]

theorem run_restore_scene :
    stage.Reachable ∧ stage.snapshot.2.replayable scene = true ∧ ∃ rs k₁ rs' k₂ k₃,
      stage.snapshot.2.run scene = .ok (rs, k₁) ∧
        k₁.run (interlude ++ [.restore stage.snapshot.1]) = .ok (rs', k₂) ∧
        k₂.run scene = .ok (rs, k₃) ∧ k₃.encode = k₁.encode := by
  have hreachable : stage.Reachable := (Reachable.start .core {} (some 4) {}).performAll _
  have hscene : stage.snapshot.2.replayable scene = true := by
    decide +kernel
  have hsome : (stage.snapshot.2.run
      (scene ++ (interlude ++ [.restore stage.snapshot.1]))).toOption.isSome = true := by
    decide +kernel
  obtain ⟨⟨_, k₂⟩, hrun⟩ := Option.isSome_iff_exists.mp hsome
  rw [toOption_eq_some] at hrun
  obtain ⟨rs, k₁, rs', hfirst, hrest, -⟩ := run_append.mp hrun
  obtain ⟨k₃, hsecond, hencode⟩ := run_restore hreachable hscene hfirst hrest
  exact ⟨hreachable, hscene, rs, k₁, rs', k₂, k₃, hfirst, hrest, hsecond, hencode⟩

end Kernel

end Interleave
