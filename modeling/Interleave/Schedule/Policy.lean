import Interleave.Config.Basic
import Interleave.Kernel.Snapshot
import Interleave.Schedule.Shuffler

/-!
Scheduling policies. A policy reorders the candidates of a decision or drops some of them; it never
adds any.
-/

namespace Interleave

structure Policy where
  kind : PolicyKind := .inOrder
  seed : UInt64 := 0
  deriving DecidableEq, Repr

namespace Policy

def ofConfig (c : SchedulerConfig) : Except ConfigError Policy :=
  match PolicyKind.ofName? c.policy with
  | some kind => return { kind, seed := c.seed }
  | none => throw (.unknownPolicy c.policy)

def name (p : Policy) : String := p.kind.name

def rotate (current : Option ThreadId) (candidates : List ThreadId) : List ThreadId :=
  match current with
  | none => candidates
  | some t =>
    match candidates.findIdx? (t < ·) with
    | none => candidates
    | some split => candidates.drop split ++ candidates.take split

def foremost (k : Kernel) (candidates : List ThreadId) : Except Fault (List ThreadId) := do
  let ranked ← candidates.mapM fun t => return (t, (← k.threads.get t).priority)
  match (ranked.map (·.2)).max? with
  | none => return []
  | some top => return (ranked.filter (·.2 == top)).map (·.1)

def dice (p : Policy) (r : Shuffler := .congruential) : Dice := ⟨r, r.seeded p.seed⟩

/-- What the policy makes of the candidates of a decision; `current` is the thread that gives rise to
it. Only the randomized policy uses the dice. -/
def filter (p : Policy) (k : Kernel) (d : Dice) (current : Option ThreadId) (candidates : List ThreadId) :
    Except Fault (List ThreadId × Dice) := do
  match p.kind with
  | .inOrder => return (candidates, d)
  | .roundRobin => return (rotate current candidates, d)
  | .priority => return (← foremost k candidates, d)
  | .randomized => return d.shuffle candidates

end Policy

end Interleave
