import Interleave.Ident

/-!
Monitors: an owner that may enter several times, the threads that wait for a notification and the
threads that want to enter.
-/

namespace Interleave

structure Monitor where
  owner : Option ThreadId := none
  count : Nat := 0
  -- longest waiting first
  waiters : List ThreadId := []
  requests : List ThreadId := []
  deriving DecidableEq, Repr

namespace Monitor

def canEnter (m : Monitor) (t : ThreadId) : Bool :=
  match m.owner with
  | none => true
  | some owner => owner == t

def enter (m : Monitor) (t : ThreadId) (n : Nat) : Monitor :=
  { m with
    owner := some t
    count := m.count + n
    requests := m.requests.filter (· != t) }

def exit (m : Monitor) : Bool × Monitor :=
  if m.count ≤ 1 then
    (true, { m with owner := none, count := 0 })
  else
    (false, { m with count := m.count - 1 })

def release (m : Monitor) : Monitor := { m with owner := none, count := 0 }

def addWaiter (m : Monitor) (t : ThreadId) : Monitor :=
  if t ∈ m.waiters then m else { m with waiters := m.waiters ++ [t] }

def removeWaiter (m : Monitor) (t : ThreadId) : Monitor :=
  { m with waiters := m.waiters.filter (· != t) }

def addRequest (m : Monitor) (t : ThreadId) : Monitor :=
  if t ∈ m.requests then m else { m with requests := m.requests ++ [t] }

end Monitor

end Interleave
