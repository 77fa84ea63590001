import Interleave.Ident

/-!
Random orders. How they are drawn is up to whoever sets up a search. All that the rest may rely on is
that drawing neither adds a thread nor loses one.
-/

namespace Interleave

/-- A generator of random orders. Its states are numbers; every draw moves it on to another one. -/
structure Shuffler where
  seeded : UInt64 → Nat
  draw : Nat → List ThreadId → List ThreadId × Nat
  perm : ∀ state l, (draw state l).1.Perm l

structure Dice where
  shuffler : Shuffler
  state : Nat

def Dice.shuffle (d : Dice) (l : List ThreadId) : List ThreadId × Dice :=
  let (l, state) := d.shuffler.draw d.state l
  (l, { d with state })

namespace Congruential

def next (state : UInt64) : UInt64 := state * 6364136223846793005 + 1442695040888963407

def shuffle (state : UInt64) : List ThreadId → List ThreadId × UInt64
  | [] => ([], state)
  | t :: rest =>
    let place := (state >>> 33).toNat % (rest.length + 1)
    let (drawn, state) := shuffle (next state) rest
    (drawn.take place ++ t :: drawn.drop place, state)

theorem perm_shuffle (state : UInt64) (l : List ThreadId) : (shuffle state l).1.Perm l := by
  induction l generalizing state with
  | nil => exact .refl _
  | cons t rest ih =>
    refine List.perm_middle.trans (.cons t ?_)
    rw [List.take_append_drop]
    exact ih (next state)

end Congruential

def Shuffler.congruential : Shuffler where
  seeded seed := (Congruential.next seed).toNat
  draw state l :=
    let (drawn, state) := Congruential.shuffle state.toUInt64 l
    (drawn, state.toNat)
  perm state l := Congruential.perm_shuffle state.toUInt64 l

end Interleave
