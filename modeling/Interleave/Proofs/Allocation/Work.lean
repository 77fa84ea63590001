import Interleave.Proofs.Reference.Safety
import Mathlib.Logic.Function.Basic

/-!
Work that a thread does on its own: it makes objects and arrays, fills them, and writes to the slots of
its top frame. A reference that it writes is null, or was there before, or denotes what the thread has
made itself. What comes of such work is said here without slots of the heap: by the contents of the
things made, in which they refer to each other by the order of their creation.
-/

namespace Interleave

inductive Target where
  | given (r : Ref)
  | own (j : Nat)

inductive Content where
  | word (v : Int32)
  | link (x : Target)

inductive Value where
  | int (v : Int32)
  | long (v : Int64)
  | ref (x : Target)

inductive Work where
  | newObject (c : ClassId) (site : Option Site)
  | newArray (elem : ValueKind) (length : Nat) (site : Option Site)
  | setField (j : Nat) (name : String) (v : Value)
  | setElement (j i : Nat) (v : Value)
  | setLocal (i : Nat) (c : Content)
  | push (c : Content)

def Work.allocates : Work → Bool
  | newObject .. | newArray .. => true
  | _ => false

def Target.resolve (own : List Ref) : Target → Ref
  | given r => r
  | .own j => own.getD j .null

def Target.IsKnown (s : Kernel) (n : Nat) : Target → Prop
  | given r => s.heap.IsSafe r
  | own j => j < n

instance (s : Kernel) (n : Nat) : DecidablePred (Target.IsKnown s n)
  | .given r => inferInstanceAs (Decidable (s.heap.IsSafe r))
  | .own j => inferInstanceAs (Decidable (j < n))

theorem Target.IsKnown.mono {s : Kernel} {n m : Nat} {x : Target} (h : x.IsKnown s n) (hle : n ≤ m) :
    x.IsKnown s m := by
  cases x with
  | given r => exact h
  | own j => exact Nat.lt_of_lt_of_le h hle

theorem Target.resolve_append {s : Kernel} {own : List Ref} {x : Target} (h : x.IsKnown s own.length)
    (r : Ref) : x.resolve (own ++ [r]) = x.resolve own := by
  cases x with
  | given r => rfl
  | own j =>
    dsimp only [resolve]
    rw [List.getD_eq_getElem?_getD, List.getD_eq_getElem?_getD, List.getElem?_append_left h]

namespace Content

def isLink : Content → Bool
  | word _ => false
  | link _ => true

def cell (own : List Ref) : Content → Cell
  | word v => (v, false)
  | link x => ((x.resolve own).slot, true)

theorem snd_cell (own : List Ref) (c : Content) : (c.cell own).2 = c.isLink := by
  cases c <;> rfl

def IsKnown (s : Kernel) (n : Nat) : Content → Prop
  | word _ => True
  | link x => x.IsKnown s n

instance (s : Kernel) (n : Nat) : DecidablePred (IsKnown s n)
  | word _ => inferInstanceAs (Decidable True)
  | link x => inferInstanceAs (Decidable (x.IsKnown s n))

theorem IsKnown.mono {s : Kernel} {n m : Nat} {c : Content} (h : c.IsKnown s n) (hle : n ≤ m) :
    c.IsKnown s m := by
  cases c with
  | word v => trivial
  | link x => exact Target.IsKnown.mono h hle

theorem cell_append {s : Kernel} {own : List Ref} {c : Content} (h : c.IsKnown s own.length) (r : Ref) :
    c.cell (own ++ [r]) = c.cell own := by
  cases c with
  | word v => rfl
  | link x =>
    dsimp only [cell]
    rw [Target.resolve_append h]

def setLocal (own : List Ref) (c : Content) (i : Nat) (f : Frame) : Except Fault Frame :=
  match c with
  | word v => f.setLocal i v
  | link x => f.setLocalRef i (x.resolve own)

def push (own : List Ref) (c : Content) (f : Frame) : Frame :=
  match c with
  | word v => f.push v
  | link x => f.pushRef (x.resolve own)

def blank (isRef : Bool) : Content := if isRef then link (.given .null) else word 0

end Content

namespace Value

def slotValue (own : List Ref) : Value → SlotValue
  | int v => .int v
  | long v => .long v
  | ref x => .ref (x.resolve own)

def contents : Value → List Content
  | int v => [.word v]
  | long v => (SlotValue.long v).words.map .word
  | ref x => [.link x]

def Suits (v : Value) (kind : ValueKind) : Prop :=
  v.contents.map (·.isLink) = List.replicate kind.width kind.isReference

instance (v : Value) (kind : ValueKind) : Decidable (v.Suits kind) :=
  inferInstanceAs (Decidable (v.contents.map (·.isLink) = List.replicate kind.width kind.isReference))

end Value

structure Bench where
  kernel : Kernel
  own : ThreadId → List Ref := fun _ => []

namespace Bench

def object (b : Bench) (t : ThreadId) (j : Nat) : Ref := (b.own t).getD j .null

def made (b : Bench) (t : ThreadId) (r : Ref) (k : Kernel) : Bench where
  kernel := k
  own := Function.update b.own t (b.own t ++ [r])

def onTop (b : Bench) (t : ThreadId) (g : Frame → Except Fault Frame) : Except Fault Bench := do
  match (← b.kernel.threads.get t).topFrame? with
  | none => return b
  | some f => return { b with kernel := ← b.kernel.perform (.setFrame t (← g f)) }

def work (b : Bench) (t : ThreadId) : Work → Except Fault Bench
  | .newObject c site => do
    let (r, k) ← b.kernel.newObject c (some t) site
    return b.made t r k
  | .newArray elem length site => do
    let (r, k) ← b.kernel.newArray elem length (some t) site
    return b.made t r k
  | .setField j name v => do
    let k ← b.kernel.perform (.writeField (b.object t j) name (v.slotValue (b.own t)))
    return { b with kernel := k }
  | .setElement j i v => do
    let k ← b.kernel.perform
      (.writeSlot (b.object t j) (i * v.contents.length) (v.slotValue (b.own t)))
    return { b with kernel := k }
  | .setLocal i c => b.onTop t (c.setLocal (b.own t) i)
  | .push c => b.onTop t fun f => pure (c.push (b.own t) f)

def run (b : Bench) (ws : List (ThreadId × Work)) : Except Fault Bench :=
  ws.foldlM (fun b p => b.work p.1 p.2) b

end Bench

/-- The works of `a` and those of `b` are done in one order or another. -/
inductive Interleaves (a b : ThreadId) : List Work → List Work → List (ThreadId × Work) → Prop where
  | nil : Interleaves a b [] [] []
  | left {A B : List Work} {I : List (ThreadId × Work)} (w : Work) (h : Interleaves a b A B I) :
    Interleaves a b (w :: A) B ((a, w) :: I)
  | right {A B : List Work} {I : List (ThreadId × Work)} (w : Work) (h : Interleaves a b A B I) :
    Interleaves a b A (w :: B) ((b, w) :: I)

inductive Shape where
  | object (desc : ClassDescriptor)
  | array (elem : ValueKind) (length : Nat)

namespace Shape

def marks : Shape → List Bool
  | object desc => desc.instances.refMask
  | array elem length => elem.arrayMarks length

def field? (name : String) : Shape → Option (Nat × ValueKind)
  | object desc => desc.instances.lookup? name
  | array .. => none

def element? (i : Nat) : Shape → Option ValueKind
  | object _ => none
  | array elem length => if i < length then some elem else none

end Shape

namespace Work

def shape? (s : Kernel) : Work → Option Shape
  | newObject c _ => s.classes.classes[c]?.map .object
  | newArray elem length _ => some (.array elem length)
  | _ => none

def Fits (s : Kernel) (t : ThreadId) (shapes : List Shape) : Work → Prop
  | newObject c _ => c < s.classes.size
  | newArray .. => True
  | setField j name v => (∀ c ∈ v.contents, c.IsKnown s shapes.length) ∧
    ∃ p ∈ shapes[j]?.bind (Shape.field? name), v.Suits p.2
  | setElement j i v => (∀ c ∈ v.contents, c.IsKnown s shapes.length) ∧
    ∃ elem ∈ shapes[j]?.bind (Shape.element? i), v.Suits elem
  | setLocal i c => c.IsKnown s shapes.length ∧
    ∃ f ∈ (s.threads.get? t).bind Thread.topFrame?, i < f.locals
  | push c => c.IsKnown s shapes.length ∧ ((s.threads.get? t).bind Thread.topFrame?).isSome

def AllFit (s : Kernel) (t : ThreadId) (shapes : List Shape) : List Work → Prop
  | [] => True
  | w :: ws => w.Fits s t shapes ∧ AllFit s t (shapes ++ (w.shape? s).toList) ws

instance (s : Kernel) (t : ThreadId) (shapes : List Shape) : DecidablePred (Fits s t shapes)
  | newObject c _ => inferInstanceAs (Decidable (c < s.classes.size))
  | newArray .. => inferInstanceAs (Decidable True)
  | setField j name v => inferInstanceAs (Decidable ((∀ c ∈ v.contents, c.IsKnown s shapes.length) ∧
      ∃ p ∈ shapes[j]?.bind (Shape.field? name), v.Suits p.2))
  | setElement j i v => inferInstanceAs (Decidable ((∀ c ∈ v.contents, c.IsKnown s shapes.length) ∧
      ∃ elem ∈ shapes[j]?.bind (Shape.element? i), v.Suits elem))
  | setLocal i c => inferInstanceAs (Decidable (c.IsKnown s shapes.length ∧
      ∃ f ∈ (s.threads.get? t).bind Thread.topFrame?, i < f.locals))
  | push c => inferInstanceAs (Decidable (c.IsKnown s shapes.length ∧
      ((s.threads.get? t).bind Thread.topFrame?).isSome))

instance AllFit.instDecidable (s : Kernel) (t : ThreadId) :
    (shapes : List Shape) → (ws : List Work) → Decidable (AllFit s t shapes ws)
  | _, [] => inferInstanceAs (Decidable True)
  | shapes, w :: ws =>
    have := instDecidable s t (shapes ++ (w.shape? s).toList) ws
    inferInstanceAs (Decidable (_ ∧ _))

end Work

end Interleave
