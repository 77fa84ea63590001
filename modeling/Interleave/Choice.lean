import Interleave.Ref

/-!
Choice generators enumerate the threads among which a decision is taken. The decisions that lead to the
current state form a path.
-/

namespace Interleave

inductive ChoiceKind where
  | root
  | syncMethodEnter
  | monitorEnter
  | wait
  | notify
  | park
  | unpark
  | sharedField
  | sharedArray
  | start
  | yield
  | sleep
  | interrupt
  | terminate
  | suspend
  | resume
  | endAtomic
  deriving DecidableEq, Repr

namespace ChoiceKind

def tag : ChoiceKind → String
  | root => "<root>"
  | syncMethodEnter => "syncMethodEnter"
  | monitorEnter => "monitorEnter"
  | wait => "wait"
  | notify => "notify"
  | park => "park"
  | unpark => "unpark"
  | sharedField => "sharedField"
  | sharedArray => "sharedArray"
  | start => "start"
  | yield => "yield"
  | sleep => "sleep"
  | interrupt => "interrupt"
  | terminate => "terminate"
  | suspend => "suspend"
  | resume => "resume"
  | endAtomic => "endAtomic"

def all : List ChoiceKind :=
  [root, syncMethodEnter, monitorEnter, wait, notify, park, unpark, sharedField, sharedArray, start,
    yield, sleep, interrupt, terminate, suspend, resume, endAtomic]

def ofTag? (s : String) : Option ChoiceKind := all.find? (·.tag == s)

end ChoiceKind

structure ArrayAccess where
  array : Ref
  isRead : Bool
  deriving DecidableEq, Repr

inductive Generator.Phase where
  | created
  | advancing
  | exhausted
  deriving DecidableEq, Repr

structure Generator where
  kind : ChoiceKind
  choices : List ThreadId
  cursor : Option Nat := none
  creator : Option ThreadId := none
  access : Option ArrayAccess := none
  -- whether the choice says who runs next; otherwise the creator goes on, and is told the choice
  schedules : Bool := true
  deriving DecidableEq, Repr

namespace Generator

def root (choices : List ThreadId) : Generator := { kind := .root, choices }

def total (g : Generator) : Nat := g.choices.length

def processed (g : Generator) : Nat := g.cursor.elim 0 (· + 1)

def hasMore (g : Generator) : Bool := g.processed < g.total

def phase (g : Generator) : Phase :=
  if !g.hasMore then .exhausted else if g.cursor.isNone then .created else .advancing

def advance (g : Generator) : Option ThreadId × Generator :=
  if g.hasMore then
    (g.choices[g.processed]?, { g with cursor := some g.processed })
  else
    (none, g)

def current? (g : Generator) : Option ThreadId := g.cursor.bind (g.choices[·]?)

def reset (g : Generator) : Generator := { g with cursor := none }

def label (g : Generator) : String :=
  let item := fun (t, i) => (if g.cursor = some i then ">" else "") ++ toString (t : Nat)
  g.kind.tag ++ "[" ++ ",".intercalate (g.choices.zipIdx.map item) ++ "]"

end Generator

structure Path where
  newestFirst : List Generator := []
  deriving DecidableEq, Repr

namespace Path

def depth (p : Path) : Nat := p.newestFirst.length

def isEmpty (p : Path) : Bool := p.newestFirst.isEmpty

def push (p : Path) (g : Generator) : Path := ⟨g :: p.newestFirst⟩

def top? (p : Path) : Option Generator := p.newestFirst.head?

def pop (p : Path) : Path := ⟨p.newestFirst.tail⟩

def setTop (p : Path) (g : Generator) : Path := ⟨g :: p.newestFirst.tail⟩

def trace (p : Path) : List ThreadId := p.newestFirst.reverse.filterMap Generator.current?

end Path

end Interleave
