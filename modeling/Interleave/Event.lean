import Interleave.Choice

/-!
What happens to a program state, as observers are told. Observers get every event in the order in
which it happened; they never influence a run.
-/

namespace Interleave

inductive Event where
  | executed (t : ThreadId) (m : MethodId) (insn : Nat)
  | started (t : ThreadId)
  | blocked (t : ThreadId) (o : Ref)
  | waiting (t : ThreadId) (o : Ref)
  | notified (t : ThreadId)
  | terminated (t : ThreadId)
  | loaded (c : ClassId)
  | created (t : Option ThreadId) (o : Ref)
  | released (o : Ref) (gid : GlobalId)
  | locked (t : ThreadId) (o : Ref)
  | unlocked (t : ThreadId) (o : Ref)
  | gcBegin
  | gcEnd
  | registered (g : Generator)
  | set (g : Generator)
  | advanced (g : Generator)
  | processed (g : Generator)
  | entered (t : ThreadId) (m : MethodId)
  | exited (t : ThreadId) (m : MethodId)
  | advancedState (depth : Nat) (isNew : Bool)
  | backtracked (depth : Nat)
  deriving DecidableEq, Repr

namespace Event

def label : Event → String
  | executed t m insn => s!"executed {t.label} {m.label} {insn}"
  | started t => s!"started {t.label}"
  | blocked t o => s!"blocked {t.label} {o.label}"
  | waiting t o => s!"waiting {t.label} {o.label}"
  | notified t => s!"notified {t.label}"
  | terminated t => s!"terminated {t.label}"
  | loaded c => s!"loaded {c.label}"
  | created (some t) o => s!"created {t.label} {o.label}"
  | created none o => s!"created - {o.label}"
  | released o gid => s!"released {o.label} {gid.label}"
  | locked t o => s!"locked {t.label} {o.label}"
  | unlocked t o => s!"unlocked {t.label} {o.label}"
  | gcBegin => "gc_begin"
  | gcEnd => "gc_end"
  | registered g => s!"registered {g.label}"
  | set g => s!"set {g.label}"
  | advanced g => s!"advanced {g.label}"
  | processed g => s!"processed {g.label}"
  | entered t m => s!"entered {t.label} {m.label}"
  | exited t m => s!"exited {t.label} {m.label}"
  | advancedState depth isNew => s!"advanced_state {depth} {isNew}"
  | backtracked depth => s!"backtracked {depth}"

end Event

structure Observers where
  count : Nat := 0
  told : Array Event := #[]

namespace Observers

def isEmpty (o : Observers) : Bool := o.count == 0

def tell (o : Observers) (e : Event) : Observers :=
  -- without observers, nothing is kept
  if o.isEmpty then o else { o with told := o.told.push e }

def tellAll (o : Observers) (es : List Event) : Observers := es.foldl tell o

end Observers

end Interleave
