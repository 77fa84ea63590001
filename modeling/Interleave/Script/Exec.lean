import Interleave.Kernel.Lifecycle
import Interleave.Script.Basic
import Interleave.Search.Program

/-!
The program that a script denotes.

An access to shared data asks for a decision before it happens. When the thread runs on, it makes the
access without asking again. An attempt to enter a monitor is repeated until it succeeds.
-/

namespace Interleave

/-- Computations on the state that may be refused; a refusal keeps the state. Transitions carry the dice
along with the kernel, and the construction of the initial state carries nothing. -/
abbrev ScriptM (σ : Type) := ExceptT SearchError (StateT (Kernel × σ) (Except Fault))

variable {σ : Type}

namespace ScriptM

variable {α : Type}

def update (f : Kernel → Except Fault (α × Kernel)) : ScriptM σ α :=
  fun (k, rest) => do
    let (a, k) ← f k
    return (.ok a, k, rest)

def change (f : Kernel → Except Fault Kernel) : ScriptM σ Unit :=
  update fun k => return ((), ← f k)

def attempt (f : Kernel → Except Fault (Attempt α)) : ScriptM σ α :=
  fun (k, rest) => do
    let (r, k) ← f k
    return (r.mapError .kernel, k, rest)

def look (f : Kernel → Except Fault α) : ScriptM σ α :=
  update fun k => return (← f k, k)

def ask (f : Kernel → Except Fault (Except KernelError α)) : ScriptM σ α :=
  attempt fun k => return (← f k, k)

def fail (t : ThreadId) (text : String) : ScriptM σ α := throw (.program t text)

end ScriptM

namespace Script

open ScriptM

def entry (m : MethodId) : Except Fault Frame := (Frame.fresh m 2).setLocalRef 1 .null

def integerLocal : Nat := 0

def referenceLocal : Nat := 1

def thread (t : ThreadId) : ScriptM σ Thread := look (·.threads.get t)

def topFrame (t : ThreadId) : ScriptM σ Frame := do
  match (← thread t).topFrame? with
  | some f => return f
  | none => fail t "no frame"

def updateFrame (t : ThreadId) (f : Frame → Except Fault Frame) : ScriptM σ Unit := do
  let frame ← topFrame t
  change fun k => do
    let frame ← f frame
    k.updateThread t (·.setTopFrame frame)

def advance (t : ThreadId) : ScriptM σ Unit := updateFrame t fun f => return f.advance

def jumpTo (t : ThreadId) (pc : Nat) : ScriptM σ Unit := updateFrame t fun f => return { f with pc := some pc }

def getLocal (t : ThreadId) : ScriptM σ Int32 := do
  let f ← topFrame t
  look fun _ => f.getSlot integerLocal

def setLocal (t : ThreadId) (v : Int32) : ScriptM σ Unit := updateFrame t (·.setLocal integerLocal v)

def getLocalRef (t : ThreadId) : ScriptM σ Ref := do
  let f ← topFrame t
  look fun _ => f.getRef referenceLocal

def setLocalRef (t : ThreadId) (r : Ref) : ScriptM σ Unit :=
  updateFrame t (·.setLocalRef referenceLocal r)

def register (c : ClassDescriptor) : ScriptM σ ClassId := update fun k => return k.register c

def shared (s : Script) : ScriptM σ ClassId := register s.sharedClass

def getShared (s : Script) (field : String) : ScriptM σ Int32 := do
  let c ← s.shared
  ask (·.getStaticInt c field)

def setShared (s : Script) (field : String) (v : Int32) : ScriptM σ Unit := do
  let c ← s.shared
  attempt (·.setStaticInt c field v)

def getSharedRef (s : Script) (field : String) : ScriptM σ Ref := do
  let c ← s.shared
  ask (·.getStaticRef c field)

def setSharedRef (s : Script) (field : String) (r : Ref) : ScriptM σ Unit := do
  let c ← s.shared
  attempt (·.setStaticRef c field r)

def lockRef (s : Script) (i : Nat) : ScriptM σ Ref := s.getSharedRef (lockField i)

def arrayRef (s : Script) (i : Nat) : ScriptM σ Ref := s.getSharedRef (arrayField i)

def decide (ctx : StepContext) (t : ThreadId) (what : Occasion) : ScriptM Dice (Option Generator) :=
  fun (k, d) => do
    let (g?, k, d) ← ctx.scheduler.decide k d ctx.path t what
    return (.ok g?, k, d)

def startThread (t : ThreadId) (m : MethodId) : ScriptM σ Unit :=
  attempt fun k => do k.startThread t (← entry m)

def leaveMonitor (t : ThreadId) (o : Ref) : ScriptM σ Unit := do
  if ← look (·.isOwner t o) then
    let e ← look (·.heap.deref o)
    go e.monitor.count
where
  go : Nat → ScriptM σ Unit
    | 0 => return
    | n + 1 => do
      discard <| attempt (·.unlock t o)
      go n

def sharedAccess (ctx : StepContext) (t : ThreadId) (resumed : Bool) (what : Occasion)
    (access : ScriptM Dice Unit) : ScriptM Dice (Option Generator) := do
  if !resumed then
    if let some g ← decide ctx t what then
      return some g
  access
  advance t
  return none

def enterMonitor (ctx : StepContext) (t : ThreadId) (o : Ref) (what : Occasion) :
    ScriptM Dice (Option Generator) := do
  if (← update (·.lock t o)) = .acquired then
    advance t
  decide ctx t what

def waitOn (s : Script) (ctx : StepContext) (t : ThreadId) (i : Nat)
    (wait : Kernel → ThreadId → Ref → Except Fault (Attempt Unit)) : ScriptM Dice (Option Generator) := do
  let o ← s.lockRef i
  if (← thread t).waitCount = 0 then
    attempt (wait · t o)
    decide ctx t (.wait o)
  else
    enterMonitor ctx t o (.monitorEnter o)

def notifyOn (s : Script) (ctx : StepContext) (t : ThreadId) (i : Nat) (choice : Option ThreadId) :
    ScriptM Dice (Option Generator) := do
  let o ← s.lockRef i
  match choice with
  | some waiter => discard <| attempt (·.notifyThread t o waiter)
  | none =>
    if let some g ← decide ctx t (.notify o) then
      return some g
    discard <| attempt (·.notify t o)
  advance t
  return none

def join (ctx : StepContext) (t u : ThreadId) : ScriptM Dice (Option Generator) := do
  let target ← thread u
  let o := target.object
  if target.isAlive || (← thread t).lockObject.isSome then
    if (← update (·.lock t o)) = .blocked then
      return ← decide ctx t (.monitorEnter o)
    if target.isAlive then
      attempt (·.wait t o)
      return ← decide ctx t (.wait o)
    leaveMonitor t o
  advance t
  return none

def newNode (t : ThreadId) (site : Site) : ScriptM σ Unit := do
  let c ← register nodeClass
  let o ← update (·.newObject c (some t) (some site))
  let v ← getLocal t
  attempt (·.setInt o "val" v)
  let next ← getLocalRef t
  attempt (·.setRef o "next" next)
  setLocalRef t o

def execPlain (s : Script) (ctx : StepContext) (t : ThreadId) (site : Site) :
    Instr → ScriptM Dice (Option Generator)
  | .unlock i => do
    let o ← s.lockRef i
    discard <| attempt (·.unlock t o)
    decide ctx t (.monitorExit o)
  | .syncExit i => do
    let o ← s.lockRef i
    discard <| attempt (·.unlock t o)
    decide ctx t (.syncMethodExit o)
  | .notifyAll i => do
    let o ← s.lockRef i
    discard <| attempt (·.notifyAll t o)
    decide ctx t (.notifyAll o)
  | .timeOut u => do
    discard <| update (·.timeOut u)
    return none
  | .yield => decide ctx t .yield
  | .sleep => do
    change (·.sleep t)
    decide ctx t .sleep
  | .park => do
    change (·.park t)
    decide ctx t .park
  | .unpark u => do
    discard <| update (·.unpark u)
    decide ctx t (.unpark u)
  | .interrupt u => do
    change (·.interrupt u)
    decide ctx t (.interrupt u)
  | .suspend u => do
    change (·.suspend u)
    decide ctx t .suspend
  | .resume u => do
    change (·.resume u)
    decide ctx t .resume
  | .start u m => do
    startThread u m
    decide ctx t (.start u)
  | .spawn m => do
    let u ← update (·.createThread "spawned" (some t) (some site))
    startThread u m
    decide ctx t (.start u)
  | .stop u => do
    attempt (·.terminateThread u)
    decide ctx u .stop
  | .beginAtomic => do
    change fun k => return k.beginAtomic t
    decide ctx t .beginAtomic
  | .endAtomic => do
    attempt fun k => return k.endAtomic t
    decide ctx t .endAtomic
  | .new => do
    newNode t site
    return none
  | .drop => do
    setLocalRef t .null
    return none
  | .set v => do
    setLocal t v
    return none
  | .add v => do
    setLocal t ((← getLocal t) + v)
    return none
  | .box kind v => do
    setLocalRef t (← attempt (·.box s.boxes t kind v))
    return none
  | .intern text => do
    setLocalRef t (← update (·.internString text (some t)))
    return none
  | .call m => do
    attempt fun k => do k.enterMethod t (← entry m)
    return none
  | .executed => do
    change (·.instructionExecuted t)
    return none
  | .loadClass name => do
    discard <| attempt (·.loadClassNamed name)
    return none
  | .fail text => fail t text
  | _ => return none

/-- Execute the instruction at `site`. The first instruction of a transition counts as resumed;
`choice` is the waiter that the decision before the transition has chosen, if it was about one. -/
def exec (s : Script) (ctx : StepContext) (t : ThreadId) (site : Site) (resumed : Bool)
    (choice : Option ThreadId) (instr : Instr) : ScriptM Dice (Option Generator) := do
  match instr with
  | .store f v => sharedAccess ctx t resumed (.sharedField .null) (s.setShared f v)
  | .load f => sharedAccess ctx t resumed (.sharedField .null) do setLocal t (← s.getShared f)
  | .put f => sharedAccess ctx t resumed (.sharedField .null) do s.setShared f (← getLocal t)
  | .publish =>
    sharedAccess ctx t resumed (.sharedField .null) do
      s.setSharedRef referenceField (← getLocalRef t)
  | .take =>
    sharedAccess ctx t resumed (.sharedField .null) do
      setLocalRef t (← s.getSharedRef referenceField)
  | .readElement i idx =>
    let array ← s.arrayRef i
    sharedAccess ctx t resumed (.sharedArray ⟨array, true⟩) do
      setLocal t (← look fun k => do (← k.heap.deref array).fields.getInt idx)
  | .writeElement i idx v =>
    let array ← s.arrayRef i
    sharedAccess ctx t resumed (.sharedArray ⟨array, false⟩) do
      change (·.updateElement array (·.updateFields (·.setInt idx v)))
  | .lock i =>
    let o ← s.lockRef i
    enterMonitor ctx t o (.monitorEnter o)
  | .syncEnter i =>
    let o ← s.lockRef i
    enterMonitor ctx t o (.syncMethodEnter o)
  | .wait i => s.waitOn ctx t i Kernel.wait
  | .timedWait i => s.waitOn ctx t i Kernel.timedWait
  | .notify i => s.notifyOn ctx t i choice
  | .join u => join ctx t u
  | .jump pc =>
    jumpTo t pc
    return none
  | .jumpIf v pc =>
    if (← getLocal t) = v then jumpTo t pc else advance t
    return none
  | instr =>
    advance t
    s.execPlain ctx t site instr

def afterEnd (ctx : StepContext) (t : ThreadId) : ScriptM Dice Transition := do
  return .ofGenerator? (← decide ctx t .terminate)

def runThread (s : Script) (ctx : StepContext) (t : ThreadId) (resumed : Bool)
    (choice : Option ThreadId) : Nat → ScriptM Dice Transition
  | 0 => fail t "step limit"
  | fuel + 1 => do
    let frame ← topFrame t
    let site : Site := ⟨frame.method, frame.pc.getD 0⟩
    match s.instr? site with
    | none =>
      if 1 < (← thread t).depth then
        discard <| update (·.exitMethod t)
        s.runThread ctx t false choice fuel
      else
        attempt (·.terminateThread t)
        afterEnd ctx t
    | some instr =>
      match ← s.exec ctx t site resumed choice instr with
      | some g => return .branch g
      | none =>
        let info ← thread t
        let choice := if let .notify _ := instr then none else choice
        if !info.isAlive then
          afterEnd ctx t
        else if !info.isRunnable then
          return .halt
        else
          s.runThread ctx t false choice fuel

def stepLimit : Nat := 1000

def step (s : Script) (ctx : StepContext) (t : ThreadId) : ScriptM Dice Transition := do
  if (← thread t).state = .sleeping then
    change (·.endSleep t)
  s.runThread ctx t true ctx.dataChoice stepLimit

def createWorker (i : Nat) (spec : ThreadScript) : ScriptM σ Unit := do
  let t ← update (·.createThread s!"worker-{i}" none none)
  if let some priority := spec.priority then
    change (·.updateThread t ({ · with priority }))
  if spec.daemon then
    change (·.updateThread t ({ · with daemon := true }))
  if spec.starts then
    startThread t i

def init (s : Script) : ScriptM Unit Unit := do
  let c ← s.shared
  change (·.loadClass c)
  let lockClass ← register lockClass
  for i in List.range s.locks do
    let o ← update (·.newObject lockClass none none)
    s.setSharedRef (lockField i) o
  for (length, i) in s.arrays.zipIdx do
    let o ← update (·.newArray .int length none none)
    s.setSharedRef (arrayField i) o
  if s.initFails then
    fail 0 "init"
  for (spec, i) in s.threads.toList.zipIdx do
    createWorker i spec

def sharedValue? (s : Script) (k : Kernel) (field : String) : Option Int32 :=
  match k.classes.lookup? s.sharedClass.name with
  | none => none
  | some c =>
    match k.getStaticInt c field with
    | .ok (.ok v) => some v
    | _ => none

def violation? (s : Script) (k : Kernel) : Option String :=
  match s.check with
  | none => none
  | some (.never field v) => do
    let actual ← s.sharedValue? k field
    if actual = v then some s!"{field} == {v.toInt}" else none
  | some (.final field v) => do
    let actual ← s.sharedValue? k field
    if !k.threads.anyAlive && actual != v then
      some s!"{field} == {actual.toInt}, expected {v.toInt}"
    else
      none

def program (s : Script) : Program where
  init k := do
    let (r, k, _) ← s.init (k, ())
    return (r, k)
  step ctx t k d := s.step ctx t (k, d)
  check := s.violation?

end Script

end Interleave
