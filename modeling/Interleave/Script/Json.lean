import Interleave.Json.Decode
import Interleave.Script.Basic

/-!
Scripts as JSON values. An instruction is an array of its name and its operands.
-/

namespace Interleave

instance : OfJson ValueKind := ⟨fun v => do ValueKind.ofName? (← ofJson? v)⟩

instance : OfJson BoxKind := ⟨fun v => do BoxKind.ofValueKind? (← ofJson? v)⟩

namespace Instr

def ofOperands? : String → List JsonValue → Option Instr
  | "store", [f, v] => return .store (← ofJson? f) (← ofJson? v)
  | "load", [f] => return .load (← ofJson? f)
  | "put", [f] => return .put (← ofJson? f)
  | "publish", [] => some .publish
  | "take", [] => some .take
  | "aread", [i, idx] => return .readElement (← ofJson? i) (← ofJson? idx)
  | "awrite", [i, idx, v] => return .writeElement (← ofJson? i) (← ofJson? idx) (← ofJson? v)
  | "lock", [i] => return .lock (← ofJson? i)
  | "unlock", [i] => return .unlock (← ofJson? i)
  | "sync_enter", [i] => return .syncEnter (← ofJson? i)
  | "sync_exit", [i] => return .syncExit (← ofJson? i)
  | "wait", [i] => return .wait (← ofJson? i)
  | "timed_wait", [i] => return .timedWait (← ofJson? i)
  | "timeout", [u] => return .timeOut (← ofJson? u)
  | "notify", [i] => return .notify (← ofJson? i)
  | "notify_all", [i] => return .notifyAll (← ofJson? i)
  | "join", [u] => return .join (← ofJson? u)
  | "yield", [] => some .yield
  | "sleep", [] => some .sleep
  | "park", [] => some .park
  | "unpark", [u] => return .unpark (← ofJson? u)
  | "interrupt", [u] => return .interrupt (← ofJson? u)
  | "suspend", [u] => return .suspend (← ofJson? u)
  | "resume", [u] => return .resume (← ofJson? u)
  | "start", [u, m] => return .start (← ofJson? u) (← ofJson? m)
  | "spawn", [m] => return .spawn (← ofJson? m)
  | "stop", [u] => return .stop (← ofJson? u)
  | "begin_atomic", [] => some .beginAtomic
  | "end_atomic", [] => some .endAtomic
  | "new", [] => some .new
  | "drop", [] => some .drop
  | "set", [v] => return .set (← ofJson? v)
  | "add", [v] => return .add (← ofJson? v)
  | "box", [kind, v] => return .box (← ofJson? kind) (← ofJson? v)
  | "intern", [text] => return .intern (← ofJson? text)
  | "call", [m] => return .call (← ofJson? m)
  | "executed", [] => some .executed
  | "load_class", [name] => return .loadClass (← ofJson? name)
  | "fail", [text] => return .fail (← ofJson? text)
  | "jmp", [pc] => return .jump (← ofJson? pc)
  | "jeq", [v, pc] => return .jumpIf (← ofJson? v) (← ofJson? pc)
  | _, _ => none

end Instr

instance : OfJson Instr where
  ofJson?
    | .arr (name :: operands) => do Instr.ofOperands? (← ofJson? name) operands
    | _ => none

instance : OfJson ThreadScript where
  ofJson? v := do
    let code : List Instr ← v.memberD "ops" []
    return {
      code := code.toArray
      daemon := ← v.memberD "daemon" false
      priority := ← v.memberD "priority" none
      starts := ← v.memberD "start" true
    }

instance : OfJson FieldCheck where
  ofJson?
    | .arr [mode, field, v] => do
      match ← JsonValue.text? mode with
      | "never" => return .never (← ofJson? field) (← ofJson? v)
      | "final" => return .final (← ofJson? field) (← ofJson? v)
      | _ => none
    | _ => none

instance : OfJson Script where
  ofJson? v := do
    let threads : List ThreadScript ← v.memberD "threads" []
    return {
      fields := ← v.memberD "fields" []
      locks := ← v.memberD "locks" 0
      arrays := ← v.memberD "arrays" []
      threads := threads.toArray
      check := ← v.memberD "check" none
      initFails := ← v.memberD "init_fails" false
    }

end Interleave
