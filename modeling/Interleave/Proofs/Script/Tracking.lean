import Interleave.Proofs.Search.Executions
import Interleave.Script.Exec

/-!
Scripts change the state by the operations of the kernel only, so that every change shows in the epochs.
-/

namespace Interleave

namespace Scheduler

variable {scheduler : Scheduler} {k k' : Kernel} {d d' : Dice} {t : ThreadId} {g? : Option Generator}

theorem tracks_announce {g : Generator} (h : pure (announce k d g) = (Except.ok (g?, k', d') : Except Fault _)) :
    k.Tracks k' := by
  unfold announce at h
  split at h
  · cases h
    exact .refl k
  · cases h
    exact .tell k _

theorem tracks_optional {kind : ChoiceKind} {access : Option ArrayAccess}
    (h : scheduler.optional k d kind t access = .ok (g?, k', d')) : k.Tracks k' := by
  unfold optional at h
  split at h
  · obtain ⟨⟨choices, d₁⟩, -, h⟩ := bind_eq_ok.mp h
    exact tracks_announce h
  · cases h
    exact .refl k

theorem tracks_forced {kind : ChoiceKind} (h : scheduler.forced k d kind t = .ok (g?, k', d')) :
    k.Tracks k' := by
  have hblocked : k.Tracks (if k.isAtomicFor t then k.setBlockedInAtomic else k) := by
    split
    · exact .stirs (@Kernel.stirs_setBlockedInAtomic False k)
    · exact .refl k
  obtain ⟨⟨choices, d₁⟩, -, h⟩ := bind_eq_ok.mp h
  exact hblocked.trans (tracks_announce h)

theorem tracks_unlessAtomic {kind : ChoiceKind} {access : Option ArrayAccess}
    (h : scheduler.unlessAtomic k d kind t access = .ok (g?, k', d')) : k.Tracks k' := by
  unfold unlessAtomic at h
  split at h
  · cases h
    exact .refl k
  · exact tracks_optional h

theorem tracks_afterEnter {kind : ChoiceKind} (h : scheduler.afterEnter k d kind t = .ok (g?, k', d')) :
    k.Tracks k' := by
  obtain ⟨info, -, h⟩ := bind_eq_ok.mp h
  split at h
  · exact tracks_forced h
  · exact tracks_unlessAtomic h

theorem tracks_amongWaiters {o : Ref} (h : amongWaiters k d t o = .ok (g?, k', d')) : k.Tracks k' := by
  unfold amongWaiters at h
  split at h
  · cases h
    exact .refl k
  · obtain ⟨e, -, h⟩ := bind_eq_ok.mp h
    split at h
    · cases h
      exact .refl k
    · cases h
      exact .refl k
    · exact tracks_announce h

theorem tracks_afterEnd (h : scheduler.afterEnd k d t = .ok (g?, k', d')) : k.Tracks k' := by
  unfold afterEnd at h
  split at h
  · obtain ⟨⟨choices, d₁⟩, -, h⟩ := bind_eq_ok.mp h
    exact tracks_announce h
  · cases h
    exact .refl k

theorem tracks_decide {path : Path} {what : Occasion}
    (h : scheduler.decide k d path t what = .ok (g?, k', d')) : k.Tracks k' := by
  have hnone : (return (none, k, d)) = (Except.ok (g?, k', d') : Except Fault _) → k.Tracks k' := by
    intro h
    cases h
    exact .refl k
  have hbreak : ∀ {flag : Bool} {kind : ChoiceKind} {access : Option ArrayAccess},
      (if flag then scheduler.unlessAtomic k d kind t access else return (none, k, d)) = .ok (g?, k', d') →
        k.Tracks k' := by
    intro flag kind access h
    split at h
    · exact tracks_unlessAtomic h
    · exact hnone h
  cases what with
  | syncMethodEnter o => exact tracks_afterEnter h
  | monitorEnter o => exact tracks_afterEnter h
  | wait o => exact tracks_forced h
  | park => exact tracks_forced h
  | notify o => exact tracks_amongWaiters h
  | unpark target => exact tracks_unlessAtomic h
  | sharedField o => exact tracks_unlessAtomic h
  | interrupt target => exact tracks_unlessAtomic h
  | sharedArray access => exact hbreak h
  | start started => exact hbreak h
  | yield => exact hbreak h
  | sleep => exact hbreak h
  | suspend => exact tracks_optional h
  | resume => exact tracks_optional h
  | endAtomic => exact tracks_optional h
  | terminate => exact tracks_afterEnd h
  | _ => exact hnone h

end Scheduler

namespace Kernel

variable {k k' : Kernel} {t : ThreadId} {kind : BoxKind} {r : Except KernelError Ref}

theorem tracks_newBox {v : Int64} (h : k.newBox t kind v = .ok (r, k')) : k.Tracks k' := by
  obtain ⟨⟨o, k₁⟩, hnew, h⟩ := bind_eq_ok.mp h
  have hobject : k.Tracks k₁ :=
    .trans (.perform (.register kind.boxClass) rfl)
      (.operation (.newObject _ (some t) none) (fun _ => rfl) hnew)
  apply hobject.trans
  dsimp only at h
  split at h
  · obtain ⟨⟨r', k₂⟩, hset, h⟩ := bind_eq_ok.mp h
    cases h
    exact .operation (.writeField o "value" (.long v)) (fun _ => rfl) hset
  · obtain ⟨⟨r', k₂⟩, hset, h⟩ := bind_eq_ok.mp h
    cases h
    exact .operation (.writeField o "value" (.int v.toInt32)) (fun _ => rfl) hset

theorem tracks_fillBoxes {array : Ref} {slot : Nat} {values : List Int64} {r : Except KernelError Unit}
    (h : k.fillBoxes t kind array slot values = .ok (r, k')) : k.Tracks k' := by
  induction values generalizing k slot with
  | nil =>
    cases h
    exact .refl _
  | cons v rest ih =>
    obtain ⟨⟨r₁, k₁⟩, hbox, h⟩ := bind_eq_ok.mp h
    apply (tracks_newBox hbox).trans
    cases r₁ with
    | error e =>
      cases h
      exact .refl _
    | ok box =>
      obtain ⟨k₂, hslot, h⟩ := bind_eq_ok.mp h
      exact .trans (.perform (.writeSlot array slot (.ref box)) hslot) (ih h)

theorem tracks_newBoxArray {bounds : BoxBounds} (h : k.newBoxArray bounds t kind = .ok (r, k')) :
    k.Tracks k' := by
  obtain ⟨⟨array, k₁⟩, hnew, h⟩ := bind_eq_ok.mp h
  obtain ⟨⟨r₁, k₂⟩, hfill, h⟩ := bind_eq_ok.mp h
  cases h
  exact .trans (.operation (.newArray .reference _ (some t) none) (fun _ => rfl) hnew)
    (tracks_fillBoxes hfill)

theorem tracks_boxArray {bounds : BoxBounds} (h : k.boxArray bounds t kind = .ok (r, k')) :
    k.Tracks k' := by
  obtain ⟨k₁, hload, h⟩ := bind_eq_ok.mp h
  obtain ⟨found, -, h⟩ := bind_eq_ok.mp h
  have hloaded : k.Tracks k₁ :=
    .trans (.perform (.register BoxKind.cachesClass) rfl) (.perform (.load _) hload)
  apply hloaded.trans
  cases found with
  | error e =>
    cases h
    exact .refl _
  | ok array =>
    dsimp only at h
    split at h
    · obtain ⟨⟨r₂, k₂⟩, hnew, h⟩ := bind_eq_ok.mp h
      apply (tracks_newBoxArray hnew).trans
      cases r₂ with
      | error e =>
        cases h
        exact .refl _
      | ok array =>
        obtain ⟨⟨r₃, k₃⟩, hset, h⟩ := bind_eq_ok.mp h
        cases h
        exact .operation (.writeStatic _ kind.cacheField (.ref array)) (fun _ => rfl) hset
    · cases h
      exact .refl _

theorem tracks_box {bounds : BoxBounds} {v : Int64} (h : k.box bounds t kind v = .ok (r, k')) :
    k.Tracks k' := by
  unfold box at h
  dsimp only at h
  split at h
  · exact tracks_newBox h
  · obtain ⟨⟨r₁, k₁⟩, harray, h⟩ := bind_eq_ok.mp h
    apply (tracks_boxArray harray).trans
    cases r₁ with
    | error e =>
      cases h
      exact .refl _
    | ok array =>
      obtain ⟨e, -, h⟩ := bind_eq_ok.mp h
      obtain ⟨box, -, h⟩ := bind_eq_ok.mp h
      cases h
      exact .refl _

end Kernel

variable {σ : Type}

namespace ScriptM

def Tracks {α : Type} (m : ScriptM σ α) : Prop :=
  ∀ k rest r k' rest', m (k, rest) = .ok (r, k', rest') → k.Tracks k'

variable {α β : Type}

theorem tracks_pure (a : α) : (pure a : ScriptM σ α).Tracks := by
  intro k rest r k' rest' h
  cases h
  exact .refl _

theorem tracks_fail (t : ThreadId) (text : String) : (fail t text : ScriptM σ α).Tracks := by
  intro k rest r k' rest' h
  cases h
  exact .refl _

theorem Tracks.bind {m : ScriptM σ α} {f : α → ScriptM σ β} (hm : m.Tracks) (hf : ∀ a, (f a).Tracks) :
    (m >>= f).Tracks := by
  intro k rest r k' rest' h
  obtain ⟨⟨r₁, k₁, rest₁⟩, hr₁, h⟩ := bind_eq_ok.mp h
  apply (hm _ _ _ _ _ hr₁).trans
  cases r₁ with
  | error e =>
    cases h
    exact .refl _
  | ok a => exact hf a _ _ _ _ _ h

theorem Tracks.discard {m : ScriptM σ α} (hm : m.Tracks) : (discard m).Tracks := by
  intro k rest r k' rest' h
  obtain ⟨⟨r₁, k₁, rest₁⟩, hr₁, h⟩ := bind_eq_ok.mp h
  apply (hm _ _ _ _ _ hr₁).trans
  cases r₁ with
  | error e =>
    cases h
    exact .refl _
  | ok a =>
    cases h
    exact .refl _

theorem tracks_update {f : Kernel → Except Fault (α × Kernel)}
    (hf : ∀ {k a k'}, f k = .ok (a, k') → k.Tracks k') : (update f : ScriptM σ α).Tracks := by
  intro k rest r k' rest' h
  obtain ⟨⟨a, k₁⟩, hk₁, h⟩ := bind_eq_ok.mp h
  cases h
  exact hf hk₁

theorem tracks_change {f : Kernel → Except Fault Kernel} (hf : ∀ {k k'}, f k = .ok k' → k.Tracks k') :
    (change f : ScriptM σ Unit).Tracks := by
  apply tracks_update
  intro k a k' h
  obtain ⟨k₁, hk₁, h⟩ := bind_eq_ok.mp h
  cases h
  exact hf hk₁

theorem tracks_attempt {f : Kernel → Except Fault (Attempt α)}
    (hf : ∀ {k a k'}, f k = .ok (a, k') → k.Tracks k') : (attempt f : ScriptM σ α).Tracks := by
  intro k rest r k' rest' h
  obtain ⟨⟨a, k₁⟩, hk₁, h⟩ := bind_eq_ok.mp h
  cases h
  exact hf hk₁

theorem tracks_look (f : Kernel → Except Fault α) : (look f : ScriptM σ α).Tracks := by
  apply tracks_update
  intro k a k' h
  obtain ⟨a', -, h⟩ := bind_eq_ok.mp h
  cases h
  exact .refl _

theorem tracks_ask (f : Kernel → Except Fault (Except KernelError α)) : (ask f : ScriptM σ α).Tracks := by
  apply tracks_attempt
  intro k a k' h
  obtain ⟨a', -, h⟩ := bind_eq_ok.mp h
  cases h
  exact .refl _

theorem tracks_operation {f : Kernel → Except Fault (α × Kernel)} (op : Op)
    (hop : ∀ k, k.perform op = f k >>= fun r => pure r.2) : (update f : ScriptM σ α).Tracks :=
  tracks_update fun h => .operation op hop h

theorem tracks_refusable {f : Kernel → Except Fault (Attempt α)} (op : Op)
    (hop : ∀ k, k.perform op = f k >>= fun r => pure r.2) : (attempt f : ScriptM σ α).Tracks :=
  tracks_attempt fun h => .operation op hop h

theorem tracks_ite {c : Prop} [Decidable c] {m₁ m₂ : ScriptM σ α} (h₁ : m₁.Tracks) (h₂ : m₂.Tracks) :
    (if c then m₁ else m₂).Tracks := by
  split
  · exact h₁
  · exact h₂

end ScriptM

namespace Script

open ScriptM

variable {s : Script} {ctx : StepContext} {t : ThreadId} {site : Site}

theorem tracks_topFrame (t : ThreadId) : (topFrame t : ScriptM σ Frame).Tracks := by
  apply (tracks_look _).bind
  intro info
  split
  · exact tracks_pure _
  · exact tracks_fail _ _

theorem tracks_updateFrame (t : ThreadId) (f : Frame → Except Fault Frame) :
    (updateFrame t f : ScriptM σ Unit).Tracks := by
  apply (tracks_topFrame t).bind
  intro frame
  apply tracks_change
  intro k k' h
  obtain ⟨frame', -, h⟩ := bind_eq_ok.mp h
  exact .stirs (Kernel.stirs_updateThread h fun _ => rfl)

theorem tracks_advance (t : ThreadId) : (advance t : ScriptM σ Unit).Tracks := tracks_updateFrame t _

theorem tracks_goOn (t : ThreadId) :
    (do advance t; return none : ScriptM Dice (Option Generator)).Tracks :=
  (tracks_advance t).bind fun _ => tracks_pure _

theorem tracks_jumpTo (t : ThreadId) (pc : Nat) : (jumpTo t pc : ScriptM σ Unit).Tracks :=
  tracks_updateFrame t _

theorem tracks_setLocal (t : ThreadId) (v : Int32) : (setLocal t v : ScriptM σ Unit).Tracks :=
  tracks_updateFrame t _

theorem tracks_setLocalRef (t : ThreadId) (r : Ref) : (setLocalRef t r : ScriptM σ Unit).Tracks :=
  tracks_updateFrame t _

theorem tracks_getLocal (t : ThreadId) : (getLocal t : ScriptM σ Int32).Tracks :=
  (tracks_topFrame t).bind fun _ => tracks_look _

theorem tracks_getLocalRef (t : ThreadId) : (getLocalRef t : ScriptM σ Ref).Tracks :=
  (tracks_topFrame t).bind fun _ => tracks_look _

theorem tracks_register (c : ClassDescriptor) : (register c : ScriptM σ ClassId).Tracks :=
  tracks_operation (.register c) fun _ => rfl

theorem tracks_getShared (field : String) : (s.getShared field : ScriptM σ Int32).Tracks :=
  (tracks_register _).bind fun _ => tracks_ask _

theorem tracks_getSharedRef (field : String) : (s.getSharedRef field : ScriptM σ Ref).Tracks :=
  (tracks_register _).bind fun _ => tracks_ask _

theorem tracks_setShared (field : String) (v : Int32) : (s.setShared field v : ScriptM σ Unit).Tracks :=
  (tracks_register _).bind fun c => tracks_refusable (.writeStatic c field (.int v)) fun _ => rfl

theorem tracks_setSharedRef (field : String) (r : Ref) : (s.setSharedRef field r : ScriptM σ Unit).Tracks :=
  (tracks_register _).bind fun c => tracks_refusable (.writeStatic c field (.ref r)) fun _ => rfl

theorem tracks_decide (ctx : StepContext) (t : ThreadId) (what : Occasion) : (decide ctx t what).Tracks := by
  intro k d r k' d' h
  obtain ⟨⟨g?, k₁, d₁⟩, hdecide, h⟩ := bind_eq_ok.mp h
  cases h
  exact Scheduler.tracks_decide hdecide

theorem tracks_startThread (t : ThreadId) (m : MethodId) : (startThread t m : ScriptM σ Unit).Tracks := by
  apply tracks_attempt
  intro k a k' h
  obtain ⟨frame, -, h⟩ := bind_eq_ok.mp h
  exact .operation (.start t frame) (fun _ => rfl) h

theorem tracks_unlock (t : ThreadId) (o : Ref) : (discard <| attempt (·.unlock t o) : ScriptM σ Unit).Tracks :=
  (tracks_refusable (.unlock t o) fun _ => rfl).discard

theorem tracks_leaveMonitor (t : ThreadId) (o : Ref) : (leaveMonitor t o : ScriptM σ Unit).Tracks := by
  have hgo : ∀ n, (leaveMonitor.go t o n : ScriptM σ Unit).Tracks := by
    intro n
    induction n with
    | zero => exact tracks_pure _
    | succ n ih => exact (tracks_unlock t o).bind fun _ => ih
  apply (tracks_look _).bind
  intro owner
  exact tracks_ite ((tracks_look _).bind fun e => hgo _) (tracks_pure _)

theorem tracks_sharedAccess {resumed : Bool} {what : Occasion} {access : ScriptM Dice Unit}
    (h : access.Tracks) : (sharedAccess ctx t resumed what access).Tracks := by
  have hgoOn : (do access; advance t; return none : ScriptM Dice (Option Generator)).Tracks :=
    h.bind fun _ => tracks_goOn t
  unfold sharedAccess
  split
  · apply (tracks_decide ctx t what).bind
    intro g?
    split
    · exact tracks_pure _
    · exact hgoOn
  · exact hgoOn

theorem tracks_enterMonitor {o : Ref} {what : Occasion} : (enterMonitor ctx t o what).Tracks := by
  apply (tracks_operation (.lock t o) fun _ => rfl).bind
  intro outcome
  dsimp only
  split
  · exact (tracks_advance t).bind fun _ => tracks_decide ctx t what
  · exact tracks_decide ctx t what

theorem tracks_waitOn {i : Nat} {wait : Kernel → ThreadId → Ref → Except Fault (Attempt Unit)}
    (hwait : ∀ {k o r k'}, wait k t o = .ok (r, k') → k.Tracks k') : (s.waitOn ctx t i wait).Tracks := by
  apply (tracks_getSharedRef _).bind
  intro o
  apply (tracks_look _).bind
  intro info
  exact tracks_ite ((tracks_attempt hwait).bind fun _ => tracks_decide _ _ _) tracks_enterMonitor

theorem tracks_notifyOn {i : Nat} {choice : Option ThreadId} : (s.notifyOn ctx t i choice).Tracks := by
  apply (tracks_getSharedRef _).bind
  intro o
  cases choice with
  | some waiter =>
    exact (tracks_refusable (.notifyThread t o waiter) fun _ => rfl).discard.bind fun _ => tracks_goOn t
  | none =>
    apply (tracks_decide ctx t (.notify o)).bind
    intro g?
    split
    · exact tracks_pure _
    · exact (tracks_refusable (.notify t o) fun _ => rfl).discard.bind fun _ => tracks_goOn t

theorem tracks_join {u : ThreadId} : (join ctx t u).Tracks := by
  apply (tracks_look _).bind
  intro target
  apply (tracks_look _).bind
  intro info
  dsimp only
  split
  · apply (tracks_operation (.lock t target.object) fun _ => rfl).bind
    intro outcome
    split
    · exact tracks_decide _ _ _
    · split
      · exact (tracks_refusable (.wait t target.object) fun _ => rfl).bind fun _ => tracks_decide _ _ _
      · exact (tracks_leaveMonitor _ _).bind fun _ => tracks_goOn t
  · exact tracks_goOn t

theorem tracks_newNode (t : ThreadId) (site : Site) : (newNode t site : ScriptM σ Unit).Tracks := by
  apply (tracks_register _).bind
  intro c
  apply (tracks_operation (.newObject c (some t) (some site)) fun _ => rfl).bind
  intro o
  apply (tracks_getLocal t).bind
  intro v
  apply (tracks_refusable (.writeField o "val" (.int v)) fun _ => rfl).bind
  intro _
  apply (tracks_getLocalRef t).bind
  intro next
  apply (tracks_refusable (.writeField o "next" (.ref next)) fun _ => rfl).bind
  intro _
  exact tracks_setLocalRef t o

theorem tracks_execPlain (instr : Instr) : (s.execPlain ctx t site instr).Tracks := by
  have hdecide : ∀ {m : ScriptM Dice Unit} {t what}, m.Tracks → (do m; decide ctx t what).Tracks :=
    fun hm => hm.bind fun _ => tracks_decide _ _ _
  have hnone : ∀ {m : ScriptM Dice Unit}, m.Tracks → (do m; return none : ScriptM Dice (Option Generator)).Tracks :=
    fun hm => hm.bind fun _ => tracks_pure _
  cases instr with
  | unlock i => exact (tracks_getSharedRef _).bind fun o => hdecide (tracks_unlock t o)
  | syncExit i => exact (tracks_getSharedRef _).bind fun o => hdecide (tracks_unlock t o)
  | notifyAll i =>
    apply (tracks_getSharedRef _).bind
    intro o
    exact hdecide (tracks_refusable (.notifyAll t o) fun _ => rfl).discard
  | timeOut u => exact hnone (tracks_operation (.timeOut u) fun _ => rfl).discard
  | yield => exact tracks_decide _ _ _
  | sleep => exact hdecide (tracks_change fun h => .perform (.sleep t) h)
  | park => exact hdecide (tracks_change fun h => .perform (.park t) h)
  | unpark u => exact hdecide (tracks_operation (.unpark u) fun _ => rfl).discard
  | interrupt u => exact hdecide (tracks_change fun h => .perform (.interrupt u) h)
  | suspend u => exact hdecide (tracks_change fun h => .perform (.suspend u) h)
  | resume u => exact hdecide (tracks_change fun h => .perform (.resume u) h)
  | start u m => exact hdecide (tracks_startThread u m)
  | spawn m =>
    apply (tracks_operation (.createThread "spawned" (some t) (some site)) fun _ => rfl).bind
    intro u
    exact hdecide (tracks_startThread u m)
  | stop u => exact hdecide (tracks_refusable (.terminate u) fun _ => rfl)
  | beginAtomic => exact hdecide (tracks_change fun h => .perform (.beginAtomic t) h)
  | endAtomic => exact hdecide (tracks_refusable (.endAtomic t) fun _ => rfl)
  | new => exact hnone (tracks_newNode t site)
  | drop => exact hnone (tracks_setLocalRef t .null)
  | set v => exact hnone (tracks_setLocal t v)
  | add v => exact (tracks_getLocal t).bind fun _ => hnone (tracks_setLocal t _)
  | box kind v => exact (tracks_attempt Kernel.tracks_box).bind fun _ => hnone (tracks_setLocalRef t _)
  | intern text =>
    apply (tracks_operation (.intern text (some t)) fun _ => rfl).bind
    intro r
    exact hnone (tracks_setLocalRef t r)
  | call m =>
    apply hnone
    apply tracks_attempt
    intro k a k' h
    obtain ⟨frame, -, h⟩ := bind_eq_ok.mp h
    exact .operation (.enter t frame) (fun _ => rfl) h
  | executed => exact hnone (tracks_change fun h => .perform (.executed t) h)
  | loadClass name => exact hnone (tracks_refusable (.loadNamed name) fun _ => rfl).discard
  | fail text => exact tracks_fail t text
  | _ => exact tracks_pure _

theorem tracks_exec {resumed : Bool} {choice : Option ThreadId} (instr : Instr) :
    (s.exec ctx t site resumed choice instr).Tracks := by
  unfold exec
  split
  · exact tracks_sharedAccess (tracks_setShared _ _)
  · exact tracks_sharedAccess ((tracks_getShared _).bind fun _ => tracks_setLocal t _)
  · exact tracks_sharedAccess ((tracks_getLocal t).bind fun _ => tracks_setShared _ _)
  · exact tracks_sharedAccess ((tracks_getLocalRef t).bind fun _ => tracks_setSharedRef _ _)
  · exact tracks_sharedAccess ((tracks_getSharedRef _).bind fun _ => tracks_setLocalRef t _)
  · apply (tracks_getSharedRef _).bind
    intro array
    exact tracks_sharedAccess ((tracks_look _).bind fun _ => tracks_setLocal t _)
  · next i idx v =>
    apply (tracks_getSharedRef _).bind
    intro array
    exact tracks_sharedAccess (tracks_change fun h => .perform (.writeSlot array idx (.int v)) h)
  · exact (tracks_getSharedRef _).bind fun _ => tracks_enterMonitor
  · exact (tracks_getSharedRef _).bind fun _ => tracks_enterMonitor
  · exact tracks_waitOn fun h => .operation (.wait t _) (fun _ => rfl) h
  · exact tracks_waitOn fun h => .operation (.timedWait t _) (fun _ => rfl) h
  · exact tracks_notifyOn
  · exact tracks_join
  · exact (tracks_jumpTo t _).bind fun _ => tracks_pure _
  · apply (tracks_getLocal t).bind
    intro v
    split
    · exact (tracks_jumpTo t _).bind fun _ => tracks_pure _
    · exact tracks_goOn t
  · exact (tracks_advance t).bind fun _ => tracks_execPlain _

theorem tracks_afterEnd (ctx : StepContext) (t : ThreadId) : (afterEnd ctx t).Tracks :=
  (tracks_decide ctx t _).bind fun _ => tracks_pure _

theorem tracks_runThread {resumed : Bool} {choice : Option ThreadId} (fuel : Nat) :
    (s.runThread ctx t resumed choice fuel).Tracks := by
  induction fuel generalizing resumed choice with
  | zero => exact tracks_fail _ _
  | succ fuel ih =>
    apply (tracks_topFrame t).bind
    intro frame
    dsimp only
    split
    · apply (tracks_look _).bind
      intro info
      apply tracks_ite
      · exact (tracks_operation (.exit t) fun _ => rfl).discard.bind fun _ => ih
      · exact (tracks_refusable (.terminate t) fun _ => rfl).bind fun _ => tracks_afterEnd ctx t
    · next instr _ =>
      apply (tracks_exec instr).bind
      intro g?
      split
      · exact tracks_pure _
      · apply (tracks_look _).bind
        intro info
        exact tracks_ite (tracks_afterEnd ctx t) (tracks_ite (tracks_pure _) ih)

theorem isTracked (s : Script) : s.program.IsTracked := by
  intro ctx t
  have hrun : (s.runThread ctx t true ctx.dataChoice stepLimit).Tracks := tracks_runThread stepLimit
  have hstep : (s.step ctx t).Tracks := by
    apply (tracks_look _).bind
    intro info
    dsimp only
    split
    · exact (tracks_change fun h => .perform (.endSleep t) h).bind fun _ => hrun
    · exact hrun
  exact hstep

end Script

end Interleave
