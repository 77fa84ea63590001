import Interleave.Proofs.Allocation.Estate

/-!
A frame is a list of cells, the locals first. It keeps the words and the marks of its cells apart. Whatever
is done to it, they show the list that comes of doing the same to the list, and operands that come and go
leave no trace.
-/

namespace Interleave

namespace Frame

inductive Act where
  | setLocal (i : Nat) (v : Int32)
  | setLocalRef (i : Nat) (r : Ref)
  | push (v : Int32)
  | pushRef (r : Ref)
  | pop
  | popRef
  | setPc (pc : Option Nat)
  | advance

def Act.InRange (locals : Nat) : Act → Prop
  | setLocal i _ | setLocalRef i _ => i < locals
  | _ => True

def Act.MovesOperand : Act → Prop
  | push _ | pushRef _ | pop | popRef => True
  | _ => False

inductive Reply where
  | done
  | word (v : Option Int32)
  | ref (r : Option Ref)
  deriving DecidableEq

def act (f : Frame) : Act → Except Fault (Reply × Frame)
  | .setLocal i v => return (.done, ← f.setLocal i v)
  | .setLocalRef i r => return (.done, ← f.setLocalRef i r)
  | .push v => return (.done, f.push v)
  | .pushRef r => return (.done, f.pushRef r)
  | .pop => return (.word f.pop.1, f.pop.2)
  | .popRef => return (.ref f.popRef.1, f.popRef.2)
  | .setPc pc => return (.done, { f with pc })
  | .advance => return (.done, f.advance)

def run (f : Frame) : List Act → Except Fault (List Reply × Frame)
  | [] => return ([], f)
  | act :: acts => do
    let (reply, f) ← f.act act
    let (replies, f) ← f.run acts
    return (reply :: replies, f)

end Frame

namespace Cell

open Interleave.Frame (Act Reply)

def pop (locals : Nat) (l : List Cell) : Option Cell × List Cell :=
  if locals < l.length then (l.getLast?, l.dropLast) else (none, l)

def act (locals : Nat) (l : List Cell) : Act → Reply × List Cell
  | .setLocal i v => (.done, l.set i (v, false))
  | .setLocalRef i r => (.done, l.set i (r.slot, true))
  | .push v => (.done, l ++ [(v, false)])
  | .pushRef r => (.done, l ++ [(r.slot, true)])
  | .pop => (.word ((pop locals l).1.map (·.1)), (pop locals l).2)
  | .popRef => (.ref ((pop locals l).1.map fun c => ⟨c.1⟩), (pop locals l).2)
  | .setPc _ => (.done, l)
  | .advance => (.done, l)

def run (locals : Nat) (l : List Cell) : List Act → List Reply × List Cell
  | [] => ([], l)
  | a :: acts =>
    let (reply, l) := act locals l a
    let (replies, l) := run locals l acts
    (reply :: replies, l)

end Cell

namespace Frame

structure Refines (f : Frame) (locals : Nat) (l : List Cell) : Prop where
  slots : f.slots.toList = l.map (·.1)
  depth : l.length = locals + f.operandDepth
  isReference : ∀ i, f.isReference i = true ↔ ∃ v, l[i]? = some (v, true)
  references : f.references = Cell.references l
  readable : ∃ refs, f.refs.toList.mapM f.getRef = .ok refs ∧ f.references = refs.filter (!·.isNull)
  locals : f.locals = locals

/-- The acts push and pop, and never touch the operands that are there to begin with. -/
structure Excursion (f : Frame) (acts : List Act) : Prop where
  operands : ∀ act ∈ acts, act.MovesOperand
  above : ∀ before, before <+: acts → ∀ replies g, f.run before = .ok (replies, g) →
    f.operandDepth ≤ g.operandDepth

variable {f g : Frame} {locals : Nat} {l : List Cell}

structure Mirrors (f : Frame) (locals : Nat) (l : List Cell) : Prop where
  locals : f.locals = locals
  proper : f.Proper
  cells : f.cells = l

theorem Mirrors.length (h : f.Mirrors locals l) : l.length = f.slots.size := by
  rw [← h.cells, length_cells]

theorem mirrors_fresh (method : MethodId) (locals : Nat) :
    (fresh method locals).Mirrors locals (List.replicate locals (0, false)) := by
  refine ⟨rfl, proper_fresh method locals, ?_⟩
  apply List.ext_getElem?
  intro i
  rw [getElem?_cells]
  simp [fresh, isReference, Array.getElem?_replicate, List.getElem?_replicate]

theorem Mirrors.set (h : f.Mirrors locals l) (v : Int32) (refs : SlotSet) {i : Nat} (hi : i < locals)
    (hrefs : ∀ j, j ≠ i → refs.contains j = f.refs.contains j) :
    { f with slots := f.slots.setIfInBounds i v, refs }.Mirrors locals (l.set i (v, refs.contains i)) := by
  have hlt : i < f.slots.size := by
    have := h.proper.locals
    have := h.locals
    omega
  refine ⟨h.locals, h.proper.set hlt hrefs, ?_⟩
  rw [cells_set hlt hrefs, h.cells]

theorem Mirrors.append (h : f.Mirrors locals l) (v : Int32) (refs : SlotSet)
    (hrefs : ∀ j, j ≠ f.slots.size → refs.contains j = f.refs.contains j) :
    { f with slots := f.slots.push v, refs }.Mirrors locals (l ++ [(v, refs.contains f.slots.size)]) := by
  refine ⟨h.locals, h.proper.push hrefs, ?_⟩
  rw [cells_push hrefs, h.cells]

theorem cells_pop (f : Frame) :
    { f with slots := f.slots.pop, refs := f.refs.erase (f.slots.size - 1) }.cells = f.cells.dropLast := by
  apply List.ext_getElem?
  intro i
  rw [getElem?_cells, List.getElem?_dropLast, length_cells, Array.getElem?_pop, getElem?_cells]
  split
  · next hi =>
    have hne : f.slots.size - 1 ≠ i := by omega
    simp [isReference, hne]
  · rfl

theorem Proper.pop (h : f.Proper) (hlt : f.locals < f.slots.size) :
    { f with slots := f.slots.pop, refs := f.refs.erase (f.slots.size - 1) }.Proper := by
  refine ⟨?_, fun i hi => ?_⟩
  · rw [Array.size_pop]
    exact Nat.le_sub_one_of_lt hlt
  · rw [SlotSet.contains_erase, Bool.and_eq_true, decide_eq_true_eq] at hi
    have := h.refs i hi.1
    rw [Array.size_pop]
    omega

theorem back?_slots (f : Frame) : f.slots.back? = f.cells.getLast?.map (·.1) := by
  rw [List.getLast?_eq_getElem?, length_cells, getElem?_cells, Array.back?_eq_getElem?, Option.map_map]
  exact Option.map_id'.symm

theorem Mirrors.pop (h : f.Mirrors locals l) :
    f.pop.1 = (Cell.pop locals l).1.map (·.1) ∧ f.pop.2.Mirrors locals (Cell.pop locals l).2 := by
  have hlength := h.length
  have hlocals := h.locals
  unfold Frame.pop Cell.pop
  split
  · next hlt =>
    rw [if_pos (by omega), ← h.cells]
    exact ⟨f.back?_slots, h.locals, h.proper.pop hlt, f.cells_pop⟩
  · rw [if_neg (by omega)]
    exact ⟨rfl, h⟩

theorem Mirrors.act (h : f.Mirrors locals l) {a : Act} (ha : a.InRange locals) :
    ∃ g, f.act a = .ok ((Cell.act locals l a).1, g) ∧ g.Mirrors locals (Cell.act locals l a).2 := by
  cases a with
  | setLocal i v =>
    have hi : i < f.locals := by rwa [h.locals]
    have hset := h.set v (f.refs.erase i) ha (by intro j hj; simp [hj.symm])
    rw [SlotSet.contains_erase, decide_eq_false (by simp), Bool.and_false] at hset
    refine ⟨_, ?_, hset⟩
    rw [Frame.act, Frame.setLocal, if_pos hi]
    rfl
  | setLocalRef i r =>
    have hi : i < f.locals := by rwa [h.locals]
    have hset := h.set r.slot (f.refs.insert i) ha (by intro j hj; simp [hj.symm])
    rw [SlotSet.contains_insert, decide_eq_true rfl, Bool.or_true] at hset
    refine ⟨_, ?_, hset⟩
    rw [Frame.act, Frame.setLocalRef, if_pos hi]
    rfl
  | push v =>
    -- the slot is not marked anew, so what matters is that no mark was left there
    have hpush := h.append v f.refs fun _ _ => rfl
    rw [h.proper.contains_size] at hpush
    exact ⟨_, rfl, hpush⟩
  | pushRef r =>
    have hpush := h.append r.slot (f.refs.insert f.slots.size) (by intro j hj; simp [hj.symm])
    rw [SlotSet.contains_insert, decide_eq_true rfl, Bool.or_true] at hpush
    exact ⟨_, rfl, hpush⟩
  | pop =>
    obtain ⟨hv, hpop⟩ := h.pop
    refine ⟨_, ?_, hpop⟩
    rw [Frame.act, hv]
    rfl
  | popRef =>
    obtain ⟨hv, hpop⟩ := h.pop
    have hpopRef : f.popRef = (f.pop.1.map Ref.mk, f.pop.2) := rfl
    refine ⟨_, ?_, hpop⟩
    rw [Frame.act, hpopRef, hv, Option.map_map]
    rfl
  | setPc pc => exact ⟨_, rfl, h.locals, ⟨h.proper.locals, h.proper.refs⟩, h.cells⟩
  | advance => exact ⟨_, rfl, h.locals, ⟨h.proper.locals, h.proper.refs⟩, h.cells⟩

theorem Mirrors.run (h : f.Mirrors locals l) {acts : List Act}
    (hacts : ∀ a ∈ acts, a.InRange locals) :
    ∃ g, f.run acts = .ok ((Cell.run locals l acts).1, g) ∧
      g.Mirrors locals (Cell.run locals l acts).2 := by
  induction acts generalizing f l with
  | nil => exact ⟨f, rfl, h⟩
  | cons a acts ih =>
    obtain ⟨ha, hacts⟩ := List.forall_mem_cons.mp hacts
    obtain ⟨f₁, h₁, hf₁⟩ := h.act ha
    obtain ⟨g, hg, hmirrors⟩ := ih hf₁ hacts
    refine ⟨g, ?_, hmirrors⟩
    rw [Frame.run, h₁, ok_bind]
    dsimp only
    rw [hg]
    rfl

theorem map_fst_cells (f : Frame) : f.cells.map (·.1) = f.slots.toList := by
  unfold cells
  rw [List.map_map]
  exact List.zipIdx_map_fst 0 f.slots.toList

theorem Proper.isReference_iff (h : f.Proper) (i : Nat) :
    f.isReference i = true ↔ ∃ v, f.cells[i]? = some (v, true) := by
  rw [getElem?_cells]
  constructor
  · intro hi
    have hlt : i < f.slots.size := h.refs i hi
    rw [Array.getElem?_eq_getElem hlt, hi]
    exact ⟨_, rfl⟩
  · rintro ⟨v, hv⟩
    obtain ⟨w, -, hw⟩ := Option.map_eq_some_iff.mp hv
    exact congrArg Prod.snd hw

theorem eq_of_cells (hf : f.Proper) (hg : g.Proper) (hmethod : g.method = f.method) (hpc : g.pc = f.pc)
    (hlocals : g.locals = f.locals) (hcells : g.cells = f.cells) : g = f := by
  have hslots : g.slots = f.slots := by
    apply Array.toList_inj.mp
    rw [← map_fst_cells, ← map_fst_cells, hcells]
  have hrefs : g.refs = f.refs := by
    apply SlotSet.ext
    intro i
    rw [Bool.eq_iff_iff]
    exact (hg.isReference_iff i).trans (hcells ▸ (hf.isReference_iff i).symm)
  cases f
  cases g
  simp_all

theorem zipIdx_slots (f : Frame) :
    f.slots.toList.zipIdx = (List.range f.slots.size).map fun i => (f.slots[i]?.getD 0, i) := by
  apply List.ext_getElem?
  intro i
  rw [List.getElem?_zipIdx, List.getElem?_map, Array.getElem?_toList]
  by_cases hi : i < f.slots.size <;> simp [hi]

theorem Proper.references_eq (h : f.Proper) :
    f.references = (f.refs.toList.map fun i => Ref.mk (f.slots[i]?.getD 0)).filter (!·.isNull) := by
  unfold references
  congr 1
  rw [zipIdx_slots, List.filter_map, List.map_map, SlotSet.toList_eq_filter_range h.refs]
  rfl

theorem mapM_getRef {slots : List Nat} (h : ∀ i ∈ slots, i < f.slots.size) :
    slots.mapM f.getRef = .ok (slots.map fun i => Ref.mk (f.slots[i]?.getD 0)) := by
  induction slots with
  | nil => rfl
  | cons i slots ih =>
    obtain ⟨hi, hslots⟩ := List.forall_mem_cons.mp h
    have hget : f.getRef i = .ok ⟨f.slots[i]?.getD 0⟩ := by
      unfold getRef getSlot
      rw [Array.getElem?_eq_getElem hi]
      rfl
    rw [List.mapM_cons, hget, ih hslots]
    rfl

theorem Proper.mapM_refs (h : f.Proper) :
    f.refs.toList.mapM f.getRef = .ok (f.refs.toList.map fun i => Ref.mk (f.slots[i]?.getD 0)) :=
  mapM_getRef fun i hi => h.refs i (SlotSet.mem_toList.mp hi)

theorem Mirrors.refines (h : f.Mirrors locals l) : f.Refines locals l := by
  obtain ⟨rfl, hproper, rfl⟩ := h
  refine ⟨f.map_fst_cells.symm, ?_, hproper.isReference_iff, f.references_eq,
    ⟨_, hproper.mapM_refs, hproper.references_eq⟩, rfl⟩
  have := hproper.locals
  rw [length_cells, operandDepth]
  omega

end Frame

namespace Cell

open Interleave.Frame (Act Reply)

variable {locals n : Nat} {l : List Cell}

theorem take_act {a : Act} (ha : a.MovesOperand) (hn : n ≤ l.length)
    (hdeep : n ≤ (act locals l a).2.length) : (act locals l a).2.take n = l.take n := by
  have hpop : n ≤ (pop locals l).2.length → (pop locals l).2.take n = l.take n := by
    unfold pop
    split
    · intro hle
      rw [List.length_dropLast] at hle
      rw [List.dropLast_eq_take, List.take_take, Nat.min_eq_left hle]
    · exact fun _ => rfl
  cases a with
  | push v => exact List.take_append_of_le_length hn
  | pushRef r => exact List.take_append_of_le_length hn
  | pop => exact hpop hdeep
  | popRef => exact hpop hdeep
  | setLocal | setLocalRef | setPc | advance => cases ha

theorem take_run {acts : List Act} (hacts : ∀ a ∈ acts, a.MovesOperand)
    (hdeep : ∀ before, before <+: acts → n ≤ (run locals l before).2.length) :
    (run locals l acts).2.take n = l.take n := by
  induction acts generalizing l with
  | nil => rfl
  | cons a acts ih =>
    obtain ⟨ha, hacts⟩ := List.forall_mem_cons.mp hacts
    have hn : n ≤ l.length := hdeep [] List.nil_prefix
    have hn₁ : n ≤ (act locals l a).2.length := hdeep [a] (by simp)
    have hrest : (run locals (act locals l a).2 acts).2.take n = (act locals l a).2.take n := by
      apply ih hacts
      intro before hbefore
      exact hdeep (a :: before) (List.cons_prefix_cons.mpr ⟨rfl, hbefore⟩)
    exact hrest.trans (take_act ha hn hn₁)

end Cell

namespace Frame

variable {f g : Frame} {locals : Nat} {l : List Cell}

theorem Act.MovesOperand.inRange {a : Act} (ha : a.MovesOperand) (locals : Nat) : a.InRange locals := by
  cases a with
  | push | pushRef | pop | popRef => trivial
  | setLocal | setLocalRef | setPc | advance => cases ha

theorem keeps_pop (f : Frame) : f.pop.2.method = f.method ∧ f.pop.2.pc = f.pc := by
  unfold pop
  split <;> exact ⟨rfl, rfl⟩

theorem keeps_act {a : Act} (ha : a.MovesOperand) {reply : Reply} (h : f.act a = .ok (reply, g)) :
    g.method = f.method ∧ g.pc = f.pc := by
  cases a with
  | push | pushRef =>
    cases h
    exact ⟨rfl, rfl⟩
  | pop | popRef =>
    cases h
    exact f.keeps_pop
  | setLocal | setLocalRef | setPc | advance => cases ha

theorem keeps_run {acts : List Act} (hacts : ∀ a ∈ acts, a.MovesOperand) {replies : List Reply}
    (h : f.run acts = .ok (replies, g)) : g.method = f.method ∧ g.pc = f.pc := by
  induction acts generalizing f replies with
  | nil =>
    cases h
    exact ⟨rfl, rfl⟩
  | cons a acts ih =>
    obtain ⟨ha, hacts⟩ := List.forall_mem_cons.mp hacts
    obtain ⟨⟨reply, f₁⟩, h₁, h⟩ := bind_eq_ok.mp h
    obtain ⟨⟨rest, g'⟩, h₂, h⟩ := bind_eq_ok.mp h
    cases h
    obtain ⟨hmethod₁, hpc₁⟩ := keeps_act ha h₁
    obtain ⟨hmethod₂, hpc₂⟩ := ih hacts h₂
    exact ⟨hmethod₂.trans hmethod₁, hpc₂.trans hpc₁⟩

theorem Mirrors.excursion (h : f.Mirrors locals l) {acts : List Act} (hacts : f.Excursion acts) :
    ∃ replies g, f.run acts = .ok (replies, g) ∧ (g.operandDepth = f.operandDepth → g = f) := by
  have hrange : ∀ a ∈ acts, a.InRange locals := fun a ha => (hacts.operands a ha).inRange locals
  obtain ⟨g, hg, hmirrors⟩ := h.run hrange
  refine ⟨_, g, hg, fun hdepth => ?_⟩
  have hdeep : ∀ before, before <+: acts → l.length ≤ (Cell.run locals l before).2.length := by
    intro before hbefore
    obtain ⟨g', hg', hmirrors'⟩ := h.run fun a ha => hrange a (hbefore.subset ha)
    rw [h.refines.depth, hmirrors'.refines.depth]
    exact Nat.add_le_add_left (hacts.above before hbefore _ g' hg') locals
  have hlength : (Cell.run locals l acts).2.length = l.length := by
    rw [h.refines.depth, hmirrors.refines.depth, hdepth]
  have hback : (Cell.run locals l acts).2 = l := by
    have htake := Cell.take_run hacts.operands hdeep
    rwa [List.take_length, List.take_of_length_le (Nat.le_of_eq hlength)] at htake
  obtain ⟨hmethod, hpc⟩ := keeps_run hacts.operands hg
  refine eq_of_cells h.proper hmirrors.proper hmethod hpc (hmirrors.locals.trans h.locals.symm) ?_
  rw [hmirrors.cells, hback, h.cells]

/-- After any acts a frame shows the cells that the same acts make of locals that are all zero, has returned
what they return, and can push and pop without a trace. -/
theorem run_refines (method : MethodId) (locals : Nat) (acts : List Act)
    (hacts : ∀ a ∈ acts, a.InRange locals) :
    let r := Cell.run locals (List.replicate locals (0, false)) acts
    ∃ f, (fresh method locals).run acts = .ok (r.1, f) ∧ f.Refines locals r.2 ∧
      ∀ more, f.Excursion more →
        ∃ replies g, f.run more = .ok (replies, g) ∧ (g.operandDepth = f.operandDepth → g = f) := by
  intro r
  obtain ⟨f, hf, hmirrors⟩ := (mirrors_fresh method locals).run hacts
  exact ⟨f, hf, hmirrors.refines, fun _ hmore => hmirrors.excursion hmore⟩

theorem run_refines_reused :
    let acts := [Act.setLocalRef 0 ⟨9⟩, .pop, .pushRef ⟨3⟩, .setPc none, .popRef, .push 3,
      .pushRef ⟨-2⟩]
    let f : Frame := ⟨0, none, #[9, 3, -2], ⟨5⟩, 1⟩
    let more := [Act.push 1, .pushRef ⟨4⟩, .pop, .popRef]
    (∀ a ∈ acts, a.InRange 1) ∧
      (fresh 0 1).run acts =
        .ok ([.done, .word none, .done, .done, .ref (some ⟨3⟩), .done, .done], f) ∧
      f.Refines 1 [(9, true), (3, false), (-2, true)] ∧ f.Excursion more ∧
      ∃ replies g, f.run more = .ok (replies, g) ∧ (g.operandDepth = f.operandDepth → g = f) := by
  intro acts f more
  have hacts : ∀ a ∈ acts, a.InRange 1 := by simp [acts, Act.InRange]
  have hmore : f.Excursion more := by
    refine ⟨by simp [more, Act.MovesOperand], fun before hbefore replies g hg => ?_⟩
    rw [← List.mem_inits] at hbefore
    simp only [more, List.inits, List.map_cons, List.map_nil, List.mem_cons, List.not_mem_nil,
      or_false] at hbefore
    rcases hbefore with rfl | rfl | rfl | rfl | rfl <;> cases hg <;> decide
  obtain ⟨f', hf', hrefines, hback⟩ := run_refines 0 1 acts hacts
  obtain rfl : f' = f := by
    cases hf'
    rfl
  exact ⟨hacts, hf', hrefines, hmore, hback more hmore⟩

end Frame

end Interleave
