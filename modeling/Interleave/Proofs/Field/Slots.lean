import Interleave.Proofs.Kernel.Shape
import Mathlib.Data.List.Pairwise

/-!
Fields and their slots. The fields of a layout take up its slots one after the other, so that every slot
belongs to one field, and a value that is written to the slots of a field is read back from them and from no
others.
-/

namespace Interleave

namespace Layout

def Covers (p : Field × Nat) (i : Nat) : Prop := p.2 ≤ i ∧ i < p.2 + p.1.kind.width

instance (p : Field × Nat) (i : Nat) : Decidable (Covers p i) := inferInstanceAs (Decidable (_ ∧ _))

variable {l : Layout} {p q : Field × Nat}

theorem width_pos (kind : ValueKind) : 0 < kind.width := by
  cases kind <;> decide

theorem map_fst_go (offset : Nat) (fs : List Field) : (placed.go offset fs).map (·.1) = fs := by
  induction fs generalizing offset with
  | nil => rfl
  | cons f fs ih => rw [placed.go, List.map_cons, ih]

theorem le_of_mem_go {offset : Nat} {fs : List Field} (h : p ∈ placed.go offset fs) : offset ≤ p.2 := by
  induction fs generalizing offset with
  | nil => cases h
  | cons f fs ih =>
    rcases List.mem_cons.mp h with rfl | h
    · exact Nat.le_refl _
    · have hle := ih h
      omega

theorem pairwise_go (offset : Nat) (fs : List Field) :
    (placed.go offset fs).Pairwise fun p q => p.2 + p.1.kind.width ≤ q.2 := by
  induction fs generalizing offset with
  | nil => exact .nil
  | cons f fs ih =>
    apply List.Pairwise.cons
    · intro q hq
      exact le_of_mem_go hq
    · exact ih _

theorem getElem?_flatMap_go (offset : Nat) (fs : List Field) (i : Nat) (b : Bool) :
    (fs.flatMap fun f => List.replicate f.kind.width f.kind.isReference)[i]? = some b ↔
      ∃ p ∈ placed.go offset fs, Covers p (offset + i) ∧ p.1.kind.isReference = b := by
  induction fs generalizing offset i with
  | nil => simp [placed.go]
  | cons f fs ih =>
    rw [List.flatMap_cons, List.getElem?_append, List.length_replicate, placed.go]
    split
    · next hi =>
      rw [List.getElem?_replicate, if_pos hi, Option.some.injEq]
      constructor
      · intro hb
        exact ⟨(f, offset), List.mem_cons_self, ⟨Nat.le_add_right _ _, Nat.add_lt_add_left hi _⟩, hb⟩
      · rintro ⟨p, hp, hcovers, hb⟩
        rcases List.mem_cons.mp hp with rfl | hp
        · exact hb
        · have hle := le_of_mem_go hp
          have := hcovers.1
          omega
    · next hi =>
      rw [ih (offset + f.kind.width), show offset + f.kind.width + (i - f.kind.width) = offset + i by omega]
      constructor
      · rintro ⟨p, hp, hrest⟩
        exact ⟨p, List.mem_cons_of_mem _ hp, hrest⟩
      · rintro ⟨p, hp, hcovers, hb⟩
        rcases List.mem_cons.mp hp with rfl | hp
        · have hlt := hcovers.2
          dsimp only at hlt
          omega
        · exact ⟨p, hp, hcovers, hb⟩

theorem getElem?_refMask_iff {i : Nat} {b : Bool} :
    l.refMask[i]? = some b ↔ ∃ p ∈ l.placed, Covers p i ∧ p.1.kind.isReference = b := by
  have h := getElem?_flatMap_go 0 l.fields i b
  rw [Nat.zero_add] at h
  exact h

def Apart (p q : Field × Nat) : Prop := p.2 + p.1.kind.width ≤ q.2 ∨ q.2 + q.1.kind.width ≤ p.2

instance : Std.Symm Apart := ⟨fun _ _ => Or.symm⟩

theorem apart_of_ne (hp : p ∈ l.placed) (hq : q ∈ l.placed) (hne : p ≠ q) : Apart p q := by
  have hpairwise : l.placed.Pairwise Apart := (pairwise_go 0 l.fields).imp Or.inl
  exact hpairwise.forall hp hq hne

theorem exists_mem_placed {f : Field} (hf : f ∈ l.fields) : ∃ offset, (f, offset) ∈ l.placed := by
  rw [← map_fst_go 0 l.fields] at hf
  obtain ⟨⟨_, offset⟩, hp, rfl⟩ := List.mem_map.mp hf
  exact ⟨offset, hp⟩

theorem lookup?_of_mem (hnames : (l.fields.map (·.name)).Nodup) (hp : p ∈ l.placed) :
    l.lookup? p.1.name = some (p.2, p.1.kind) := by
  have hfind : ∀ (offset : Nat) (fs : List Field), (fs.map (·.name)).Nodup → p ∈ placed.go offset fs →
      (placed.go offset fs).find? (·.1.name == p.1.name) = some p := by
    intro offset fs hfs hp
    induction fs generalizing offset with
    | nil => cases hp
    | cons f fs ih =>
      rw [List.map_cons, List.nodup_cons] at hfs
      rw [placed.go] at hp ⊢
      rcases List.mem_cons.mp hp with rfl | hp
      · exact List.find?_cons_of_pos (by simp)
      · rw [List.find?_cons_of_neg]
        · exact ih _ hfs.2 hp
        · intro heq
          apply hfs.1
          rw [beq_iff_eq.mp heq]
          apply List.mem_map_of_mem
          rw [← map_fst_go (offset + f.kind.width) fs]
          exact List.mem_map_of_mem hp
  unfold lookup?
  rw [placed, hfind 0 l.fields hnames hp]
  rfl

end Layout

def SlotValue.IsOf : SlotValue → ValueKind → Prop
  | .int _, kind => kind.width = 1 ∧ kind ≠ .reference
  | .long _, kind => kind.width = 2
  | .ref _, kind => kind = .reference

instance (v : SlotValue) (kind : ValueKind) : Decidable (v.IsOf kind) := by
  cases v
  · exact inferInstanceAs (Decidable (_ ∧ _))
  · exact inferInstanceAs (Decidable (_ = _))
  · exact inferInstanceAs (Decidable (_ = _))

def ValueKind.read (kind : ValueKind) (fs : Fields) (i : Nat) : Except Fault SlotValue :=
  match kind with
  | .long | .double => return .long (← fs.getLong i)
  | .reference => return .ref (← fs.getRef i)
  | _ => return .int (← fs.getInt i)

namespace Fields

variable {fs fs' : Fields} {i j : Nat} {v : SlotValue} {kind : ValueKind}

theorem getInt_congr (h : fs'.values[i]? = fs.values[i]?) : fs'.getInt i = fs.getInt i := by
  unfold getInt
  rw [h]

theorem getInt_ok (fs : Fields) (i : Nat) (hi : i < fs.size) : ∃ v, fs.getInt i = .ok v := by
  unfold getInt
  rw [Array.getElem?_eq_getElem hi]
  exact ⟨_, rfl⟩

theorem setInt_spec (fs : Fields) (i : Nat) (hi : i < fs.size) (v : Int32) :
    ∃ fs', fs.setInt i v = .ok fs' ∧ (fs'.size = fs.size ∧ fs'.refs = fs.refs) ∧ fs'.getInt i = .ok v ∧
      ∀ j, j ≠ i → fs'.values[j]? = fs.values[j]? := by
  refine ⟨_, if_pos hi, ⟨Array.size_setIfInBounds, rfl⟩, ?_, ?_⟩
  · unfold getInt
    rw [Array.getElem?_setIfInBounds, if_pos rfl, if_pos (show i < fs.values.size from hi)]
    rfl
  · intro j hj
    rw [Array.getElem?_setIfInBounds, if_neg hj.symm]

theorem ofBitVec_append (v : Int64) :
    Int64.ofBitVec (v.toBitVec.extractLsb' 32 32 ++ v.toBitVec.extractLsb' 0 32) = v := by
  apply Int64.toBitVec_inj.mp
  rw [BitVec.extractLsb'_append_extractLsb'_eq_extractLsb' (by rfl)]
  exact BitVec.extractLsb'_eq_self

theorem setLong_spec (fs : Fields) (i : Nat) (hi : i + 1 < fs.size) (v : Int64) :
    ∃ fs', fs.setLong i v = .ok fs' ∧ fs'.getLong i = .ok v ∧
      ∀ j, j ≠ i → j ≠ i + 1 → fs'.values[j]? = fs.values[j]? := by
  obtain ⟨fs₁, h₁, ⟨hsize, -⟩, hhigh, hrest₁⟩ := setInt_spec fs i (by omega)
    (.ofBitVec (v.toBitVec.extractLsb' 32 32))
  obtain ⟨fs₂, h₂, -, hlow, hrest₂⟩ := setInt_spec fs₁ (i + 1) (by omega)
    (.ofBitVec (v.toBitVec.extractLsb' 0 32))
  refine ⟨fs₂, bind_eq_ok.mpr ⟨fs₁, h₁, h₂⟩, ?_, ?_⟩
  · unfold getLong
    rw [getInt_congr (hrest₂ i (by omega)), hhigh, ok_bind, hlow, ok_bind]
    exact congrArg Except.ok (ofBitVec_append v)
  · intro j hj hj'
    rw [hrest₂ j hj', hrest₁ j hj]

theorem read_congr (h : ∀ j, i ≤ j → j < i + kind.width → fs'.values[j]? = fs.values[j]?) :
    kind.read fs' i = kind.read fs i := by
  have hfirst := getInt_congr (h i (Nat.le_refl i) (Nat.lt_add_of_pos_right (Layout.width_pos kind)))
  cases kind with
  | long | double =>
    have hsecond := getInt_congr (h (i + 1) (Nat.le_succ i) (Nat.lt_succ_self _))
    simp only [ValueKind.read, getLong, hfirst, hsecond]
  | _ => simp only [ValueKind.read, getRef, hfirst]

theorem read_ok (hi : i + kind.width ≤ fs.size) : ∃ v, kind.read fs i = .ok v := by
  have hpos := Layout.width_pos kind
  obtain ⟨high, hhigh⟩ := getInt_ok fs i (by omega)
  cases kind with
  | long | double =>
    obtain ⟨low, hlow⟩ := getInt_ok fs (i + 1) (Nat.lt_of_succ_le hi)
    exact ⟨_, bind_eq_ok.mpr ⟨_, bind_eq_ok.mpr ⟨high, hhigh, bind_eq_ok.mpr ⟨low, hlow, rfl⟩⟩, rfl⟩⟩
  | reference => exact ⟨_, bind_eq_ok.mpr ⟨_, bind_eq_ok.mpr ⟨high, hhigh, rfl⟩, rfl⟩⟩
  | _ => exact ⟨_, bind_eq_ok.mpr ⟨high, hhigh, rfl⟩⟩

theorem write_spec (hv : v.IsOf kind) (hi : i + kind.width ≤ fs.size) :
    ∃ fs', v.write fs i = .ok fs' ∧ kind.read fs' i = .ok v ∧
      ∀ j, j < i ∨ i + kind.width ≤ j → fs'.values[j]? = fs.values[j]? := by
  have hpos := Layout.width_pos kind
  cases v with
  | int v =>
    obtain ⟨fs', hfs', -, hread, hrest⟩ := setInt_spec fs i (by omega) v
    refine ⟨fs', hfs', ?_, fun j hj => hrest j (by omega)⟩
    cases kind with
    | long | double => exact absurd hv.1 (by decide)
    | reference => exact absurd rfl hv.2
    | _ => exact bind_eq_ok.mpr ⟨v, hread, rfl⟩
  | ref r =>
    obtain rfl : kind = .reference := hv
    obtain ⟨fs', hfs', -, hread, hrest⟩ := setInt_spec fs i (by omega) r.slot
    exact ⟨fs', hfs', bind_eq_ok.mpr ⟨r, bind_eq_ok.mpr ⟨r.slot, hread, rfl⟩, rfl⟩,
      fun j hj => hrest j (by omega)⟩
  | long v =>
    have hwidth : kind.width = 2 := hv
    obtain ⟨fs', hfs', hread, hrest⟩ := setLong_spec fs i (by omega) v
    refine ⟨fs', hfs', ?_, fun j hj => hrest j (by omega) (by omega)⟩
    cases kind with
    | long | double => exact bind_eq_ok.mpr ⟨v, hread, rfl⟩
    | _ => cases hwidth

def Fits (fs : Fields) (l : Layout) : Prop := fs.marks = l.refMask

namespace Fits

variable {l : Layout} {p q : Field × Nat}

theorem lt_size_iff (h : fs.Fits l) : i < fs.size ↔ ∃ p ∈ l.placed, Layout.Covers p i := by
  have hlength : i < fs.size ↔ ∃ b, l.refMask[i]? = some b := by
    rw [← h, marks_eq, ← Option.isSome_iff_exists]
    simp
  rw [hlength]
  constructor
  · rintro ⟨b, hb⟩
    obtain ⟨p, hp, hcovers, -⟩ := Layout.getElem?_refMask_iff.mp hb
    exact ⟨p, hp, hcovers⟩
  · rintro ⟨p, hp, hcovers⟩
    exact ⟨_, Layout.getElem?_refMask_iff.mpr ⟨p, hp, hcovers, rfl⟩⟩

theorem isReference_iff (h : fs.Fits l) (hi : i < fs.size) :
    fs.isReference i = true ↔ ∃ p ∈ l.placed, p.1.kind = .reference ∧ Layout.Covers p i := by
  have hmark : l.refMask[i]? = some (fs.isReference i) := by
    rw [← h, marks_eq, List.getElem?_map, List.getElem?_range hi]
    rfl
  have hkind : ∀ kind : ValueKind, kind.isReference = true ↔ kind = .reference := by
    intro kind
    cases kind <;> decide
  constructor
  · intro href
    rw [href] at hmark
    obtain ⟨p, hp, hcovers, hp'⟩ := Layout.getElem?_refMask_iff.mp hmark
    exact ⟨p, hp, (hkind _).mp hp', hcovers⟩
  · rintro ⟨p, hp, hp', hcovers⟩
    have hfield := Layout.getElem?_refMask_iff.mpr ⟨p, hp, hcovers, (hkind _).mpr hp'⟩
    exact Option.some.inj (hmark.symm.trans hfield)

theorem le_size (h : fs.Fits l) (hp : p ∈ l.placed) : p.2 + p.1.kind.width ≤ fs.size := by
  have hpos := Layout.width_pos p.1.kind
  have hlast := h.lt_size_iff.mpr ⟨p, hp, show Layout.Covers p (p.2 + p.1.kind.width - 1) from ⟨by omega, by omega⟩⟩
  omega

theorem write (h : fs.Fits l) (hp : p ∈ l.placed) (hv : v.IsOf p.1.kind) :
    ∃ fs', v.write fs p.2 = .ok fs' ∧ fs'.Fits l ∧ p.1.kind.read fs' p.2 = .ok v ∧
      ∀ q ∈ l.placed, q ≠ p → q.1.kind.read fs' q.2 = q.1.kind.read fs q.2 := by
  obtain ⟨fs', hfs', hread, hrest⟩ := write_spec hv (h.le_size hp)
  refine ⟨fs', hfs', (marks_write hfs').trans h, hread, ?_⟩
  intro q hq hne
  apply read_congr
  intro j hj hj'
  apply hrest
  rcases Layout.apart_of_ne hq hp hne with hle | hle <;> omega

end Fits

end Fields

end Interleave
