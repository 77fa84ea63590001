import Interleave.Proofs.Kernel.Naming
import Mathlib.Data.List.Forall2
import Mathlib.Data.List.Nodup
import Mathlib.Logic.Function.Basic

/-!
Many tallies over one id pool. Each of them counts along a path of its own, and counts are put back, also
those of another tally, whereas the pool only grows. Still a name tells exactly who created something,
where, and how often that had happened before on the path, whichever tally was asked and whatever was
asked in between.
-/

namespace Interleave

namespace IdPool

variable {p : IdPool} {key : IdKey}

theorem key?_eq_some_iff {gid : GlobalId} : p.key? gid = some key ↔ p.keys.toList[gid]? = some key := by
  unfold key?
  rw [Array.getElem?_toList]

theorem key?_inj (hp : p.keys.toList.Nodup) {i j : GlobalId} (hi : p.key? i = some key)
    (hj : p.key? j = some key) : i = j := by
  rw [key?_eq_some_iff] at hi hj
  apply (List.getElem?_inj (List.getElem?_eq_some_iff.mp hi).1 hp).mp
  rw [hi, hj]

theorem intern_cases (p : IdPool) (key : IdKey) :
    (p.intern key).2 = p ∨
      key ∉ p.keys.toList ∧ p.intern key = (p.size, ⟨p.keys.push key⟩) := by
  unfold intern
  split
  · exact .inl rfl
  · next hnone =>
    refine .inr ⟨?_, rfl⟩
    intro hmem
    rw [Array.findIdx?_eq_none_iff] at hnone
    simpa using hnone key (Array.mem_toList_iff.mp hmem)

theorem nodup_intern (hp : p.keys.toList.Nodup) (key : IdKey) : (p.intern key).2.keys.toList.Nodup := by
  rcases p.intern_cases key with h | ⟨hnew, h⟩
  · rwa [h]
  · rw [h, Array.toList_push, ← List.concat_eq_append]
    exact hp.concat hnew

theorem lt_size_intern {gid : GlobalId} (h : gid < (p.intern key).2.size) :
    gid < p.size ∨ gid = (p.intern key).1 := by
  rcases p.intern_cases key with heq | ⟨-, heq⟩
  · rw [heq] at h
    exact .inl h
  · rw [heq] at h ⊢
    have hle : gid < p.size + 1 := by simpa [size] using h
    exact Nat.lt_succ_iff_lt_or_eq.mp hle

theorem lt_size_of_key? {gid : GlobalId} (h : p.key? gid = some key) : gid < p.size := by
  rw [key?_eq_some_iff] at h
  exact (List.getElem?_eq_some_iff.mp h).1

end IdPool

theorem getElem?_of_forall₂ {α β : Type} {R : α → β → Prop} {l₁ : List α} {l₂ : List β}
    (h : List.Forall₂ R l₁ l₂) (i : Nat) : Option.Rel R l₁[i]? l₂[i]? := by
  induction h generalizing i with
  | nil => exact .none
  | cons hab _ ih =>
    cases i with
    | zero => exact .some hab
    | succ i => exact ih i

inductive NamingCall where
  | create (m : Nat) (thread : Option GlobalId) (site : Option Site)
  | nameClass (c : ClassId)
  | capture (m : Nat)
  | restore (m i : Nat)

/-- Tallies over one id pool, and the counts that have been captured. -/
structure Bureau where
  pool : IdPool := {}
  tallies : Nat → Tally := fun _ => {}
  captured : List (List (Origin × Nat)) := []

def Bureau.call (b : Bureau) : NamingCall → Option GlobalId × Bureau
  | .create m thread site =>
    let (gid, pool, tally) := (b.tallies m).next b.pool (.ofCreation thread site)
    (some gid, { b with pool, tallies := Function.update b.tallies m tally })
  | .nameClass c =>
    let (gid, pool) := b.pool.intern (.ofClass c)
    (some gid, { b with pool })
  | .capture m => (none, { b with captured := b.captured ++ [(b.tallies m).counts] })
  | .restore m i =>
    match b.captured[i]? with
    | none => (none, b)
    | some counts =>
      (none, { b with tallies := Function.update b.tallies m ((b.tallies m).restore counts) })

structure Diary where
  paths : Nat → List Origin := fun _ => []
  captured : List (List Origin) := []

namespace Diary

def note (d : Diary) : NamingCall → Diary
  | .create m thread site =>
    { d with paths := Function.update d.paths m (.ofCreation thread site :: d.paths m) }
  | .nameClass _ => d
  | .capture m => { d with captured := d.captured ++ [d.paths m] }
  | .restore m i =>
    match d.captured[i]? with
    | none => d
    | some path => { d with paths := Function.update d.paths m path }

/-- The key of the next creation of `o` on the path of tally `m`. -/
def nextKey (d : Diary) (m : Nat) (o : Origin) : IdKey := ⟨o, (d.paths m).count o + 1⟩

end Diary

inductive Issue where
  | creation (key : IdKey) (gid : GlobalId)
  | classObject (c : ClassId) (gid : GlobalId)
  deriving DecidableEq

namespace Issue

def key : Issue → IdKey
  | creation key _ => key
  | classObject c _ => .ofClass c

def gid : Issue → GlobalId
  | creation _ gid | classObject _ gid => gid

def ofCall? (d : Diary) : NamingCall → Option GlobalId → Option Issue
  | .create m thread site, some gid => some (creation (d.nextKey m (.ofCreation thread site)) gid)
  | .nameClass c, some gid => some (classObject c gid)
  | _, _ => none

end Issue

structure Ledger where
  bureau : Bureau := {}
  diary : Diary := {}
  issued : List Issue := []

namespace Ledger

def step (l : Ledger) (call : NamingCall) : Ledger where
  bureau := (l.bureau.call call).2
  diary := l.diary.note call
  issued := l.issued ++ (Issue.ofCall? l.diary call (l.bureau.call call).1).toList

def run (calls : List NamingCall) : Ledger := calls.foldl step {}

def CountsOf (counts : List (Origin × Nat)) (path : List Origin) : Prop :=
  ∀ o, (counts.lookup o).getD 0 = path.count o

structure Sound (l : Ledger) : Prop where
  paths : ∀ m, CountsOf (l.bureau.tallies m).counts (l.diary.paths m)
  captured : List.Forall₂ CountsOf l.bureau.captured l.diary.captured
  nodup : l.bureau.pool.keys.toList.Nodup
  keys : ∀ issue ∈ l.issued, l.bureau.pool.key? issue.gid = some issue.key
  dense : ∀ gid < l.bureau.pool.size, ∃ issue ∈ l.issued, issue.gid = gid
  counted : ∀ key gid, .creation key gid ∈ l.issued → 0 < key.count

namespace Sound

variable {l : Ledger}

theorem issue (hl : l.Sound) (issue : Issue)
    (hcounted : ∀ key gid, issue = .creation key gid → 0 < key.count)
    (hgid : issue.gid = (l.bureau.pool.intern issue.key).1) {l' : Ledger}
    (hpool : l'.bureau.pool = (l.bureau.pool.intern issue.key).2)
    (hissued : l'.issued = l.issued ++ [issue])
    (hpaths : ∀ m, CountsOf (l'.bureau.tallies m).counts (l'.diary.paths m))
    (hcaptured : l'.bureau.captured = l.bureau.captured)
    (hdiary : l'.diary.captured = l.diary.captured) : l'.Sound where
  paths := hpaths
  captured := by
    rw [hcaptured, hdiary]
    exact hl.captured
  nodup := by
    rw [hpool]
    exact IdPool.nodup_intern hl.nodup _
  keys := by
    intro i hi
    rw [hissued, List.mem_append, List.mem_singleton] at hi
    rw [hpool]
    rcases hi with hi | rfl
    · exact IdPool.key?_of_prefix (IdPool.prefix_intern _ _) (hl.keys i hi)
    · rw [hgid]
      exact IdPool.key?_intern _ _
  dense := by
    intro gid hlt
    rw [hpool] at hlt
    rw [hissued]
    rcases IdPool.lt_size_intern hlt with hlt | heq
    · obtain ⟨i, hi, hgid⟩ := hl.dense gid hlt
      exact ⟨i, List.mem_append_left _ hi, hgid⟩
    · exact ⟨issue, by simp, hgid.trans heq.symm⟩
  counted := by
    intro key gid hmem
    rw [hissued, List.mem_append, List.mem_singleton] at hmem
    rcases hmem with hmem | heq
    · exact hl.counted key gid hmem
    · exact hcounted key gid heq.symm

theorem key_bump (hl : l.Sound) (m : Nat) (o : Origin) :
    (⟨o, ((l.bureau.tallies m).bump o).count o⟩ : IdKey) = l.diary.nextKey m o := by
  rw [Tally.count_bump, if_pos rfl]
  unfold Diary.nextKey
  rw [← hl.paths m o, Tally.count]

theorem countsOf_bump {t : Tally} {path : List Origin} (h : CountsOf t.counts path) (o : Origin) :
    CountsOf (t.bump o).counts (o :: path) := by
  intro o'
  have hcount := Tally.count_bump t o o'
  unfold Tally.count at hcount
  rw [hcount, h o, h o', List.count_cons]
  by_cases ho : o' = o
  · simp [ho]
  · simp [ho, Ne.symm ho]

theorem create (hl : l.Sound) (m : Nat) (thread : Option GlobalId) (site : Option Site) :
    (l.step (.create m thread site)).Sound := by
  have hkey := hl.key_bump m (.ofCreation thread site)
  have hcall : l.bureau.call (.create m thread site) =
      (some (l.bureau.pool.intern (l.diary.nextKey m (.ofCreation thread site))).1,
        { l.bureau with
          pool := (l.bureau.pool.intern (l.diary.nextKey m (.ofCreation thread site))).2
          tallies := Function.update l.bureau.tallies m
            ((l.bureau.tallies m).bump (.ofCreation thread site)) }) := by
    unfold Bureau.call Tally.next
    dsimp only
    rw [hkey]
  unfold step
  rw [hcall]
  refine hl.issue (.creation (l.diary.nextKey m (.ofCreation thread site)) _) ?_ rfl rfl rfl ?_ rfl rfl
  · intro key gid heq
    cases heq
    exact Nat.succ_pos _
  · intro m'
    dsimp only [Diary.note]
    by_cases hm : m' = m
    · subst hm
      rw [Function.update_self, Function.update_self]
      exact countsOf_bump (hl.paths m') _
    · rw [Function.update_of_ne hm, Function.update_of_ne hm]
      exact hl.paths m'

theorem nameClass (hl : l.Sound) (c : ClassId) : (l.step (.nameClass c)).Sound :=
  hl.issue (.classObject c _) nofun rfl rfl rfl hl.paths rfl rfl

theorem still (hl : l.Sound) {tallies : Nat → Tally} {captured : List (List (Origin × Nat))} {d : Diary}
    (hpaths : ∀ m, CountsOf (tallies m).counts (d.paths m))
    (hcaptured : List.Forall₂ CountsOf captured d.captured) :
    Sound ⟨⟨l.bureau.pool, tallies, captured⟩, d, l.issued ++ []⟩ where
  paths := hpaths
  captured := hcaptured
  nodup := hl.nodup
  keys := by
    rw [List.append_nil]
    exact hl.keys
  dense := by
    rw [List.append_nil]
    exact hl.dense
  counted := by
    rw [List.append_nil]
    exact hl.counted

theorem capture (hl : l.Sound) (m : Nat) : (l.step (.capture m)).Sound :=
  hl.still hl.paths (List.rel_append hl.captured (.cons (hl.paths m) .nil))

theorem restore (hl : l.Sound) (m i : Nat) : (l.step (.restore m i)).Sound := by
  have hsame := getElem?_of_forall₂ hl.captured i
  unfold step Bureau.call Diary.note
  dsimp only
  generalize l.bureau.captured[i]? = counts at hsame
  generalize l.diary.captured[i]? = path at hsame
  cases hsame with
  | none => exact hl.still hl.paths hl.captured
  | some hcounts =>
    refine hl.still ?_ hl.captured
    intro m'
    dsimp only
    by_cases hm : m' = m
    · subst hm
      rw [Function.update_self, Function.update_self]
      exact hcounts
    · rw [Function.update_of_ne hm, Function.update_of_ne hm]
      exact hl.paths m'

theorem step (hl : l.Sound) (call : NamingCall) : (l.step call).Sound := by
  cases call with
  | create m thread site => exact hl.create m thread site
  | nameClass c => exact hl.nameClass c
  | capture m => exact hl.capture m
  | restore m i => exact hl.restore m i

theorem run (calls : List NamingCall) : (run calls).Sound := by
  have hfold : ∀ l : Ledger, l.Sound → (calls.foldl Ledger.step l).Sound := by
    induction calls with
    | nil => exact fun l hl => hl
    | cons call calls ih => exact fun l hl => ih _ (hl.step call)
  refine hfold {} ⟨fun _ _ => rfl, .nil, List.nodup_nil, nofun, ?_, nofun⟩
  intro gid hlt
  exact absurd hlt (Nat.not_lt_zero gid)

theorem gid_eq_iff (hl : l.Sound) {i j : Issue} (hi : i ∈ l.issued) (hj : j ∈ l.issued) :
    i.gid = j.gid ↔ i.key = j.key := by
  have hkey := hl.keys i hi
  have hkey' := hl.keys j hj
  constructor
  · intro heq
    rw [heq, hkey'] at hkey
    exact (Option.some.inj hkey).symm
  · intro heq
    rw [← heq] at hkey'
    exact IdPool.key?_inj hl.nodup hkey hkey'

end Sound

theorem run_concat (calls : List NamingCall) (call : NamingCall) :
    run (calls ++ [call]) = (run calls).step call :=
  List.foldl_concat step {} call calls

example :
    (run [.create 0 (some 1) (some ⟨7, 3⟩), .create 0 (some 2) (some ⟨7, 3⟩),
      .create 1 (some 2) (some ⟨7, 3⟩), .create 1 (some 1) (some ⟨7, 3⟩)]).issued.map Issue.gid =
    [0, 1, 1, 0] := by
  decide +kernel

end Ledger

end Interleave
