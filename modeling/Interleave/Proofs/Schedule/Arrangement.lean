import Interleave.Proofs.Monitor.Ending
import Mathlib.Data.List.Perm.Basic

/-!
What a policy makes of the candidates. Every policy keeps all of them and only puts them into another order,
except for the one that goes by priority, which keeps the order and drops all but the foremost.
-/

namespace Interleave

def Roster.Numbered (r : Roster) : Prop := ∀ t info, r.get? t = some info → info.id = t

structure Enumerates (p : ThreadId → Prop) (l : List ThreadId) : Prop where
  ascending : l.Pairwise (· < ·)
  mem_iff : ∀ t, t ∈ l ↔ p t

namespace Enumerates

variable {p q : ThreadId → Prop} {l : List ThreadId}

theorem nodup (h : Enumerates p l) : l.Nodup := h.ascending.imp Nat.ne_of_lt

theorem congr (h : Enumerates p l) (hpq : ∀ t, p t ↔ q t) : Enumerates q l :=
  ⟨h.ascending, fun t => (h.mem_iff t).trans (hpq t)⟩

theorem filter (h : Enumerates p l) {f : ThreadId → Bool} (hf : ∀ t, p t → (f t = true ↔ q t)) :
    Enumerates (fun t => p t ∧ q t) (l.filter f) := by
  refine ⟨h.ascending.filter f, fun t => ?_⟩
  rw [List.mem_filter, h.mem_iff]
  exact and_congr_right (hf t)

end Enumerates

namespace Roster

variable {r : Roster}

theorem Numbered.map_id (hr : r.Numbered) : r.toList.map (·.id) = List.range r.size := by
  apply List.ext_getElem
  · simp [toList, size]
  · intro i hi _
    rw [List.getElem_map, List.getElem_range]
    refine hr i _ ?_
    rw [List.length_map] at hi
    exact Array.getElem?_eq_getElem hi

theorem runnableWithout_eq (r : Roster) (t : ThreadId) : r.runnableWithout t = r.runnable.filter (· != t) := by
  unfold runnableWithout runnable
  rw [List.filter_map, List.filter_filter]
  congr 2
  funext info
  exact Bool.and_comm _ _

theorem length_runnable (r : Roster) : r.runnable.length = r.runnableCount := by
  unfold runnable runnableCount
  rw [List.length_map, List.countP_eq_length_filter]

def Leads (r : Roster) (eligible : ThreadId → Prop) (t : ThreadId) : Prop :=
  ∃ info, r.get? t = some info ∧
    ∀ u other, eligible u → r.get? u = some other → other.priority ≤ info.priority

end Roster

namespace Kernel

variable {k : Kernel}

theorem enumerates_runnable (hk : k.threads.Numbered) : Enumerates k.CanRun k.threads.runnable := by
  constructor
  · have hsub : k.threads.runnable.Sublist (k.threads.toList.map (·.id)) :=
      List.filter_sublist.map _
    rw [hk.map_id] at hsub
    exact List.pairwise_lt_range.sublist hsub
  · intro t
    rw [Roster.mem_runnable]
    constructor
    · rintro ⟨info, hinfo, hrun, rfl⟩
      obtain ⟨i, hi⟩ := List.getElem?_of_mem hinfo
      have hget : k.threads.get? i = some info := by
        rw [← hi]
        exact Array.getElem?_toList.symm
      rw [hk i info hget]
      exact ⟨info, hget, hrun⟩
    · rintro ⟨info, hget, hrun⟩
      exact ⟨info, Roster.mem_toList_of_get? hget, hrun, hk t info hget⟩

theorem enumerates_runnableWithout (hk : k.threads.Numbered) (t : ThreadId) :
    Enumerates (fun u => k.CanRun u ∧ u ≠ t) (k.threads.runnableWithout t) := by
  rw [Roster.runnableWithout_eq]
  exact (enumerates_runnable hk).filter fun u _ => bne_iff_ne

end Kernel

namespace Policy

/-- What the policy is to make of the eligible threads, if `current` gives rise to the decision: all of them in
increasing order, those after the current thread first, those of the highest priority, or all of them in some
order. -/
def Arranges (p : Policy) (r : Roster) (current : Option ThreadId) (eligible : ThreadId → Prop)
    (l : List ThreadId) : Prop :=
  match p.kind with
  | .inOrder => Enumerates eligible l
  | .roundRobin => ∃ after rest, l = after ++ rest ∧
    Enumerates (fun t => eligible t ∧ ∀ u ∈ current, u < t) after ∧
    Enumerates (fun t => eligible t ∧ ¬ ∀ u ∈ current, u < t) rest
  | .priority => Enumerates (fun t => eligible t ∧ r.Leads eligible t) l
  | .randomized => ∃ sorted, Enumerates eligible sorted ∧ l.Perm sorted

variable {k : Kernel} {current : Option ThreadId} {eligible : ThreadId → Prop} {l : List ThreadId}

theorem Arranges.nodup {p : Policy} {r : Roster} (h : p.Arranges r current eligible l) : l.Nodup := by
  unfold Arranges at h
  split at h
  · exact h.nodup
  · obtain ⟨after, rest, rfl, hafter, hrest⟩ := h
    refine List.nodup_append.mpr ⟨hafter.nodup, hrest.nodup, ?_⟩
    rintro t ht u hu rfl
    exact ((hrest.mem_iff t).mp hu).2 ((hafter.mem_iff t).mp ht).2
  · exact h.nodup
  · obtain ⟨sorted, hsorted, hperm⟩ := h
    exact hperm.nodup_iff.mpr hsorted.nodup

theorem take_drop_findIdx {f : ThreadId → Bool} (h : l.Pairwise fun a b => f a = true → f b = true) :
    l.take (l.findIdx f) = l.filter (!f ·) ∧ l.drop (l.findIdx f) = l.filter f := by
  induction l with
  | nil => exact ⟨rfl, rfl⟩
  | cons a l ih =>
    obtain ⟨ha, hl⟩ := List.pairwise_cons.mp h
    cases hfa : f a with
    | true =>
      have hall : ∀ b ∈ a :: l, f b = true := List.forall_mem_cons.mpr ⟨hfa, fun b hb => ha b hb hfa⟩
      rw [List.findIdx_cons, hfa, List.filter_eq_self.mpr hall, List.filter_eq_nil_iff.mpr]
      · exact ⟨rfl, rfl⟩
      · intro b hb
        simp [hall b hb]
    | false =>
      obtain ⟨htake, hdrop⟩ := ih hl
      rw [List.findIdx_cons, hfa]
      simp [htake, hdrop, hfa]

theorem rotate_some (h : l.Pairwise (· < ·)) (t : ThreadId) :
    rotate (some t) l = l.filter (t < ·) ++ l.filter fun u => !decide (t < u) := by
  have hup : l.Pairwise fun a b => decide (t < a) = true → decide (t < b) = true := by
    refine h.imp fun hab hta => ?_
    rw [decide_eq_true_eq] at hta ⊢
    exact Nat.lt_trans hta hab
  obtain ⟨htake, hdrop⟩ := take_drop_findIdx hup
  unfold rotate
  dsimp only
  split
  · next hnone =>
    rw [List.findIdx?_eq_none_iff] at hnone
    rw [List.filter_eq_nil_iff.mpr, List.nil_append, List.filter_eq_self.mpr]
    · intro u hu
      rw [hnone u hu]
      rfl
    · intro u hu
      rw [hnone u hu]
      exact Bool.false_ne_true
  · next split hsome =>
    rw [List.findIdx_eq_getD_findIdx?, hsome, Option.getD_some] at htake hdrop
    rw [htake, hdrop]

def rank (k : Kernel) (t : ThreadId) : Int32 := ((k.threads.get? t).map (·.priority)).getD 0

theorem mapM_rank (h : ∀ t ∈ l, (k.threads.get? t).isSome = true) :
    l.mapM (fun t => do return (t, (← k.threads.get t).priority)) = .ok (l.map fun t => (t, rank k t)) := by
  induction l with
  | nil => rfl
  | cons t l ih =>
    obtain ⟨ht, hl⟩ := List.forall_mem_cons.mp h
    obtain ⟨info, hinfo⟩ := Option.isSome_iff_exists.mp ht
    have hrank : rank k t = info.priority := by
      unfold rank
      rw [hinfo]
      rfl
    rw [List.mapM_cons, ih hl, Kernel.get_eq_ok.mpr hinfo, List.map_cons, hrank]
    rfl

theorem exists_max_rank (k : Kernel) (hl : l ≠ []) :
    ∃ top, (l.map (rank k)).max? = some top ∧ (∃ t ∈ l, rank k t = top) ∧ ∀ t ∈ l, rank k t ≤ top := by
  have hmax : Std.LawfulOrderMax Int32 := {
    max_eq_or := by
      intro a b
      change (if a ≤ b then b else a) = a ∨ (if a ≤ b then b else a) = b
      split <;> simp
    max_le_iff := by
      intro a b c
      change (if a ≤ b then b else a) ≤ c ↔ a ≤ c ∧ b ≤ c
      split <;> grind }
  cases htop : (l.map (rank k)).max? with
  | none =>
    rw [List.max?_eq_none_iff, List.map_eq_nil_iff] at htop
    exact absurd htop hl
  | some top =>
    obtain ⟨hmem, hle⟩ := List.max?_eq_some_iff.mp htop
    exact ⟨top, rfl, List.mem_map.mp hmem, fun t ht => hle _ (List.mem_map_of_mem ht)⟩

theorem foremost_eq (h : ∀ t ∈ l, (k.threads.get? t).isSome = true) :
    foremost k l = .ok (l.filter fun t => l.all fun u => rank k u ≤ rank k t) := by
  unfold foremost
  rw [mapM_rank h, ok_bind, List.map_map]
  by_cases hl : l = []
  · subst hl
    rfl
  · obtain ⟨top, htop, ⟨t, ht, hrank⟩, hle⟩ := exists_max_rank k hl
    have hfiltered : l.filter (fun t => rank k t == top) =
        l.filter fun t => l.all fun u => rank k u ≤ rank k t := by
      refine List.filter_congr fun u hu => ?_
      rw [Bool.eq_iff_iff, beq_iff_eq, List.all_eq_true]
      simp only [decide_eq_true_eq]
      constructor
      · intro hu v hv
        rw [hu]
        exact hle v hv
      · intro hall
        have hup := hall t ht
        rw [hrank] at hup
        exact Int32.le_antisymm (hle u hu) hup
    have hmap : l.map ((·.2) ∘ fun t => (t, rank k t)) = l.map (rank k) := rfl
    rw [hmap, htop]
    dsimp only
    rw [List.filter_map, List.map_map]
    exact congrArg Except.ok ((List.map_id _).trans hfiltered)

theorem foremost_ne_nil (hl : l ≠ []) : (l.filter fun t => l.all fun u => rank k u ≤ rank k t) ≠ [] := by
  obtain ⟨top, -, ⟨t, ht, rfl⟩, hle⟩ := exists_max_rank k hl
  refine List.ne_nil_of_mem (List.mem_filter.mpr ⟨ht, ?_⟩)
  simpa using hle

theorem all_rank_le_iff (hl : Enumerates eligible l) (hknown : ∀ t ∈ l, (k.threads.get? t).isSome = true)
    {t : ThreadId} (ht : eligible t) :
    (l.all fun u => rank k u ≤ rank k t) = true ↔ k.threads.Leads eligible t := by
  obtain ⟨info, hinfo⟩ := Option.isSome_iff_exists.mp (hknown t ((hl.mem_iff t).mpr ht))
  have hrank : ∀ u other, k.threads.get? u = some other → rank k u = other.priority := by
    intro u other hother
    unfold rank
    rw [hother]
    rfl
  rw [List.all_eq_true]
  constructor
  · intro hall
    refine ⟨info, hinfo, fun u other hu hother => ?_⟩
    have hle := of_decide_eq_true (hall u ((hl.mem_iff u).mpr hu))
    rwa [hrank u other hother, hrank t info hinfo] at hle
  · rintro ⟨info', hinfo', hleads⟩ u hu
    obtain ⟨other, hother⟩ := Option.isSome_iff_exists.mp (hknown u hu)
    rw [decide_eq_true_eq, hrank u other hother, hrank t info' hinfo']
    exact hleads u other ((hl.mem_iff u).mp hu) hother

theorem filter_arranges (p : Policy) (d : Dice) (current : Option ThreadId) (hl : Enumerates eligible l)
    (hknown : ∀ t ∈ l, (k.threads.get? t).isSome = true) :
    ∃ l' d', p.filter k d current l = .ok (l', d') ∧ p.Arranges k.threads current eligible l' ∧
      (l' = [] → l = []) ∧ (p.kind ≠ .priority → l'.Perm l) := by
  have hnil : ∀ l', l'.Perm l → l' = [] → l = [] := by
    rintro _ hperm rfl
    exact hperm.nil_eq.symm
  unfold filter Arranges
  cases p.kind with
  | inOrder => exact ⟨l, d, rfl, hl, id, fun _ => .refl l⟩
  | roundRobin =>
    cases current with
    | none =>
      -- without a current thread everybody comes after it
      refine ⟨l, d, rfl, ⟨l, [], (List.append_nil l).symm, ?_, ?_⟩, id, fun _ => .refl l⟩
      · exact hl.congr fun t => by simp
      · exact ⟨.nil, fun t => by simp⟩
    | some t =>
      have hperm := List.filter_append_perm (fun u => decide (t < u)) l
      refine ⟨_, d, rfl, ?_⟩
      rw [rotate_some hl.ascending]
      refine ⟨⟨_, _, rfl, ?_, ?_⟩, hnil _ hperm, fun _ => hperm⟩
      · exact hl.filter fun u _ => by simp
      · exact hl.filter fun u _ => by simp
  | priority =>
    dsimp only
    rw [foremost_eq hknown, ok_bind]
    refine ⟨_, d, rfl, ?_, ?_, fun h => absurd rfl h⟩
    · exact hl.filter fun t ht => all_rank_le_iff hl hknown ht
    · exact not_imp_not.mp foremost_ne_nil
  | randomized =>
    have hperm := d.shuffler.perm d.state l
    exact ⟨_, _, rfl, ⟨l, hl, hperm⟩, hnil _ hperm, fun _ => hperm⟩

end Policy

end Interleave
