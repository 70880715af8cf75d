import Mathlib

/-! Ownership in a heap of blocks: a list of identities is separated when they are
distinct and live, and exact when they are all that is live. Allocation, update in place
and freeing keep what is owned separated, and the account exact. -/
namespace Separation

variable {β : Type*} {h : ℕ → Option β} {ids : List ℕ}

def Separated (h : ℕ → Option β) (ids : List ℕ) : Prop :=
  ids.Nodup ∧ ∀ b ∈ ids, (h b).isSome

lemma Separated.perm {ids' : List ℕ} (hs : Separated h ids) (hp : ids.Perm ids') :
    Separated h ids' :=
  ⟨hp.nodup_iff.mp hs.1, fun b hb => hs.2 b (hp.mem_iff.mpr hb)⟩

lemma Separated.sublist {ids' : List ℕ} (hs : Separated h ids) (hl : ids'.Sublist ids) :
    Separated h ids' :=
  ⟨hs.1.sublist hl, fun b hb => hs.2 b (hl.subset hb)⟩

lemma Separated.ne_of_dead {m : ℕ} (hs : Separated h ids) (hm : h m = none) : m ∉ ids := by
  intro hmem
  have hlive := hs.2 m hmem
  simp [hm] at hlive

lemma Separated.alloc {m : ℕ} (hs : Separated h ids) (hm : h m = none) (v : β) :
    Separated (Function.update h m (some v)) (m :: ids) := by
  have hnew := hs.ne_of_dead hm
  refine ⟨List.nodup_cons.mpr ⟨hnew, hs.1⟩, ?_⟩
  intro b hb
  rcases List.mem_cons.mp hb with rfl | hb
  · simp
  · have hne : b ≠ m := fun he => hnew (he ▸ hb)
    rw [Function.update_of_ne hne]
    exact hs.2 b hb

lemma Separated.update (hs : Separated h ids) (m : ℕ) (v : β) :
    Separated (Function.update h m (some v)) ids := by
  refine ⟨hs.1, fun b hb => ?_⟩
  rcases eq_or_ne b m with rfl | hne
  · simp
  · rw [Function.update_of_ne hne]
    exact hs.2 b hb

lemma Separated.free {m : ℕ} (hs : Separated h (m :: ids)) :
    Separated (Function.update h m none) ids := by
  obtain ⟨hnew, hnodup⟩ := List.nodup_cons.mp hs.1
  refine ⟨hnodup, fun b hb => ?_⟩
  have hne : b ≠ m := fun he => hnew (he ▸ hb)
  rw [Function.update_of_ne hne]
  exact hs.2 b (List.mem_cons_of_mem m hb)

/-- The listed blocks are distinct, and they are the live ones. -/
def Exact (h : ℕ → Option β) (ids : List ℕ) : Prop :=
  ids.Nodup ∧ ∀ b, (h b).isSome ↔ b ∈ ids

lemma Exact.separated (hs : Exact h ids) : Separated h ids := ⟨hs.1, fun b => (hs.2 b).mpr⟩

lemma Exact.perm {ids' : List ℕ} (hs : Exact h ids) (hp : ids.Perm ids') : Exact h ids' :=
  ⟨hp.nodup_iff.mp hs.1, fun b => (hs.2 b).trans hp.mem_iff⟩

/-- Only what is live counts. -/
lemma Exact.congr {h' : ℕ → Option β} (hs : Exact h ids) (hl : ∀ b, (h' b).isSome = (h b).isSome) :
    Exact h' ids :=
  ⟨hs.1, fun b => by rw [hl b]; exact hs.2 b⟩

lemma Exact.alloc {m : ℕ} (hs : Exact h ids) (hm : h m = none) (v : β) :
    Exact (Function.update h m (some v)) (m :: ids) := by
  refine ⟨(hs.separated.alloc hm v).1, fun b => ?_⟩
  rcases eq_or_ne b m with rfl | hne
  · simp
  · rw [Function.update_of_ne hne, hs.2 b, List.mem_cons, or_iff_right hne]

lemma Exact.free {m : ℕ} (hs : Exact h (m :: ids)) : Exact (Function.update h m none) ids := by
  refine ⟨hs.separated.free.1, fun b => ?_⟩
  rcases eq_or_ne b m with rfl | hne
  · simpa using (List.nodup_cons.mp hs.1).1
  · rw [Function.update_of_ne hne, hs.2 b, List.mem_cons, or_iff_right hne]

/-- Freeing the blocks of a list leaves the others. -/
lemma Exact.release {freed kept : List ℕ} {h' : ℕ → Option β} (hs : Exact h (freed ++ kept))
    (hfreed : ∀ b, h' b = if b ∈ freed then none else h b) : Exact h' kept := by
  obtain ⟨-, hkept, hapart⟩ := List.nodup_append.mp hs.1
  refine ⟨hkept, fun b => ?_⟩
  rw [hfreed]
  split_ifs with hb
  · simp only [Option.isSome_none, Bool.false_eq_true, false_iff]
    exact fun hmem => hapart b hb b hmem rfl
  · rw [hs.2, List.mem_append, or_iff_right hb]

/-- The live blocks are as many as the list names. -/
lemma Exact.ncard (hs : Exact h ids) : Set.ncard {b | (h b).isSome} = ids.length := by
  have hset : {b | (h b).isSome} = (ids.toFinset : Set ℕ) := by
    ext b
    simpa using hs.2 b
  rw [hset, Set.ncard_coe_finset, List.toFinset_card_of_nodup hs.1]

/-- There is always another block to allocate. -/
lemma Exact.exists_dead (hs : Exact h ids) (others : List ℕ) : ∃ m, h m = none ∧ m ∉ others := by
  obtain ⟨m, hm⟩ := Infinite.exists_notMem_finset (ids ++ others).toFinset
  rw [List.mem_toFinset, List.mem_append, not_or] at hm
  refine ⟨m, ?_, hm.2⟩
  rw [← Option.not_isSome_iff_eq_none, hs.2 m]
  exact hm.1

end Separation
