import Mathlib.Algebra.Group.Pi.Basic
import Mathlib.Algebra.Order.BigOperators.Group.List

/-!
# Clients and their counts

A server has a list of all clients and a second one of those that are not yet
users.  `Listed` says that the lists are in order, and `total` is what the clients
of a list have together.

A table has an entry for every key whose count is not zero.  What it holds is a
function from keys to counts, which decides the lookups up to what the entries have
besides their counts (`Holds`).  A count is changed by `Holds.set`, whether this
makes an entry, changes it or takes it out.
-/

namespace UnrealIrcd.Support

open List

universe u v w

variable {ι : Type u} {C : Type v} {G : Type w}

/-! ## The lists -/

/-- No client is listed twice, and the second list is part of the first. -/
structure Listed (all unknown : List ι) : Prop where
  nodup : all.Nodup
  unknown_nodup : unknown.Nodup
  subset : unknown ⊆ all

namespace Listed

variable {all unknown : List ι} {id : ι}

theorem nil : Listed ([] : List ι) [] :=
  ⟨nodup_nil, nodup_nil, fun _ h => h⟩

theorem introduce (h : Listed all unknown) (hid : id ∉ all) :
    Listed (id :: all) unknown :=
  ⟨nodup_cons.mpr ⟨hid, h.nodup⟩, h.unknown_nodup,
    fun _ hx => mem_cons_of_mem id (h.subset hx)⟩

theorem connect (h : Listed all unknown) (hid : id ∉ all) :
    Listed (id :: all) (id :: unknown) :=
  ⟨nodup_cons.mpr ⟨hid, h.nodup⟩,
    nodup_cons.mpr ⟨fun hx => hid (h.subset hx), h.unknown_nodup⟩,
    cons_subset_cons id h.subset⟩

variable [DecidableEq ι]

theorem register (h : Listed all unknown) (id : ι) :
    Listed all (unknown.erase id) :=
  ⟨h.nodup, h.unknown_nodup.erase id,
    fun _ hx => h.subset (mem_of_mem_erase hx)⟩

theorem exit (h : Listed all unknown) (id : ι) :
    Listed (all.erase id) (unknown.erase id) where
  nodup := h.nodup.erase id
  unknown_nodup := h.unknown_nodup.erase id
  subset := by
    intro x hx
    have hne : x ≠ id := fun heq => h.unknown_nodup.not_mem_erase (heq ▸ hx)
    exact (mem_erase_of_ne hne).mpr (h.subset (mem_of_mem_erase hx))

end Listed

/-! ## Totals -/

section Total

variable [AddCommMonoid G] {share : C → G} {clients : ι → C} {ids : List ι}
  {id : ι}

def total (share : C → G) (clients : ι → C) (ids : List ι) : G :=
  (ids.map fun id => share (clients id)).sum

@[simp] theorem total_cons :
    total share clients (id :: ids) =
      share (clients id) + total share clients ids := by
  simp [total]

theorem total_singleton (id : ι) :
    total share clients [id] = share (clients id) :=
  sum_singleton

section Nonneg

variable [PartialOrder G] [IsOrderedAddMonoid G] (h : ∀ c, 0 ≤ share c)

include h

theorem total_nonneg : 0 ≤ total share clients ids :=
  sum_nonneg (forall_mem_map.mpr fun id _ => h (clients id))

theorem total_eq_zero_iff :
    total share clients ids = 0 ↔ ∀ id ∈ ids, share (clients id) = 0 := by
  constructor
  · intro hzero id hid
    exact all_zero_of_le_zero_le_of_sum_eq_zero
      (forall_mem_map.mpr fun id _ => h (clients id)) hzero
      (mem_map_of_mem hid)
  · exact fun hnone => sum_eq_zero (forall_mem_map.mpr hnone)

end Nonneg

variable [DecidableEq ι]

theorem total_erase (hid : id ∈ ids) :
    total share clients ids =
      share (clients id) + total share clients (ids.erase id) := by
  rw [← total_cons]
  exact ((perm_cons_erase hid).map _).sum_eq

theorem total_update_of_not_mem (hid : id ∉ ids) (c : C) :
    total share (Function.update clients id c) ids =
      total share clients ids := by
  unfold total
  congr 1
  apply map_congr_left
  intro x hx
  rw [Function.update_of_ne]
  exact fun heq => hid (heq ▸ hx)

theorem total_update (hnodup : ids.Nodup) (hid : id ∈ ids) (c : C) :
    total share (Function.update clients id c) ids =
      share c + total share clients (ids.erase id) := by
  rw [total_erase hid, Function.update_self,
    total_update_of_not_mem hnodup.not_mem_erase]

theorem total_update_eq_iff [IsCancelAdd G] (hnodup : ids.Nodup)
    (hid : id ∈ ids) (c : C) :
    total share (Function.update clients id c) ids = total share clients ids ↔
      share c = share (clients id) := by
  rw [total_update hnodup hid, total_erase hid, add_left_inj]

end Total

/-! ## Tables of counts -/

variable {κ : Type u} {β : Type v} [AddCommGroup G]
  {val : β → G} {find find' : κ → Option β} {f g : κ → G}

/-- What is found for a key with a count. -/
def EntryOk (val : β → G) (c : G) : Option β → Prop
  | none => c = 0
  | some b => c = val b ∧ val b ≠ 0

/-- The lookups give the counts, and only a count that is not zero has an entry. -/
def Holds (val : β → G) (find : κ → Option β) (f : κ → G) : Prop :=
  ∀ k, EntryOk val (f k) (find k)

theorem holds_iff :
    Holds val find f ↔ (∀ k, (find k).elim 0 val = f k) ∧
      ∀ k b, find k = some b → val b ≠ 0 := by
  rw [Holds, ← forall_and]
  refine forall_congr' fun k => ?_
  cases find k with
  | none => exact ⟨fun h => ⟨h.symm, nofun⟩, fun h => h.1.symm⟩
  | some b =>
    refine ⟨fun h => ⟨h.1.symm, ?_⟩, fun h => ⟨h.1.symm, h.2 b rfl⟩⟩
    rintro b' ⟨⟩
    exact h.2

theorem Holds.unique (hf : Holds val find f) (hg : Holds val find g) :
    f = g := by
  funext k
  exact ((holds_iff.mp hf).1 k).symm.trans ((holds_iff.mp hg).1 k)

theorem Holds.iff_eq (hf : Holds val find f) : Holds val find g ↔ g = f :=
  ⟨fun hg => hg.unique hf, fun heq => heq ▸ hf⟩

theorem Holds.exists_entry (h : Holds val find f) {k : κ} (hk : f k ≠ 0) :
    ∃ b, find k = some b ∧ val b = f k := by
  have hold := h k
  cases hfind : find k with
  | none =>
    rw [hfind] at hold
    exact absurd hold hk
  | some b =>
    rw [hfind] at hold
    exact ⟨b, rfl, hold.1.symm⟩

variable [DecidableEq κ]

/-- The part `c` of the count of a key is replaced by `c'`. -/
theorem Holds.set {k : κ} {c c' : G} {new : Option β}
    (h : Holds val find (Pi.single k c + f))
    (hfind : ∀ k', find' k' = if k' = k then new else find k')
    (hnew : EntryOk val (c' + f k) new) :
    Holds val find' (Pi.single k c' + f) := by
  intro k'
  have hold := h k'
  rw [Pi.add_apply] at hold
  rw [hfind, Pi.add_apply]
  by_cases hk : k' = k
  · rw [if_pos hk, hk, Pi.single_eq_same]
    exact hnew
  · rw [Pi.single_eq_of_ne hk] at hold
    rw [if_neg hk, Pi.single_eq_of_ne hk]
    exact hold

/-- A count is put to that of a key, which may be new. -/
theorem Holds.add (h : Holds val find f) {k : κ} {c : G} {b : β} {new : β → β}
    (hfind : ∀ k', find' k' =
      if k' = k then some (new ((find k).getD b)) else find k') (hb : val b = 0)
    (hval : ∀ b, val (new b) = c + val b) (hne : c + f k ≠ 0) :
    Holds val find' (Pi.single k c + f) := by
  have hzero : Holds val find (Pi.single k 0 + f) := by
    rwa [Pi.single_zero, zero_add]
  refine hzero.set hfind ?_
  have hold : val ((find k).getD b) = f k := by
    rw [← (holds_iff.mp h).1 k]
    cases find k with
    | none => exact hb
    | some b' => rfl
  have hsum := hval ((find k).getD b)
  rw [hold] at hsum
  exact ⟨hsum.symm, hsum ▸ hne⟩

/-- A count is taken from that of a key, whose entry goes if nothing is left. -/
theorem Holds.sub {k : κ} {c : G} {b b' : β}
    (h : Holds val find (Pi.single k c + f)) (hb : find k = some b)
    (hval : c + val b' = val b) {empty : Prop} [Decidable empty]
    (hempty : empty ↔ val b' = 0)
    (hfind : ∀ k', find' k' =
      if k' = k then if empty then none else some b' else find k') :
    Holds val find' f := by
  have hold := h k
  rw [hb, Pi.add_apply, Pi.single_eq_same] at hold
  have hleft : f k = val b' := add_left_cancel (hold.1.trans hval.symm)
  have hrest : Holds val find' (Pi.single k 0 + f) := by
    refine h.set hfind ?_
    rw [zero_add]
    by_cases hnone : empty
    · rw [if_pos hnone]
      exact hleft.trans (hempty.mp hnone)
    · rw [if_neg hnone]
      exact ⟨hleft, fun hzero => hnone (hempty.mpr hzero)⟩
  rwa [Pi.single_zero, zero_add] at hrest

end UnrealIrcd.Support
