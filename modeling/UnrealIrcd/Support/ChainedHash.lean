import Mathlib.Data.List.Nodup

/-!
# Hash tables with chaining

A table is a list of entries for every slot.  The entry of a key is looked for
in the slot of the key only.  In a well-formed table every entry is in the slot
of its key and no chain has two entries of one key, so that looking a key up
says everything about the table.
-/

namespace UnrealIrcd.Support

open Function List

universe u v w

variable {κ : Type u} {β : Type v} {ι : Type w}

abbrev Chains (β : Type v) := ℕ → List β

namespace Chains

/-- Every entry is in the slot of its key, and is the only one of this key. -/
structure WellFormed (key : β → κ) (hash : κ → ℕ) (t : Chains β) : Prop where
  slot : ∀ i, ∀ b ∈ t i, hash (key b) = i
  nodup : ∀ i, ((t i).map key).Nodup

variable [DecidableEq κ] (key : β → κ) (hash : κ → ℕ)

def find (t : Chains β) (k : κ) : Option β :=
  (t (hash k)).find? fun b => key b = k

def insert (t : Chains β) (b : β) : Chains β :=
  Function.update t (hash (key b)) (b :: t (hash (key b)))

/-- The entry of a key is changed in place. -/
def modify (t : Chains β) (k : κ) (f : β → β) : Chains β :=
  Function.update t (hash k)
    ((t (hash k)).map fun b => if key b = k then f b else b)

def remove (t : Chains β) (k : κ) : Chains β :=
  Function.update t (hash k) ((t (hash k)).filter fun b => key b ≠ k)

variable {key hash} {t : Chains β}

theorem key_of_find {k : κ} {b : β} {l : List β}
    (h : (l.find? fun b => key b = k) = some b) : key b = k := by
  simpa using find?_some h

/-! ## Lookups after an update -/

theorem find_setChain {k k' : κ} {l : List β} {new : Option β}
    (h : (l.find? fun b => key b = k') =
      if k' = k then new else (t (hash k)).find? fun b => key b = k') :
    find key hash (update t (hash k) l) k' =
      if k' = k then new else find key hash t k' := by
  unfold find
  by_cases hslot : hash k' = hash k
  · rw [hslot, update_self]
    exact h
  · rw [update_of_ne hslot, if_neg]
    exact fun hk => hslot (congrArg hash hk)

theorem find_insert (b : β) (k : κ) :
    find key hash (insert key hash t b) k =
      if k = key b then some b else find key hash t k := by
  apply find_setChain
  rw [find?_cons]
  by_cases hk : k = key b
  · rw [if_pos hk, decide_eq_true hk.symm]
  · rw [if_neg hk, decide_eq_false fun h => hk h.symm]

theorem find_modify {f : β → β} (hf : ∀ b, key (f b) = key b) (k k' : κ) :
    find key hash (modify key hash t k f) k' =
      if k' = k then (find key hash t k).map f else find key hash t k' := by
  apply find_setChain
  have hkey : ((fun b => decide (key b = k')) ∘
      fun b => if key b = k then f b else b) = fun b => decide (key b = k') := by
    funext b
    by_cases hb : key b = k
    · simp only [comp_apply, if_pos hb, hf]
    · simp only [comp_apply, if_neg hb]
  rw [find?_map, hkey]
  by_cases hk : k' = k
  · rw [if_pos hk, hk]
    apply Option.map_congr
    intro b hb
    rw [if_pos (key_of_find hb)]
  · rw [if_neg hk]
    cases hfind : (t (hash k)).find? fun b => key b = k' with
    | none => rfl
    | some b =>
      rw [Option.map_some, if_neg ((key_of_find hfind).trans_ne hk)]

theorem find_remove (k k' : κ) :
    find key hash (remove key hash t k) k' =
      if k' = k then none else find key hash t k' := by
  apply find_setChain
  rw [find?_filter]
  by_cases hk : k' = k
  · rw [if_pos hk, hk, find?_eq_none]
    intro b _
    simp
  · rw [if_neg hk]
    congr 1
    funext b
    by_cases hb : key b = k'
    · simp [hb, hk]
    · simp [hb]

/-! ## Several tables -/

/-- One of several tables is changed for one key. -/
theorem find_update [DecidableEq ι] {T : ι → Chains β} {i : ι} {k : κ}
    {new : Option β}
    (h : ∀ k', find key hash t k' =
      if k' = k then new else find key hash (T i) k') (q : ι × κ) :
    find key hash (update T i t q.1) q.2 =
      if q = (i, k) then new else find key hash (T q.1) q.2 := by
  obtain ⟨i', k'⟩ := q
  by_cases hi : i' = i
  · subst hi
    rw [update_self, h]
    simp only [Prod.mk.injEq, true_and]
  · rw [update_of_ne hi, if_neg]
    exact fun heq => hi (Prod.mk.inj heq).1

omit [DecidableEq κ] in
theorem wellFormed_update [DecidableEq ι] {T : ι → Chains β}
    (h : ∀ i, WellFormed key hash (T i)) (ht : WellFormed key hash t) (i : ι) :
    ∀ i', WellFormed key hash (update T i t i') :=
  (forall_update_iff T fun _ => WellFormed key hash).mpr
    ⟨ht, fun i' _ => h i'⟩

/-! ## Well-formed tables -/

omit [DecidableEq κ] in
theorem wellFormed_empty : WellFormed key hash (fun _ => []) where
  slot := fun _ _ hb => absurd hb not_mem_nil
  nodup := fun _ => nodup_nil

variable (h : WellFormed key hash t)

include h

theorem WellFormed.find_of_mem {i : ℕ} {b : β} (hb : b ∈ t i) :
    find key hash t (key b) = some b := by
  unfold find
  rw [h.slot i b hb]
  cases hfind : (t i).find? fun b' => key b' = key b with
  | none =>
    have hne := find?_eq_none.mp hfind b hb
    simp at hne
  | some b' =>
    have hkey : key b' = key b := key_of_find hfind
    exact congrArg some (inj_on_of_nodup_map (h.nodup i)
      (mem_of_find?_eq_some hfind) hb hkey)

omit [DecidableEq κ] in
theorem WellFormed.setChain {i : ℕ} {l : List β}
    (hslot : ∀ b ∈ l, hash (key b) = i) (hnodup : (l.map key).Nodup) :
    WellFormed key hash (update t i l) where
  slot := (forall_update_iff t fun i l => ∀ b ∈ l, hash (key b) = i).mpr
    ⟨hslot, fun i _ => h.slot i⟩
  nodup := (forall_update_iff t fun _ l => (l.map key).Nodup).mpr
    ⟨hnodup, fun i _ => h.nodup i⟩

theorem WellFormed.insert {b : β} (hnew : find key hash t (key b) = none) :
    WellFormed key hash (insert key hash t b) := by
  apply h.setChain
  · exact forall_mem_cons.mpr ⟨rfl, h.slot _⟩
  · rw [map_cons, nodup_cons]
    refine ⟨?_, h.nodup _⟩
    rw [mem_map]
    rintro ⟨b', hb', hkey⟩
    have hne := find?_eq_none.mp hnew b' hb'
    simp [hkey] at hne

theorem WellFormed.modify {f : β → β} (hf : ∀ b, key (f b) = key b) (k : κ) :
    WellFormed key hash (modify key hash t k f) := by
  have hkey : ∀ b, key (if key b = k then f b else b) = key b := by
    intro b
    split
    · exact hf b
    · rfl
  apply h.setChain
  · intro b hb
    obtain ⟨b', hb', rfl⟩ := mem_map.mp hb
    rw [hkey]
    exact h.slot _ b' hb'
  · have hcomp : (key ∘ fun b => if key b = k then f b else b) = key :=
      funext hkey
    rw [map_map, hcomp]
    exact h.nodup _

theorem WellFormed.remove (k : κ) : WellFormed key hash (remove key hash t k) := by
  apply h.setChain
  · exact fun b hb => h.slot _ b (mem_of_mem_filter hb)
  · exact (h.nodup _).sublist (filter_sublist.map key)

end Chains

end UnrealIrcd.Support
