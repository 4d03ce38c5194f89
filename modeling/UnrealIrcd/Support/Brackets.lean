import Mathlib.Combinatorics.Enumerative.DyckWord

/-!
# Brackets that are still open

A reader of nested text counts the brackets that are open.  `Depth steps n`
says that in the brackets read so far none was closed that was not open and
that `n` are open now; with none open, what was read is a Dyck word.
-/

namespace UnrealIrcd.Support

open DyckStep

variable {steps : List DyckStep} {n : ℕ}

/-- Every bracket has its partner. -/
def Balanced (steps : List DyckStep) : Prop :=
  ∃ word : DyckWord, word.toList = steps

/-- No bracket was closed that was not open, and `n` brackets are open. -/
structure Depth (steps : List DyckStep) (n : ℕ) : Prop where
  count_le : ∀ i, (steps.take i).count D ≤ (steps.take i).count U
  count_eq : steps.count U = steps.count D + n

theorem depth_nil : Depth [] 0 :=
  ⟨fun i => by simp, rfl⟩

/-- One more step keeps the first part of `Depth` if it does so at its end. -/
theorem count_le_concat {step : DyckStep}
    (h : ∀ i, (steps.take i).count D ≤ (steps.take i).count U)
    (hlast : (steps ++ [step]).count D ≤ (steps ++ [step]).count U) (i : ℕ) :
    ((steps ++ [step]).take i).count D ≤ ((steps ++ [step]).take i).count U := by
  by_cases hi : i ≤ steps.length
  · rw [List.take_append_of_le_length hi]
    exact h i
  · rw [List.take_of_length_le (by simp; omega)]
    exact hlast

theorem Depth.opening (h : Depth steps n) : Depth (steps ++ [U]) (n + 1) := by
  have hcount : (steps ++ [U]).count U = (steps ++ [U]).count D + (n + 1) := by
    simp [List.count_append, h.count_eq]
    omega
  exact ⟨count_le_concat h.count_le (by omega), hcount⟩

theorem Depth.closing (h : Depth steps (n + 1)) : Depth (steps ++ [D]) n := by
  have hcount : (steps ++ [D]).count U = (steps ++ [D]).count D + n := by
    simp [List.count_append, h.count_eq]
    omega
  exact ⟨count_le_concat h.count_le (by omega), hcount⟩

theorem Depth.balanced (h : Depth steps 0) : Balanced steps :=
  ⟨⟨steps, h.count_eq, h.count_le⟩, rfl⟩

/-- Once no bracket is closed too often, counting decides. -/
theorem Depth.balanced_iff (h : Depth steps n) :
    Balanced steps ↔ steps.count U = steps.count D := by
  constructor
  · rintro ⟨word, rfl⟩
    exact word.count_U_eq_count_D
  · intro hcount
    exact ⟨⟨steps, hcount, h.count_le⟩, rfl⟩

end UnrealIrcd.Support
