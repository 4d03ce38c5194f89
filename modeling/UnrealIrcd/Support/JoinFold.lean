import Mathlib.Order.Lattice

/-!
# Folds that join

A record that is started by one message and updated by the following ones.
Where a view of the record is joined with a key of every message, the view ends
up as the least upper bound of the keys, and does not depend on the order of
the messages.
-/

namespace UnrealIrcd.Support

universe u v w

variable {τ : Type u} {μ : Type v} {β : Type w} [SemilatticeSup β]

/-- The view of a record is started as, and then joined with, the key of a
message. -/
structure Joins (start : μ → τ) (update : τ → μ → τ) (view : τ → β)
    (key : μ → β) : Prop where
  start : ∀ m, view (start m) = key m
  update : ∀ t m, view (update t m) = view t ⊔ key m

namespace Joins

variable {start : μ → τ} {update : τ → μ → τ} {view : τ → β} {key : μ → β}

/-- The view after the messages is the least upper bound of their keys and of the
view before them. -/
theorem foldl_le_iff (h : Joins start update view key) (t : τ)
    (messages : List μ) {b : β} :
    view (messages.foldl update t) ≤ b ↔
      view t ≤ b ∧ ∀ m ∈ messages, key m ≤ b := by
  induction messages generalizing t with
  | nil => simp
  | cons m messages ih =>
    rw [List.foldl_cons, ih, h.update, sup_le_iff, List.forall_mem_cons,
      and_assoc]

/-- The view does not depend on the order of the messages. -/
theorem foldl_eq_of_mem_iff (h : Joins start update view key) {m m' : μ}
    {messages messages' : List μ}
    (hsame : ∀ x, x ∈ m :: messages ↔ x ∈ m' :: messages') :
    view (messages.foldl update (start m)) =
      view (messages'.foldl update (start m')) := by
  refine eq_of_forall_ge_iff fun b => ?_
  rw [h.foldl_le_iff, h.foldl_le_iff, h.start, h.start,
    ← List.forall_mem_cons (p := (key · ≤ b)),
    ← List.forall_mem_cons (p := (key · ≤ b))]
  simp only [hsame]

end Joins

end UnrealIrcd.Support
