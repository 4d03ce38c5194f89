import Mathlib.Logic.Relation
import Mathlib.Data.Nat.Notation

/-!
# Loops with a body

A loop of an imperative program as the function its body computes: from the
state at the start of an iteration either the state at the start of the next
one or the result with which the loop is left.  The loop is run with a number
of iterations at hand; a measure that every iteration lowers says how many are
enough.
-/

namespace UnrealIrcd.Support

universe u v

variable {σ : Type u} {ρ : Type v}

def stepLoop (body : σ → σ ⊕ ρ) : ℕ → σ → Option ρ
  | 0, _ => none
  | n + 1, s =>
    match body s with
    | .inl s' => stepLoop body n s'
    | .inr r => some r

/-- The states at the start of the iterations. -/
def visited (body : σ → σ ⊕ ρ) : ℕ → σ → List σ
  | 0, _ => []
  | n + 1, s =>
    s :: match body s with
      | .inl s' => visited body n s'
      | .inr _ => []

/-- Every iteration lowers the measure. -/
def Shrinks (body : σ → σ ⊕ ρ) (size : σ → ℕ) : Prop :=
  ∀ ⦃s s'⦄, body s = .inl s' → size s' < size s

/-- The loop gets from one state to another. -/
def Leads (body : σ → σ ⊕ ρ) : σ → σ → Prop :=
  Relation.ReflTransGen fun s s' => body s = .inl s'

variable {body : σ → σ ⊕ ρ} {size : σ → ℕ}

/-! ## One iteration -/

variable {n : ℕ} {s s' : σ}

theorem stepLoop_inl (h : body s = .inl s') :
    stepLoop body (n + 1) s = stepLoop body n s' := by
  rw [stepLoop, h]

theorem stepLoop_inr {s : σ} {r : ρ} (h : body s = .inr r) :
    stepLoop body (n + 1) s = some r := by
  rw [stepLoop, h]

theorem visited_inl (h : body s = .inl s') :
    visited body (n + 1) s = s :: visited body n s' := by
  rw [visited, h]

theorem visited_inr {s : σ} {r : ρ} (h : body s = .inr r) :
    visited body (n + 1) s = [s] := by
  rw [visited, h]

/-! ## Enough iterations -/

/-- A loop with a measure comes to its end.  The measure need be lowered only
in states that satisfy an invariant. -/
theorem exists_stepLoop_of {I : σ → Prop}
    (hstep : ∀ s s', I s → body s = .inl s' → I s' ∧ size s' < size s) {s : σ}
    (hI : I s) (hn : size s < n) : ∃ r, stepLoop body n s = some r := by
  induction n generalizing s with
  | zero => omega
  | succ n ih =>
    cases hbody : body s with
    | inl s' =>
      obtain ⟨hI', hlt⟩ := hstep s s' hI hbody
      rw [stepLoop_inl hbody]
      exact ih hI' (by omega)
    | inr r => exact ⟨r, stepLoop_inr hbody⟩

section

variable (hshrinks : Shrinks body size)

include hshrinks

theorem exists_stepLoop {s : σ} (hn : size s < n) :
    ∃ r, stepLoop body n s = some r :=
  exists_stepLoop_of (I := fun _ => True)
    (fun _ _ _ hbody => ⟨trivial, hshrinks hbody⟩) trivial hn

/-- More iterations than enough change nothing. -/
theorem stepLoop_eq_stepLoop {n m : ℕ} {s : σ} (hn : size s < n)
    (hm : size s < m) : stepLoop body n s = stepLoop body m s := by
  induction n generalizing s m with
  | zero => omega
  | succ n ih =>
    obtain ⟨m, rfl⟩ := Nat.exists_eq_succ_of_ne_zero (by omega : m ≠ 0)
    cases hbody : body s with
    | inl s' =>
      have hlt := hshrinks hbody
      rw [stepLoop_inl hbody, stepLoop_inl hbody]
      exact ih (by omega) (by omega)
    | inr r => rw [stepLoop_inr hbody, stepLoop_inr hbody]

theorem Leads.size_le (h : Leads body s s') : size s' ≤ size s := by
  induction h with
  | refl => exact Nat.le_refl _
  | tail _ hstep ih =>
    have hlt := hshrinks hstep
    omega

/-- The result of the loop is that from any state on the way. -/
theorem Leads.stepLoop_eq (h : Leads body s s') (hn : size s < n) :
    stepLoop body n s = stepLoop body n s' := by
  induction h with
  | refl => rfl
  | tail hleads hstep ih =>
    have hle := Leads.size_le hshrinks hleads
    have hlt := hshrinks hstep
    obtain ⟨n, rfl⟩ := Nat.exists_eq_succ_of_ne_zero (by omega : n ≠ 0)
    rw [ih, stepLoop_inl hstep]
    exact stepLoop_eq_stepLoop hshrinks (by omega) (by omega)

end

theorem Leads.trans {s s' s'' : σ} (h : Leads body s s')
    (h' : Leads body s' s'') : Leads body s s'' :=
  Relation.ReflTransGen.trans h h'

theorem Leads.of_inl (h : body s = .inl s') : Leads body s s' :=
  Relation.ReflTransGen.single h

theorem Leads.head {s s' s'' : σ} (h : body s = .inl s')
    (h' : Leads body s' s'') : Leads body s s'' :=
  Relation.ReflTransGen.head h h'

/-! ## What holds along the loop -/

/-- The rule of invariants.  The invariant may speak about the states of all
earlier iterations. -/
theorem visited_invariant (Inv : List σ → σ → Prop)
    (hstep : ∀ past s s', Inv past s → body s = .inl s' → Inv (past ++ [s]) s')
    {s : σ} {before : List σ} (h : Inv before s) {past later : List σ} {t : σ}
    (hvisited : visited body n s = past ++ t :: later) :
    Inv (before ++ past) t := by
  induction n generalizing s before past with
  | zero => simp [visited] at hvisited
  | succ n ih =>
    cases past with
    | nil =>
      have hhead : s = t := by
        simpa [visited] using congrArg List.head? hvisited
      simpa [← hhead] using h
    | cons first past =>
      cases hbody : body s with
      | inl s' =>
        rw [visited_inl hbody, List.cons_append, List.cons.injEq] at hvisited
        obtain ⟨rfl, hrest⟩ := hvisited
        have hlater := ih (hstep before s s' h hbody) hrest
        simpa using hlater
      | inr r =>
        rw [visited_inr hbody] at hvisited
        simp at hvisited

/-- A loop that has come to its end left in its last iteration. -/
theorem exists_visited_of_stepLoop {s : σ} {r : ρ}
    (h : stepLoop body n s = some r) :
    ∃ past last, visited body n s = past ++ [last] ∧ body last = .inr r := by
  induction n generalizing s with
  | zero => simp [stepLoop] at h
  | succ n ih =>
    cases hbody : body s with
    | inl s' =>
      rw [stepLoop_inl hbody] at h
      obtain ⟨past, last, hvisited, hlast⟩ := ih h
      refine ⟨s :: past, last, ?_, hlast⟩
      rw [visited_inl hbody, hvisited, List.cons_append]
    | inr r' =>
      rw [stepLoop_inr hbody, Option.some.injEq] at h
      obtain rfl := h
      exact ⟨[], s, visited_inr hbody, hbody⟩

end UnrealIrcd.Support
