import Mathlib.Data.List.Induction

/-!
# Properties of every state of a run

A run takes the events of a list one after the other.  Where a step keeps a
property exactly under a condition on the state before it, the property holds in
every state of a run exactly if every step meets the condition.
-/

namespace UnrealIrcd.Support

universe u v

variable {σ : Type u} {ε : Type v} {step : σ → ε → σ} {start : σ}

theorem foldl_invariant {I : σ → Prop} (hstart : I start)
    (hstep : ∀ s e, I s → I (step s e)) (events : List ε) :
    I (events.foldl step start) := by
  induction events generalizing start with
  | nil => exact hstart
  | cons e events ih => exact ih (hstep start e hstart)

/-- The property holds in every state of a run exactly if every step meets its
condition.  `Q` is what the steps are known to keep with the property; only the
events of the run have to be looked at. -/
theorem forall_prefix_iff_of_mem {Q P : σ → Prop} {Keeps : σ → ε → Prop}
    {events : List ε} (hQ : Q start) (hP : ∀ s, Q s → P s)
    (hkeeps : ∀ s, ∀ e ∈ events, Q s → Keeps s e → Q (step s e))
    (honly : ∀ s, ∀ e ∈ events, Q s → P (step s e) → Keeps s e) :
    (∀ done, done <+: events → P (done.foldl step start)) ↔
      ∀ done e, done ++ [e] <+: events → Keeps (done.foldl step start) e := by
  have hsnoc : ∀ done e, (done ++ [e]).foldl step start =
      step (done.foldl step start) e := by
    intro done e
    rw [List.foldl_append, List.foldl_cons, List.foldl_nil]
  have hbefore : ∀ {done e}, done ++ [e] <+: events → done <+: events :=
    fun h => (List.prefix_append _ _).trans h
  have hmem : ∀ {done e}, done ++ [e] <+: events → e ∈ events :=
    fun h => h.subset (List.mem_append_right _ List.mem_cons_self)
  -- what is kept up to a prefix, given that the steps before it are all right
  have hrun : ∀ done, done <+: events →
      (∀ before e, before ++ [e] <+: done →
        Q (before.foldl step start) → Keeps (before.foldl step start) e) →
      Q (done.foldl step start) := by
    intro done
    induction done using List.reverseRecOn with
    | nil => exact fun _ _ => hQ
    | append_singleton done e ih =>
      intro hdone hsteps
      have hlast := ih (hbefore hdone) fun before e' h =>
        hsteps before e' (h.trans (List.prefix_append done [e]))
      rw [hsnoc]
      exact hkeeps _ e (hmem hdone) hlast
        (hsteps done e (List.prefix_refl _) hlast)
  constructor
  · intro hall done e hdone
    have hgood := hrun done (hbefore hdone) fun before e' h hgood =>
      honly _ e' (hmem (h.trans (hbefore hdone))) hgood
        (hsnoc before e' ▸ hall _ (h.trans (hbefore hdone)))
    exact honly _ e (hmem hdone) hgood (hsnoc done e ▸ hall _ hdone)
  · intro hall done hdone
    exact hP _ (hrun done hdone fun before e h _ => hall before e (h.trans hdone))

theorem forall_prefix_iff {I P : σ → Prop} {Keeps : σ → ε → Prop} (hI : I start)
    (hIstep : ∀ s e, I s → I (step s e)) (hP : P start)
    (hPstep : ∀ s e, I s → P s → (P (step s e) ↔ Keeps s e)) (events : List ε) :
    (∀ done, done <+: events → P (done.foldl step start)) ↔
      ∀ done e, done ++ [e] <+: events → Keeps (done.foldl step start) e := by
  refine @forall_prefix_iff_of_mem _ _ _ _ (fun s => I s ∧ P s) _ _ _
    ⟨hI, hP⟩ (fun _ h => h.2) ?_ ?_
  · intro s e _ h hk
    exact ⟨hIstep s e h.1, (hPstep s e h.1 h.2).mpr hk⟩
  · exact fun s e _ h => (hPstep s e h.1 h.2).mp

end UnrealIrcd.Support
