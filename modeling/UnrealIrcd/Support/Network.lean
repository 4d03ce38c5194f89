import Mathlib.Algebra.GroupWithZero.Nat
import Mathlib.Algebra.Order.BigOperators.Group.Finset
import Mathlib.Data.Fintype.BigOperators

/-!
# Networks of servers with links in order

Servers that react to messages.  Every link delivers in order, and any link that
holds a message can be the next one.

A weight that every delivery lowers bounds the length of a run
(`length_run_add_le`), and then delivery can always be completed
(`exists_quiet`).
-/

namespace UnrealIrcd.Support

variable {V σ μ : Type*}

/-- The states of the servers and the messages on the links. -/
structure Network (V σ μ : Type*) where
  state : V → σ
  queue : V → V → List μ

/-- The state of a server after a message from a neighbour, and what it sends to
the others. -/
abbrev Handler (V σ μ : Type*) := V → σ → V → μ → σ × (V → List μ)

def Network.Quiet (s : Network V σ μ) : Prop := ∀ u v, s.queue u v = []

section Run

variable [DecidableEq V] (handle : Handler V σ μ)

/-- The first message on the link from `u` to `v` is taken away. -/
def Network.pop (s : Network V σ μ) (u v x y : V) : List μ :=
  if x = u ∧ y = v then (s.queue u v).tail else s.queue x y

/-- The network after `v` got a message from `u`. -/
def Network.receive (s : Network V σ μ) (u v : V) (m : μ) : Network V σ μ where
  state := Function.update s.state v (handle v (s.state v) u m).1
  queue x y := s.pop u v x y ++
    if x = v then (handle v (s.state v) u m).2 y else []

/-- The next message of a link is delivered. -/
def Network.deliver (s : Network V σ μ) (link : V × V) :
    Option (Network V σ μ) :=
  match s.queue link.1 link.2 with
  | [] => none
  | m :: _ => some (s.receive handle link.1 link.2 m)

def Network.run : Network V σ μ → List (V × V) → Option (Network V σ μ)
  | s, [] => some s
  | s, link :: links => (s.deliver handle link).bind (Network.run · links)

variable {handle} {s s' : Network V σ μ}

theorem deliver_eq_some {link : V × V} :
    s.deliver handle link = some s' ↔
      ∃ m rest, s.queue link.1 link.2 = m :: rest ∧
        s' = s.receive handle link.1 link.2 m := by
  unfold Network.deliver
  cases s.queue link.1 link.2 with
  | nil => simp
  | cons m rest =>
    simp only [Option.some.injEq, List.cons.injEq]
    constructor
    · rintro rfl
      exact ⟨m, rest, ⟨rfl, rfl⟩, rfl⟩
    · rintro ⟨m', rest', ⟨rfl, rfl⟩, rfl⟩
      rfl

theorem mem_pop {u v x y : V} {m : μ} (h : m ∈ s.pop u v x y) :
    m ∈ s.queue x y := by
  unfold Network.pop at h
  split at h
  · next hlink =>
      rw [hlink.1, hlink.2]
      exact List.mem_of_mem_tail h
  · exact h

theorem mem_pop_of_ne {u v x y : V} {m m' : μ} {rest : List μ}
    (hqueue : s.queue u v = m :: rest) (h : m' ∈ s.queue x y) :
    m' ∈ s.pop u v x y ∨ (x = u ∧ y = v ∧ m' = m) := by
  unfold Network.pop
  split
  · next hlink =>
      rw [hlink.1, hlink.2, hqueue] at h
      rw [hqueue]
      rcases List.mem_cons.mp h with rfl | h
      · exact .inr ⟨hlink.1, hlink.2, rfl⟩
      · exact .inl h
  · exact .inl h

theorem state_receive_self (u v : V) (m : μ) :
    (s.receive handle u v m).state v = (handle v (s.state v) u m).1 :=
  Function.update_self ..

theorem state_receive_of_ne {u v x : V} (hx : x ≠ v) (m : μ) :
    (s.receive handle u v m).state x = s.state x :=
  Function.update_of_ne hx ..

theorem mem_queue_receive {u v x y : V} {m m' : μ} :
    m' ∈ (s.receive handle u v m).queue x y ↔
      m' ∈ s.pop u v x y ∨ x = v ∧ m' ∈ (handle v (s.state v) u m).2 y := by
  unfold Network.receive
  rw [List.mem_append]
  refine or_congr_right ?_
  split
  · next hx => simp [hx]
  · next hx => simp [hx]

/-! ## Weights -/

variable [Fintype V]

/-- The weight of all messages and servers. -/
def Network.weight (weight : V → V → μ → ℕ) (rank : V → σ → ℕ)
    (s : Network V σ μ) : ℕ :=
  (∑ x, rank x (s.state x)) + ∑ x, ∑ y, ((s.queue x y).map (weight x y)).sum

/-- A server makes a message into less than it was worth. -/
def LowersAt (handle : Handler V σ μ) (weight : V → V → μ → ℕ)
    (rank : V → σ → ℕ) (v : V) (e : σ) (u : V) (m : μ) : Prop :=
  rank v (handle v e u m).1 +
      ∑ y, (((handle v e u m).2 y).map (weight v y)).sum <
    rank v e + weight u v m

/-- Then everything weighs less than before. -/
theorem weight_receive_lt {weight : V → V → μ → ℕ} {rank : V → σ → ℕ}
    {u v : V} {m : μ} {rest : List μ} (hqueue : s.queue u v = m :: rest)
    (h : LowersAt handle weight rank v (s.state v) u m) :
    (s.receive handle u v m).weight weight rank < s.weight weight rank := by
  have hpop : ∀ x y, ((s.queue x y).map (weight x y)).sum =
      ((s.pop u v x y).map (weight x y)).sum +
        if x = u ∧ y = v then weight u v m else 0 := by
    intro x y
    unfold Network.pop
    split
    · next hlink =>
        rw [hlink.1, hlink.2, hqueue, List.map_cons, List.sum_cons,
          List.tail_cons, Nat.add_comm]
    · exact (Nat.add_zero _).symm
  have hqueue' : ∀ x y, (((s.receive handle u v m).queue x y).map
      (weight x y)).sum = ((s.pop u v x y).map (weight x y)).sum +
        if x = v then (((handle v (s.state v) u m).2 y).map (weight v y)).sum
        else 0 := by
    intro x y
    unfold Network.receive
    rw [List.map_append, List.sum_append]
    split
    · next hx => rw [hx]
    · rfl
  have hnew : ∑ x : V, ∑ y : V, (if x = v then
      (((handle v (s.state v) u m).2 y).map (weight v y)).sum else 0) =
      ∑ y, (((handle v (s.state v) u m).2 y).map (weight v y)).sum := by
    rw [Finset.sum_eq_single v]
    · simp
    · intro x _ hx
      simp [hx]
    · simp
  have hold : ∑ x : V, ∑ y : V,
      (if x = u ∧ y = v then weight u v m else 0) = weight u v m := by
    rw [Finset.sum_eq_single u]
    · simp
    · intro x _ hx
      simp [hx]
    · simp
  -- the ranks differ at `v` only
  have hrank : ∑ x, rank x ((s.receive handle u v m).state x) +
      rank v (s.state v) = ∑ x, rank x (s.state x) +
        rank v (handle v (s.state v) u m).1 := by
    rw [← Finset.add_sum_erase _ _ (Finset.mem_univ v),
      ← Finset.add_sum_erase _ (fun x => rank x (s.state x))
        (Finset.mem_univ v), state_receive_self]
    have hrest : ∑ x ∈ Finset.univ.erase v,
        rank x ((s.receive handle u v m).state x) =
          ∑ x ∈ Finset.univ.erase v, rank x (s.state x) := by
      refine Finset.sum_congr rfl fun x hx => ?_
      rw [state_receive_of_ne (Finset.ne_of_mem_erase hx)]
    omega
  unfold Network.weight
  simp only [hpop, hqueue', Finset.sum_add_distrib, hnew, hold]
  unfold LowersAt at h
  omega

def Lowers (handle : Handler V σ μ) (weight : V → V → μ → ℕ)
    (rank : V → σ → ℕ) (I : Network V σ μ → Prop) : Prop :=
  ∀ s u v m rest, I s → s.queue u v = m :: rest →
    LowersAt handle weight rank v (s.state v) u m

variable {I : Network V σ μ → Prop} {weight : V → V → μ → ℕ}
  {rank : V → σ → ℕ}

section Invariant

variable (hstep : ∀ s u v m rest, I s → s.queue u v = m :: rest →
  I (s.receive handle u v m))

include hstep

omit [Fintype V] in
/-- What a delivery keeps holds in every run. -/
theorem run_invariant
    (hs : I s) {links : List (V × V)} (h : s.run handle links = some s') :
    I s' := by
  induction links generalizing s with
  | nil =>
    cases h
    exact hs
  | cons link links ih =>
    obtain ⟨t, ht, hrun⟩ := Option.bind_eq_some_iff.mp h
    obtain ⟨m, rest, hqueue, rfl⟩ := deliver_eq_some.mp ht
    exact ih (hstep s link.1 link.2 m rest hs hqueue) hrun

variable (hlowers : Lowers handle weight rank I) (hs : I s)

include hlowers hs

/-- A run is not longer than the weight that it uses up. -/
theorem length_run_add_le
    {links : List (V × V)} (h : s.run handle links = some s') :
    links.length + s'.weight weight rank ≤ s.weight weight rank := by
  induction links generalizing s with
  | nil =>
    cases h
    rw [List.length_nil, Nat.zero_add]
  | cons link links ih =>
    obtain ⟨t, ht, hrun⟩ := Option.bind_eq_some_iff.mp h
    obtain ⟨m, rest, hqueue, rfl⟩ := deliver_eq_some.mp ht
    have hlt := weight_receive_lt hqueue
      (hlowers s link.1 link.2 m rest hs hqueue)
    have hle := ih (hstep s link.1 link.2 m rest hs hqueue) hrun
    rw [List.length_cons]
    omega

theorem exists_quiet : ∃ links s', s.run handle links = some s' ∧ s'.Quiet := by
  induction hn : s.weight weight rank using Nat.strong_induction_on
    generalizing s with
  | _ n ih =>
    by_cases hquiet : s.Quiet
    · exact ⟨[], s, rfl, hquiet⟩
    · obtain ⟨u, v, hqueue⟩ : ∃ u v, s.queue u v ≠ [] := by
        simpa only [Network.Quiet, not_forall] using hquiet
      obtain ⟨m, rest, hqueue⟩ := List.exists_cons_of_ne_nil hqueue
      have hlt := weight_receive_lt hqueue (hlowers s u v m rest hs hqueue)
      obtain ⟨links, s', hrun, hquiet'⟩ :=
        ih _ (hn ▸ hlt) (hstep s u v m rest hs hqueue) rfl
      refine ⟨(u, v) :: links, s', ?_, hquiet'⟩
      rw [Network.run, deliver_eq_some.mpr ⟨m, rest, hqueue, rfl⟩]
      exact hrun

end Invariant

end Run

end UnrealIrcd.Support
