import Mathlib.Combinatorics.SimpleGraph.Acyclic

/-!
# The two sides of an edge of a tree

An edge of a tree has the vertices behind it on one side.  These sides are
counted here: behind an edge there is its end, and what is behind the other
edges of this end.  So a message that is passed on over every other edge gets
weaker with every step.
-/

namespace UnrealIrcd.Support

variable {V : Type*} {G : SimpleGraph V}

/-- A vertex is nearer by exactly one of the neighbours. -/
theorem eq_of_dist_lt (hG : G.IsTree) {x v n n' : V} (hn : G.Adj v n)
    (hn' : G.Adj v n') (h : G.dist x n < G.dist x v)
    (h' : G.dist x n' < G.dist x v) : n = n' := by
  have hpath : ∀ {m : V}, G.Adj v m → G.dist x m < G.dist x v →
      ∃ p : G.Walk x v, p.IsPath ∧ p.penultimate = m := by
    intro m hm hlt
    obtain ⟨p, -, hlen⟩ := hG.connected.exists_path_of_dist x m
    have hdist : G.dist x v = G.dist x m + 1 := by
      rcases hG.dist_eq_dist_add_one_of_adj x hm with hdist | hdist
      · exact hdist
      · omega
    refine ⟨p.concat hm.symm, SimpleGraph.Walk.isPath_of_length_eq_dist _ ?_,
      p.penultimate_concat hm.symm⟩
    rw [SimpleGraph.Walk.length_concat, hlen, hdist]
  obtain ⟨p, hp, rfl⟩ := hpath hn h
  obtain ⟨p', hp', rfl⟩ := hpath hn' h'
  rw [(hG.existsUnique_path x v).unique hp hp']

section Sides

variable [Fintype V]

open Classical in
/-- The vertices on the side of `v` of the edge from `u` to `v`. -/
noncomputable def side (G : SimpleGraph V) (u v : V) : Finset V :=
  Finset.univ.filter fun x => G.dist x v < G.dist x u

theorem mem_side {u v x : V} : x ∈ side G u v ↔ G.dist x v < G.dist x u := by
  rw [side, Finset.mem_filter, and_iff_right (Finset.mem_univ x)]

theorem end_mem_side {u v : V} (huv : G.Adj u v) : v ∈ side G u v := by
  rw [mem_side, SimpleGraph.dist_self, SimpleGraph.dist_comm,
    SimpleGraph.dist_eq_one_iff_adj.mpr huv]
  exact Nat.one_pos

open Classical in
theorem sum_card_side_lt (hG : G.IsTree) {u v : V} (huv : G.Adj u v) :
    ∑ n ∈ Finset.univ.filter (fun n => G.Adj v n ∧ n ≠ u), (side G v n).card <
      (side G u v).card := by
  have hdisjoint : ∀ n ∈ Finset.univ.filter (fun n => G.Adj v n ∧ n ≠ u),
      ∀ n' ∈ Finset.univ.filter (fun n => G.Adj v n ∧ n ≠ u), n ≠ n' →
        Disjoint (side G v n) (side G v n') := by
    intro n hn n' hn' hne
    rw [Finset.disjoint_left]
    intro x hx hx'
    rw [mem_side] at hx hx'
    exact hne (eq_of_dist_lt hG (Finset.mem_filter.mp hn).2.1
      (Finset.mem_filter.mp hn').2.1 hx hx')
  rw [← Finset.card_biUnion hdisjoint]
  refine Finset.card_lt_card ((Finset.ssubset_iff_of_subset ?_).mpr
    ⟨v, end_mem_side huv, ?_⟩)
  · intro x hx
    obtain ⟨n, hn, hxn⟩ := Finset.mem_biUnion.mp hx
    obtain ⟨hvn, hne⟩ := (Finset.mem_filter.mp hn).2
    rw [mem_side] at hxn ⊢
    by_contra hnot
    rcases hG.dist_eq_dist_add_one_of_adj x huv with hdist | hdist
    · omega
    · exact hne (eq_of_dist_lt hG hvn huv.symm hxn (by omega))
  · intro hv
    obtain ⟨n, -, hvn⟩ := Finset.mem_biUnion.mp hv
    rw [mem_side, SimpleGraph.dist_self] at hvn
    exact absurd hvn (Nat.not_lt_zero _)

end Sides

end UnrealIrcd.Support
