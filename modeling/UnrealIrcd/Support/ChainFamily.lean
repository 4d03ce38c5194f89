import UnrealIrcd.Support.LinkedList

/-!
# Many linked lists over one array of cells

The cells of an array are threaded into doubly linked lists, each of which has a
pointer to its first cell only.  A cell is put in front of a list, and is taken
out of the list it is in, wherever it stands.  A family of lists is described by
the cells of each (`Represents`); no cell is in two lists.
-/

namespace UnrealIrcd.Support

open List
open Function (comp_def forall_update_iff update_self update_of_ne)

universe u

/-- The first cells of the lists, and the links of the cells. -/
structure ChainFamily (ι : Type u) where
  head : ι → Option ℕ
  nodes : Heap Unit

namespace ChainFamily

variable {ι : Type u} [DecidableEq ι]

/-- `e->prev = NULL; if ((e->next = *bucket)) e->next->prev = e; *bucket = e`. -/
def push (c : ChainFamily ι) (i : ι) (e : ℕ) : Option (ChainFamily ι) :=
  ((c.nodes.write e ⟨none, c.head i, ()⟩).setPrevIf (c.head i) (some e)).map
    fun nodes => ⟨Function.update c.head i (some e), nodes⟩

/-- `if (e->prev) e->prev->next = e->next; else *bucket = e->next;`, and the
same for the link back from the next cell. -/
def unlink (c : ChainFamily ι) (i : ι) (e : ℕ) : Option (ChainFamily ι) :=
  (c.nodes e).bind fun node =>
    (c.nodes.setNextIf node.prev node.next).bind fun nodes =>
      (nodes.setPrevIf node.next node.prev).map fun nodes =>
        match node.prev with
        | some _ => ⟨c.head, nodes⟩
        | none => ⟨Function.update c.head i node.next, nodes⟩

/-- Cells as the entries of a segment. -/
def cells (l : List ℕ) : List (ℕ × Unit) := l.map fun e => (e, ())

@[simp] theorem cells_cons (e : ℕ) (l : List ℕ) :
    cells (e :: l) = (e, ()) :: cells l := rfl

@[simp] theorem cells_append (l l' : List ℕ) :
    cells (l ++ l') = cells l ++ cells l' := map_append

@[simp] theorem addresses_cells (l : List ℕ) : addresses (cells l) = l := by
  simp [addresses, cells, comp_def]

@[simp] theorem firstPtr_cells (l : List ℕ) : firstPtr (cells l) = l.head? := by
  cases l <;> rfl

theorem lastPtr_cells (l : List ℕ) : lastPtr (cells l) = l.getLast? := by
  simp [lastPtr, cells, comp_def]

/-- The lists of the family are the given ones. -/
structure Represents (c : ChainFamily ι) (L : ι → List ℕ) : Prop where
  seg : ∀ i, Seg c.nodes none (cells (L i)) none
  head_eq : ∀ i, c.head i = (L i).head?
  nodup : ∀ i, (L i).Nodup
  disjoint : ∀ i j e, e ∈ L i → e ∈ L j → i = j

variable {c : ChainFamily ι} {L : ι → List ℕ}

omit [DecidableEq ι] in
theorem represents_empty (nodes : Heap Unit) :
    Represents (⟨fun _ => none, nodes⟩ : ChainFamily ι) (fun _ => []) where
  seg _ := trivial
  head_eq _ := rfl
  nodup _ := nodup_nil
  disjoint _ _ _ h := absurd h not_mem_nil

/-- One list of the family is changed, and the cells of the others are left
alone. -/
theorem Represents.update (h : Represents c L) {i : ι} {l : List ℕ}
    {c' : ChainFamily ι} (hseg : Seg c'.nodes none (cells l) none)
    (hhead : c'.head i = l.head?) (hnodup : l.Nodup)
    (hnew : ∀ e ∈ l, ∀ j, e ∈ L j → j = i)
    (hheads : ∀ j, j ≠ i → c'.head j = c.head j)
    (hframe : ∀ j, j ≠ i → ∀ e ∈ L j, c'.nodes e = c.nodes e) :
    Represents c' (Function.update L i l) where
  seg := by
    refine (forall_update_iff L fun _ l =>
      Seg c'.nodes none (cells l) none).mpr ⟨hseg, fun j hj => ?_⟩
    refine (h.seg j).frame fun x hx => hframe j hj x.1 ?_
    simpa using mem_addresses hx
  head_eq := (forall_update_iff L fun j l => c'.head j = l.head?).mpr
    ⟨hhead, fun j hj => (hheads j hj).trans (h.head_eq j)⟩
  nodup := (forall_update_iff L fun _ l => l.Nodup).mpr
    ⟨hnodup, fun j _ => h.nodup j⟩
  disjoint j k e hej hek := by
    by_cases hj : j = i <;> by_cases hk : k = i
    · rw [hj, hk]
    · subst hj
      rw [update_self] at hej
      rw [update_of_ne hk] at hek
      exact (hnew e hej k hek).symm
    · subst hk
      rw [update_of_ne hj] at hej
      rw [update_self] at hek
      exact hnew e hek j hej
    · rw [update_of_ne hj] at hej
      rw [update_of_ne hk] at hek
      exact h.disjoint j k e hej hek

theorem Represents.push (h : Represents c L) (i : ι) {e : ℕ}
    (he : ∀ j, e ∉ L j) :
    ∃ c', c.push i e = some c' ∧
      Represents c' (Function.update L i (e :: L i)) := by
  have hseg : Seg (c.nodes.write e ⟨none, c.head i, ()⟩) none (cells (L i)) none :=
    (h.seg i).write (by simpa using he i) _
  obtain ⟨nodes, hset, hseg', hsame⟩ :=
    hseg.setPrev_first (by simpa using h.nodup i) (some e)
  rw [firstPtr_cells, ← h.head_eq] at hset
  simp only [addresses_cells] at hsame
  refine ⟨⟨Function.update c.head i (some e), nodes⟩, ?_, h.update ?_ ?_ ?_ ?_ ?_ ?_⟩
  · rw [ChainFamily.push, hset]
    rfl
  · refine ⟨?_, hseg'⟩
    change nodes e = some ⟨none, (firstPtr (cells (L i))).or none, ()⟩
    rw [hsame e (he i), Heap.write_self, h.head_eq, firstPtr_cells,
      Option.or_none]
  · exact update_self i (some e) c.head
  · exact nodup_cons.mpr ⟨he i, h.nodup i⟩
  · intro x hx j hj
    rcases mem_cons.mp hx with rfl | hx
    · exact absurd hj (he j)
    · exact h.disjoint j i x hj hx
  · intro j hj
    exact update_of_ne hj (some e) c.head
  · intro j hj x hx
    have hxi : x ∉ L i := fun hmem => hj (h.disjoint j i x hx hmem)
    have hxe : x ≠ e := by
      rintro rfl
      exact he j hx
    exact (hsame x hxi).trans (Heap.write_of_ne hxe _)

theorem Represents.unlink (h : Represents c L) {i : ι} {e : ℕ} (he : e ∈ L i) :
    ∃ c', c.unlink i e = some c' ∧
      Represents c' (Function.update L i ((L i).erase e)) := by
  obtain ⟨xs, ys, hlist⟩ := append_of_mem he
  have hnodup := h.nodup i
  rw [hlist, nodup_middle, nodup_cons] at hnodup
  obtain ⟨hout, hparts⟩ := hnodup
  have hsub : ∀ x ∈ xs ++ ys, x ∈ L i := by
    rw [hlist]
    exact fun x hx => ((sublist_cons_self e ys).append_left xs).subset hx
  have hseg := h.seg i
  rw [hlist, cells_append, cells_cons] at hseg
  obtain ⟨-, hnode, -⟩ := seg_append.mp hseg
  obtain ⟨nodes₁, nodes₂, hset₁, hset₂, hseg', hsame⟩ :=
    hseg.unlink (by simpa using hparts)
  rw [← cells_append] at hseg' hsame
  rw [lastPtr_cells, firstPtr_cells] at hset₁ hset₂
  rw [lastPtr_cells, Option.or_none, firstPtr_cells, Option.or_none] at hnode
  rw [addresses_cells] at hsame
  have herase : (L i).erase e = xs ++ ys := by
    have hxs : e ∉ xs := fun hmem => hout (mem_append_left _ hmem)
    rw [hlist, erase_append_right _ hxs, erase_cons_head]
  -- The pointer to the first cell moves only if the cell was the first one.
  let head' := match xs.getLast? with
    | some _ => c.head
    | none => Function.update c.head i ys.head?
  have hhead' : head' i = (xs ++ ys).head? ∧ ∀ j, j ≠ i → head' j = c.head j := by
    cases xs using List.reverseRecOn with
    | nil => simp +contextual [head']
    | append_singleton xs x =>
      simp only [head', getLast?_concat]
      rw [h.head_eq, hlist]
      simp
  refine ⟨⟨head', nodes₂⟩, ?_, ?_⟩
  · rw [ChainFamily.unlink, hnode, Option.bind_some, hset₁, Option.bind_some,
      hset₂, Option.map_some]
    cases hlast : xs.getLast? <;> simp [head', hlast]
  · rw [herase]
    refine h.update hseg' hhead'.1 hparts ?_ hhead'.2 ?_
    · exact fun x hx j hj => h.disjoint j i x hj (hsub x hx)
    · intro j hj x hx
      exact hsame x fun hmem => hj (h.disjoint j i x hx (hsub x hmem))

/-! ## Walking along a list -/

/-- The walk `for (e = *bucket; e; e = e->next)`, for at most `n` cells. -/
def walk (nodes : Heap Unit) : ℕ → Option ℕ → Option (List ℕ)
  | _, none => some []
  | 0, some _ => none
  | n + 1, some e => (nodes e).bind fun node =>
    (walk nodes n node.next).map fun l => e :: l

theorem walk_of_seg {nodes : Heap Unit} {l : List ℕ} {before : Option ℕ}
    (h : Seg nodes before (cells l) none) {n : ℕ} (hn : l.length ≤ n) :
    walk nodes n l.head? = some l := by
  induction l generalizing before n with
  | nil => cases n <;> rfl
  | cons e l ih =>
    obtain ⟨m, rfl⟩ : ∃ m, n = m + 1 := ⟨n - 1, by simp at hn; omega⟩
    rw [cells_cons, Seg, firstPtr_cells, Option.or_none] at h
    obtain ⟨hnode, hrest⟩ := h
    rw [head?_cons, walk, hnode, Option.bind_some, ih hrest (by simpa using hn)]
    rfl

omit [DecidableEq ι] in
theorem Represents.walk (h : Represents c L) (i : ι) {n : ℕ}
    (hn : (L i).length ≤ n) : walk c.nodes n (c.head i) = some (L i) := by
  rw [h.head_eq]
  exact walk_of_seg (h.seg i) hn

end ChainFamily

end UnrealIrcd.Support
