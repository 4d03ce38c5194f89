import Mathlib.Data.List.Induction
import Mathlib.Data.List.Nodup

/-!
# Doubly linked lists in memory

Nodes live at addresses and point to their neighbours.  A segment of a list is
described by its addresses and values (`Seg`); a whole list is a segment with
nothing before and nothing after it, together with the pointers to its first and
its last node (`IsList`).

Writing through a pointer that is not valid has no result.
-/

namespace UnrealIrcd.Support

open List

variable {β : Type*}

structure Node (β : Type*) where
  prev : Option ℕ
  next : Option ℕ
  val : β
  deriving DecidableEq, Repr

abbrev Heap (β : Type*) := ℕ → Option (Node β)

variable {heap : Heap β}

namespace Heap

def write (heap : Heap β) (p : ℕ) (node : Node β) : Heap β :=
  fun q => if q = p then some node else heap q

def erase (heap : Heap β) (p : ℕ) : Heap β :=
  fun q => if q = p then none else heap q

/-- `p->next = q`. -/
def setNext (heap : Heap β) (p : ℕ) (q : Option ℕ) : Option (Heap β) :=
  (heap p).map fun node => heap.write p { node with next := q }

/-- `p->prev = q`. -/
def setPrev (heap : Heap β) (p : ℕ) (q : Option ℕ) : Option (Heap β) :=
  (heap p).map fun node => heap.write p { node with prev := q }

/-- `if (p) p->next = q`. -/
def setNextIf (heap : Heap β) (p : Option ℕ) (q : Option ℕ) :
    Option (Heap β) :=
  match p with
  | none => some heap
  | some p => heap.setNext p q

/-- `if (p) p->prev = q`. -/
def setPrevIf (heap : Heap β) (p : Option ℕ) (q : Option ℕ) :
    Option (Heap β) :=
  match p with
  | none => some heap
  | some p => heap.setPrev p q

@[simp] theorem write_self (heap : Heap β) (p : ℕ) (node : Node β) :
    heap.write p node p = some node := by
  simp [write]

theorem write_of_ne {p q : ℕ} (h : q ≠ p) (node : Node β) :
    heap.write p node q = heap q := by
  simp [write, h]

theorem erase_of_ne {p q : ℕ} (h : q ≠ p) : heap.erase p q = heap q := by
  simp [erase, h]

variable {p : ℕ} {node : Node β} (h : heap p = some node) (q : Option ℕ)

include h

theorem setNext_of_some :
    heap.setNext p q = some (heap.write p { node with next := q }) := by
  rw [setNext, h]
  rfl

theorem setPrev_of_some :
    heap.setPrev p q = some (heap.write p { node with prev := q }) := by
  rw [setPrev, h]
  rfl

end Heap

/-! ## Segments -/

def firstPtr (es : List (ℕ × β)) : Option ℕ := es.head?.map Prod.fst

def lastPtr (es : List (ℕ × β)) : Option ℕ := es.getLast?.map Prod.fst

section Pointers

variable (e : ℕ × β) (es : List (ℕ × β))

@[simp] theorem firstPtr_nil : firstPtr ([] : List (ℕ × β)) = none := rfl

@[simp] theorem firstPtr_cons :
    firstPtr (e :: es) = some e.1 := rfl

@[simp] theorem lastPtr_nil : lastPtr ([] : List (ℕ × β)) = none := rfl

@[simp] theorem lastPtr_concat : lastPtr (es ++ [e]) = some e.1 := by
  simp [lastPtr]

theorem firstPtr_append (es' : List (ℕ × β)) :
    firstPtr (es ++ es') = (firstPtr es).or (firstPtr es') := by
  cases es <;> simp [firstPtr]

theorem lastPtr_append_cons (es' : List (ℕ × β)) :
    lastPtr (es ++ e :: es') = lastPtr (e :: es') := by
  simp [lastPtr, getLast?_append, getLast?_cons]

theorem lastPtr_cons : lastPtr (e :: es) = (lastPtr es).or (some e.1) := by
  cases es using List.reverseRecOn with
  | nil => rfl
  | append_singleton es x =>
    rw [← cons_append, lastPtr_concat, lastPtr_concat]
    rfl

theorem lastPtr_cons_or (p : Option ℕ) :
    (lastPtr (e :: es)).or p = lastPtr (e :: es) := by
  rw [lastPtr_cons, Option.or_assoc]
  rfl

end Pointers

/-- The nodes of `es` are linked with each other; `before` and `after` are the
neighbours of the whole segment. -/
def Seg (heap : Heap β) (before : Option ℕ) :
    List (ℕ × β) → Option ℕ → Prop
  | [], _ => True
  | e :: es, after =>
    heap e.1 = some ⟨before, (firstPtr es).or after, e.2⟩ ∧
      Seg heap (some e.1) es after

variable {before after : Option ℕ}

theorem seg_append {es es' : List (ℕ × β)} :
    Seg heap before (es ++ es') after ↔
      Seg heap before es ((firstPtr es').or after) ∧
        Seg heap ((lastPtr es).or before) es' after := by
  induction es generalizing before with
  | nil => simp [Seg]
  | cons e es ih =>
    rw [cons_append, Seg, Seg, ih, firstPtr_append, Option.or_assoc,
      lastPtr_cons_or, lastPtr_cons, and_assoc]

variable {es : List (ℕ × β)}

/-- A segment does not depend on the rest of the memory. -/
theorem Seg.frame {heap heap' : Heap β} (h : Seg heap before es after)
    (hsame : ∀ e ∈ es, heap' e.1 = heap e.1) : Seg heap' before es after := by
  induction es generalizing before with
  | nil => trivial
  | cons e es ih =>
    refine ⟨(hsame e mem_cons_self).trans h.1, ih h.2 ?_⟩
    intro x hx
    exact hsame x (mem_cons_of_mem e hx)

def addresses (es : List (ℕ × β)) : List ℕ := es.map Prod.fst

@[simp] theorem addresses_append (es es' : List (ℕ × β)) :
    addresses (es ++ es') = addresses es ++ addresses es' := by
  simp [addresses]

@[simp] theorem addresses_cons (e : ℕ × β) (es : List (ℕ × β)) :
    addresses (e :: es) = e.1 :: addresses es := rfl

@[simp] theorem addresses_nil : addresses ([] : List (ℕ × β)) = [] := rfl

variable {e : ℕ × β}

theorem mem_addresses (h : e ∈ es) :
    e.1 ∈ addresses es := mem_map_of_mem h

theorem Seg.write (h : Seg heap before es after) {p : ℕ}
    (hp : p ∉ addresses es) (node : Node β) :
    Seg (heap.write p node) before es after := by
  refine h.frame fun e he => Heap.write_of_ne ?_ node
  rintro rfl
  exact hp (mem_addresses he)

theorem write_of_mem {p : ℕ} (hp : p ∈ addresses es) (node : Node β) :
    ∀ q ∉ addresses es, heap.write p node q = heap q := by
  intro q hq
  apply Heap.write_of_ne
  rintro rfl
  exact hq hp

theorem Seg.erase (h : Seg heap before es after) {p : ℕ}
    (hp : p ∉ addresses es) : Seg (heap.erase p) before es after := by
  refine h.frame fun e he => Heap.erase_of_ne ?_
  rintro rfl
  exact hp (mem_addresses he)

theorem Seg.setNext_last (h : Seg heap before es after)
    (hnodup : (addresses es).Nodup) (q : Option ℕ) :
    ∃ heap', heap.setNextIf (lastPtr es) q = some heap' ∧
      Seg heap' before es q ∧ ∀ p ∉ addresses es, heap' p = heap p := by
  cases es using List.reverseRecOn with
  | nil => exact ⟨heap, rfl, trivial, fun _ _ => rfl⟩
  | append_singleton es e =>
    obtain ⟨hinit, hlast, -⟩ := seg_append.mp h
    refine ⟨heap.write e.1 ⟨(lastPtr es).or before, q, e.2⟩, ?_, ?_, ?_⟩
    · rw [lastPtr_concat, Heap.setNextIf, Heap.setNext_of_some hlast]
    · rw [addresses_append, nodup_append_comm] at hnodup
      refine seg_append.mpr ⟨hinit.write ?_ _, by simp, trivial⟩
      exact (nodup_cons.mp hnodup).1
    · exact write_of_mem (by simp) _

theorem Seg.setPrev_first (h : Seg heap before es after)
    (hnodup : (addresses es).Nodup) (q : Option ℕ) :
    ∃ heap', heap.setPrevIf (firstPtr es) q = some heap' ∧
      Seg heap' q es after ∧ ∀ p ∉ addresses es, heap' p = heap p := by
  cases es with
  | nil => exact ⟨heap, rfl, trivial, fun _ _ => rfl⟩
  | cons e es =>
    obtain ⟨hfirst, hrest⟩ := h
    refine ⟨heap.write e.1 ⟨q, (firstPtr es).or after, e.2⟩, ?_, ?_, ?_⟩
    · rw [firstPtr_cons, Heap.setPrevIf, Heap.setPrev_of_some hfirst]
    · exact ⟨by simp, hrest.write (nodup_cons.mp hnodup).1 _⟩
    · exact write_of_mem (by simp) _

theorem Seg.unlink {xs ys : List (ℕ × β)}
    (h : Seg heap none (xs ++ e :: ys) none)
    (hnodup : (addresses (xs ++ ys)).Nodup) :
    ∃ heap₁ heap₂,
      heap.setNextIf (lastPtr xs) (firstPtr ys) = some heap₁ ∧
      heap₁.setPrevIf (firstPtr ys) (lastPtr xs) = some heap₂ ∧
      Seg heap₂ none (xs ++ ys) none ∧
      ∀ p ∉ addresses (xs ++ ys), heap₂ p = heap p := by
  obtain ⟨hbefore, -, hafter⟩ := seg_append.mp h
  rw [addresses_append] at hnodup ⊢
  obtain ⟨hndxs, hndys, hdisjoint⟩ := nodup_append.mp hnodup
  obtain ⟨heap₁, hset₁, hbefore₁, hsame₁⟩ :=
    hbefore.setNext_last hndxs (firstPtr ys)
  have hafter₁ : Seg heap₁ (some e.1) ys none :=
    hafter.frame fun x hx => hsame₁ x.1 fun hmem =>
      hdisjoint x.1 hmem x.1 (mem_addresses hx) rfl
  obtain ⟨heap₂, hset₂, hafter₂, hsame₂⟩ :=
    hafter₁.setPrev_first hndys (lastPtr xs)
  have hbefore₂ : Seg heap₂ none xs (firstPtr ys) :=
    hbefore₁.frame fun x hx => hsame₂ x.1 fun hmem =>
      hdisjoint x.1 (mem_addresses hx) x.1 hmem rfl
  refine ⟨heap₁, heap₂, hset₁, hset₂, seg_append.mpr ⟨?_, ?_⟩, ?_⟩
  · rwa [Option.or_none]
  · rwa [Option.or_none]
  · intro p hp
    rw [mem_append, not_or] at hp
    exact (hsame₂ p hp.2).trans (hsame₁ p hp.1)

/-! ## Lists -/

/-- A list with its pointers to the first and the last node. -/
structure IsList (heap : Heap β) (head tail : Option ℕ)
    (es : List (ℕ × β)) : Prop where
  seg : Seg heap none es none
  head_eq : head = firstPtr es
  tail_eq : tail = lastPtr es
  nodup : (addresses es).Nodup

theorem isList_of_parts {heap : Heap β} {head tail : Option ℕ}
    {xs ys : List (ℕ × β)} {e : ℕ × β} (hxs : Seg heap none xs (some e.1))
    (he : heap e.1 = some ⟨lastPtr xs, firstPtr ys, e.2⟩)
    (hys : Seg heap (some e.1) ys none)
    (hhead : head = (firstPtr xs).or (some e.1))
    (htail : tail = (lastPtr ys).or (some e.1))
    (hnodup : (addresses (xs ++ e :: ys)).Nodup) :
    IsList heap head tail (xs ++ e :: ys) where
  seg := by
    refine seg_append.mpr ⟨by simpa using hxs, ?_, ?_⟩
    · simpa using he
    · exact hys
  head_eq := by rw [hhead, firstPtr_append, firstPtr_cons]
  tail_eq := by
    rw [htail, lastPtr_append_cons, lastPtr_cons]
  nodup := hnodup

namespace IsList

variable {heap : Heap β} {head tail : Option ℕ}

variable {xs ys : List (ℕ × β)}

section

variable (h : IsList heap head tail (xs ++ e :: ys))

include h

theorem node_eq : heap e.1 = some ⟨lastPtr xs, firstPtr ys, e.2⟩ := by
  obtain ⟨-, hnode, -⟩ := seg_append.mp h.seg
  simpa using hnode

theorem parts :
    (Seg heap none xs (some e.1) ∧ Seg heap (some e.1) ys none) ∧
      e.1 ∉ addresses xs ∧ e.1 ∉ addresses ys ∧
        (addresses xs ++ addresses ys).Nodup := by
  obtain ⟨hxs, -, hys⟩ := seg_append.mp h.seg
  have hnodup := h.nodup
  rw [addresses_append, addresses_cons, nodup_middle, nodup_cons,
    mem_append, not_or] at hnodup
  exact ⟨⟨by simpa using hxs, hys⟩, hnodup.1.1, hnodup.1.2, hnodup.2⟩

theorem unlink :
    ∃ heap₁ heap₂,
      heap.setNextIf (lastPtr xs) (firstPtr ys) = some heap₁ ∧
      heap₁.setPrevIf (firstPtr ys) (lastPtr xs) = some heap₂ ∧
      IsList (heap₂.erase e.1)
        (if head = some e.1 then firstPtr ys else head)
        (if tail = some e.1 then lastPtr xs else tail) (xs ++ ys) := by
  obtain ⟨-, hxs, hys, hparts⟩ := h.parts
  rw [← addresses_append] at hparts
  obtain ⟨heap₁, heap₂, hset₁, hset₂, hseg, -⟩ := h.seg.unlink hparts
  refine ⟨heap₁, heap₂, hset₁, hset₂, hseg.erase ?_, ?_, ?_, hparts⟩
  · rw [addresses_append, mem_append, not_or]
    exact ⟨hxs, hys⟩
  · rw [h.head_eq, firstPtr_append, firstPtr_append]
    cases xs with
    | nil => simp
    | cons x xs =>
      have hne : x.1 ≠ e.1 := fun heq => hxs (by simp [heq])
      simp [hne]
  · rw [h.tail_eq, lastPtr_append_cons]
    cases ys using List.reverseRecOn with
    | nil => simp [lastPtr]
    | append_singleton ys y =>
      have hne : y.1 ≠ e.1 := fun heq => hys (by simp [heq])
      rw [← cons_append, lastPtr_concat, ← append_assoc,
        lastPtr_concat, if_neg (by simpa using hne)]

theorem setVal (v : β) :
    IsList (heap.write e.1 ⟨lastPtr xs, firstPtr ys, v⟩) head tail
      (xs ++ (e.1, v) :: ys) := by
  obtain ⟨⟨hbefore, hafter⟩, hxs, hys, -⟩ := h.parts
  refine isList_of_parts (hbefore.write hxs _) (by simp) (hafter.write hys _)
    ?_ ?_ ?_
  · rw [h.head_eq, firstPtr_append, firstPtr_cons]
  · rw [h.tail_eq, lastPtr_append_cons, lastPtr_cons]
  · have hnodup := h.nodup
    rw [addresses_append, addresses_cons] at hnodup ⊢
    exact hnodup

end

section Insertion

variable {n : ℕ} {v : β}

theorem nodup_insert {xs ys : List (ℕ × β)}
    (h : IsList heap head tail (xs ++ ys)) (hn : n ∉ addresses (xs ++ ys)) :
    (addresses (xs ++ (n, v) :: ys)).Nodup := by
  rw [addresses_append, addresses_cons, nodup_middle, nodup_cons,
    ← addresses_append]
  exact ⟨hn, h.nodup⟩

variable (hnode : heap n = some ⟨none, none, v⟩)

include hnode

theorem pushFront {y : ℕ × β} {ys : List (ℕ × β)}
    (h : IsList heap head tail (y :: ys)) (hn : n ∉ addresses (y :: ys)) :
    ∃ heap₁ heap₂,
      heap.setNext n head = some heap₁ ∧
      heap₁.setPrev y.1 (some n) = some heap₂ ∧
      IsList heap₂ (some n) tail ((n, v) :: y :: ys) := by
  have hhead : head = some y.1 := h.head_eq
  have hys : Seg (heap.write n ⟨none, head, v⟩) none (y :: ys) none :=
    h.seg.write hn _
  obtain ⟨heap₂, hset₂, hys₂, hsame₂⟩ := hys.setPrev_first h.nodup (some n)
  refine ⟨_, heap₂, Heap.setNext_of_some hnode head, hset₂, ?_⟩
  refine @isList_of_parts β heap₂ _ _ [] (y :: ys) (n, v) trivial ?_ hys₂ rfl
    ?_ (@nodup_insert β heap head tail n v [] (y :: ys) h hn)
  · rw [hsame₂ n hn, Heap.write_self, hhead]
    rfl
  · rw [h.tail_eq]
    exact (lastPtr_cons_or y ys (some n)).symm

theorem pushBack {xs : List (ℕ × β)} {x : ℕ × β}
    (h : IsList heap head tail (xs ++ [x])) (hn : n ∉ addresses (xs ++ [x])) :
    ∃ heap₁ heap₂,
      heap.setNext x.1 (some n) = some heap₁ ∧
      heap₁.setPrev n (some x.1) = some heap₂ ∧
      IsList heap₂ head (some n) (xs ++ [x] ++ [(n, v)]) := by
  obtain ⟨heap₁, hset₁, hxs₁, hsame₁⟩ := h.seg.setNext_last h.nodup (some n)
  rw [lastPtr_concat] at hset₁
  have hnode₁ : heap₁ n = some ⟨none, none, v⟩ := (hsame₁ n hn).trans hnode
  refine ⟨heap₁, _, hset₁, Heap.setPrev_of_some hnode₁ _, ?_⟩
  refine isList_of_parts (hxs₁.write hn _) (by simp) trivial ?_ rfl ?_
  · rw [h.head_eq]
    cases xs <;> rfl
  · refine @nodup_insert β heap head tail n v (xs ++ [x]) [] ?_ ?_
    · rwa [append_nil]
    · rwa [append_nil]

theorem insertBetween {x y : ℕ × β}
    (h : IsList heap head tail (xs ++ [x] ++ y :: ys))
    (hn : n ∉ addresses (xs ++ [x] ++ y :: ys)) :
    ∃ heap₁ heap₂ heap₃ heap₄,
      heap.setPrev y.1 (some n) = some heap₁ ∧
      heap₁.setNext n (some y.1) = some heap₂ ∧
      heap₂.setNext x.1 (some n) = some heap₃ ∧
      heap₃.setPrev n (some x.1) = some heap₄ ∧
      IsList heap₄ head tail (xs ++ [x] ++ (n, v) :: y :: ys) := by
  obtain ⟨hbefore, hafter⟩ := seg_append.mp h.seg
  have hnodup := h.nodup
  rw [addresses_append] at hnodup hn
  obtain ⟨hndxs, hndys, hdisjoint⟩ := nodup_append.mp hnodup
  rw [mem_append, not_or] at hn
  obtain ⟨hnxs, hnys⟩ := hn
  obtain ⟨heap₁, hset₁, hafter₁, hsame₁⟩ := hafter.setPrev_first hndys (some n)
  have hnode₁ : heap₁ n = some ⟨none, none, v⟩ := (hsame₁ n hnys).trans hnode
  have hset₂ := Heap.setNext_of_some hnode₁ (some y.1)
  have hbefore₂ : Seg (heap₁.write n ⟨none, some y.1, v⟩) none (xs ++ [x])
      (some y.1) := by
    refine Seg.write (hbefore.frame fun e he => hsame₁ e.1 ?_) hnxs _
    exact fun hmem => hdisjoint e.1 (mem_addresses he) e.1 hmem rfl
  obtain ⟨heap₃, hset₃, hbefore₃, hsame₃⟩ :=
    hbefore₂.setNext_last hndxs (some n)
  rw [lastPtr_concat] at hset₃
  have hnode₃ : heap₃ n = some ⟨none, some y.1, v⟩ := by
    rw [hsame₃ n hnxs, Heap.write_self]
  refine ⟨heap₁, _, heap₃, _, hset₁, hset₂, hset₃,
    Heap.setPrev_of_some hnode₃ _, ?_⟩
  have hafter₃ : Seg heap₃ (some n) (y :: ys) none :=
    (hafter₁.write hnys _).frame fun e he => hsame₃ e.1
      fun hmem => hdisjoint e.1 hmem e.1 (mem_addresses he) rfl
  refine isList_of_parts (hbefore₃.write hnxs _) (by simp)
    (hafter₃.write hnys _) ?_ ?_ ?_
  · rw [h.head_eq]
    cases xs <;> rfl
  · rw [h.tail_eq, lastPtr_append_cons]
    exact (lastPtr_cons_or y ys (some n)).symm
  · refine nodup_insert h ?_
    rw [addresses_append, mem_append, not_or]
    exact ⟨hnxs, hnys⟩

end Insertion

end IsList

end UnrealIrcd.Support
