import Mathlib.Data.List.Nodup

/-!
# Keys

Nick names are compared and hashed by their folded characters.  The folding and
the keyed hash function are not fixed here.

A linked list is searched for the first entry with a given key, and that entry is
unlinked.  While the keys of the list are distinct this takes out exactly the
entries with the key, wherever they stand.
-/

namespace UnrealIrcd.Support

open List

/-- Upper and lower case, and a keyed hash.  Comparison and hash look at the
folded characters only. -/
structure Casing where
  fold : Char → Char
  siphash : List Char → ℕ

namespace Casing

variable {C : Casing}

/-- What comparison and hash see of a name. -/
def key (C : Casing) (name : List Char) : List Char := name.map C.fold

/-- `!mycmp(a, b)`. -/
def same (C : Casing) (a b : List Char) : Bool := C.key a = C.key b

/-- `siphash_nocase` into a table. -/
def bucket (C : Casing) (size : ℕ) (name : List Char) : ℕ :=
  C.siphash (C.key name) % size

theorem same_iff {a b : List Char} : C.same a b = true ↔ C.key a = C.key b := by
  simp [same]

theorem bucket_eq {a b : List Char} (h : C.key a = C.key b) (size : ℕ) :
    C.bucket size a = C.bucket size b := by
  unfold bucket
  rw [h]

end Casing

/-! ## Lists with distinct keys -/

universe u v

variable {α : Type u} {κ : Type v} [DecidableEq κ] {key : α → κ}
  {l : List α} {k : κ}

/-- The list without its first entry with the key. -/
def eraseKey (key : α → κ) (k : κ) (l : List α) : List α :=
  l.eraseP (fun a => key a = k)

theorem mem_eraseKey (hl : (l.map key).Nodup) {a : α} :
    a ∈ eraseKey key k l ↔ a ∈ l ∧ key a ≠ k := by
  induction l with
  | nil => simp [eraseKey]
  | cons b l ih =>
    rw [map_cons, nodup_cons] at hl
    unfold eraseKey at ih ⊢
    by_cases hb : key b = k
    · rw [eraseP_cons_of_pos (by simpa using hb)]
      subst hb
      constructor
      · intro ha
        refine ⟨mem_cons_of_mem _ ha, fun heq => hl.1 ?_⟩
        exact heq ▸ mem_map_of_mem ha
      · rintro ⟨ha, hne⟩
        rcases mem_cons.mp ha with rfl | ha
        · exact absurd rfl hne
        · exact ha
    · rw [eraseP_cons_of_neg (by simpa using hb), mem_cons, ih hl.2, mem_cons]
      constructor
      · rintro (rfl | ⟨ha, hne⟩)
        · exact ⟨.inl rfl, hb⟩
        · exact ⟨.inr ha, hne⟩
      · rintro ⟨rfl | ha, hne⟩
        · exact .inl rfl
        · exact .inr ⟨ha, hne⟩

theorem nodup_eraseKey (hl : (l.map key).Nodup) :
    ((eraseKey key k l).map key).Nodup :=
  hl.sublist ((eraseP_sublist).map key)

theorem length_eraseKey {a : α} (ha : a ∈ l) (hk : key a = k) :
    (eraseKey key k l).length + 1 = l.length := by
  have hlen := length_eraseP_of_mem (p := fun a => decide (key a = k)) ha
    (by simpa using hk)
  have hpos := length_pos_of_mem ha
  unfold eraseKey
  omega

/-- The walk stops at the entry itself: none before it has its key. -/
theorem eraseKey_append_cons {xs ys : List α} {a : α}
    (hl : ((xs ++ a :: ys).map key).Nodup) :
    eraseKey key (key a) (xs ++ a :: ys) = xs ++ ys := by
  unfold eraseKey
  rw [eraseP_append_right]
  · rw [eraseP_cons_of_pos (by simp)]
  · intro b hb
    rw [map_append, map_cons, nodup_append] at hl
    have hne := hl.2.2 (key b) (mem_map_of_mem hb) (key a)
      mem_cons_self
    simpa using hne

/-- A walk with a narrower test stops at the same entry. -/
theorem eraseP_eq_eraseKey (hl : (l.map key).Nodup) {p : α → Bool} {a : α}
    (ha : a ∈ l) (hpa : p a = true) (hp : ∀ b ∈ l, p b = true → key b = key a) :
    l.eraseP p = eraseKey key (key a) l := by
  obtain ⟨xs, ys, rfl⟩ := append_of_mem ha
  rw [eraseKey_append_cons hl, eraseP_append_right]
  · rw [eraseP_cons_of_pos hpa]
  · intro b hb hpb
    rw [map_append, map_cons, nodup_append] at hl
    exact hl.2.2 (key b) (mem_map_of_mem hb) (key a) mem_cons_self
      (hp b (mem_append_left _ hb) hpb)

end UnrealIrcd.Support
