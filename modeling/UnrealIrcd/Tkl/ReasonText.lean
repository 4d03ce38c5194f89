import Mathlib.Data.List.Chain

/-!
# Spaces in the reason of a spamfilter

A reason is sent as one word: `unreal_encodespace` of `src/misc.c` makes an
underscore of a space and two of an underscore, and `unreal_decodespace` reads
it.  Two spaces look like an underscore.
-/

namespace UnrealIrcd.Tkl

open List

/-- The loop of `unreal_decodespace`, with room for `n` characters. -/
def decodeLoop : ℕ → List Char → List Char
  | _, [] => []
  | 0, _ :: _ => []
  | n + 1, '_' :: '_' :: s => '_' :: decodeLoop n s
  | n + 1, c :: s => (if c = '_' then ' ' else c) :: decodeLoop n s

/-- `unreal_decodespace`, with a buffer of `size` bytes. -/
def unrealDecodespace (size : ℕ) (s : List Char) : List Char :=
  decodeLoop (size - 2) s

def encodeChar (c : Char) : List Char :=
  if c = ' ' then ['_'] else if c = '_' then ['_', '_'] else [c]

/-- The loop of `unreal_encodespace`, with `n` characters before its limit. -/
def encodeLoop : ℕ → List Char → List Char
  | _, [] => []
  | 0, _ :: _ => []
  | n + 1, c :: s =>
    encodeChar c ++ encodeLoop (n + 1 - (encodeChar c).length) s

/-- `unreal_encodespace`, with a buffer of `size` bytes. -/
def unrealEncodespace (size : ℕ) (s : Option (List Char)) :
    Option (List Char) :=
  s.map (encodeLoop (size - 3))

/-- No space has a space or an underscore behind it. -/
def Separated (s : List Char) : Prop :=
  s.IsChain fun c d => c = ' ' → d ≠ ' ' ∧ d ≠ '_'

variable {n : ℕ} {s : List Char}

theorem length_encodeChar_pos (c : Char) : 0 < (encodeChar c).length := by
  unfold encodeChar
  split_ifs <;> exact Nat.succ_pos _

theorem encodeLoop_eq (h : (s.flatMap encodeChar).length ≤ n) :
    encodeLoop n s = s.flatMap encodeChar := by
  induction s generalizing n with
  | nil => rfl
  | cons c s ih =>
    rw [flatMap_cons, length_append] at h
    have hpos := length_encodeChar_pos c
    obtain ⟨n, rfl⟩ := Nat.exists_eq_succ_of_ne_zero (by omega : n ≠ 0)
    rw [encodeLoop, ih (by omega), flatMap_cons]

theorem decodeLoop_cons {c : Char} (h : c = '_' → s.head? ≠ some '_') :
    decodeLoop (n + 1) (c :: s) =
      (if c = '_' then ' ' else c) :: decodeLoop n s := by
  rw [decodeLoop]
  rintro s rfl rfl
  exact h rfl rfl

theorem decodeLoop_flatMap_iff (h : (s.flatMap encodeChar).length ≤ n) :
    decodeLoop n (s.flatMap encodeChar) = s ↔ Separated s := by
  unfold Separated
  induction s generalizing n with
  | nil => simp [decodeLoop]
  | cons c s ih =>
    rw [flatMap_cons, length_append] at h
    have hpos := length_encodeChar_pos c
    obtain ⟨n, rfl⟩ := Nat.exists_eq_succ_of_ne_zero (by omega : n ≠ 0)
    have ih := @ih n (by omega)
    rw [flatMap_cons]
    by_cases hspace : c = ' '
    · subst hspace
      cases s with
      | nil => simp [encodeChar, decodeLoop]
      | cons d s =>
        rw [isChain_cons_cons, ← ih, flatMap_cons]
        by_cases hd : d = ' ' ∨ d = '_'
        · -- two underscores are read as one
          rcases hd with rfl | rfl <;> simp [encodeChar, decodeLoop]
        · obtain ⟨hspace, hunder⟩ := not_or.mp hd
          have hchar : encodeChar d = [d] := by
            simp [encodeChar, hspace, hunder]
          rw [encodeChar, if_pos rfl, singleton_append, decodeLoop_cons]
          · simp [hspace, hunder]
          · simp [hchar, hunder]
    · have hchain : IsChain (fun c d => c = ' ' → d ≠ ' ' ∧ d ≠ '_') (c :: s) ↔
          s.IsChain fun c d => c = ' ' → d ≠ ' ' ∧ d ≠ '_' := by
        cases s <;> simp [isChain_cons_cons, hspace]
      rw [hchain, ← ih]
      by_cases hunder : c = '_'
      · simp [hunder, encodeChar, decodeLoop]
      · rw [encodeChar, if_neg hspace, if_neg hunder, singleton_append,
          decodeLoop_cons (absurd · hunder), if_neg hunder, cons_inj_right]

/-- A reason that fits comes back exactly if no space in it has a space or an
underscore behind it. -/
theorem unrealDecodespace_unrealEncodespace_iff (size : ℕ) (s : List Char)
    (h : (s.flatMap encodeChar).length + 3 ≤ size) :
    (unrealEncodespace size (some s)).map (unrealDecodespace size) = some s ↔
      Separated s := by
  simp only [unrealEncodespace, unrealDecodespace, Option.map_some,
    Option.some_inj]
  rw [encodeLoop_eq (by omega)]
  exact decodeLoop_flatMap_iff (by omega)

theorem unrealDecodespace_word :
    (unrealEncodespace 512 (some ['a', ' ', 'b'])).map
      (unrealDecodespace 512) = some ['a', ' ', 'b'] :=
  (unrealDecodespace_unrealEncodespace_iff 512 _ (by decide)).mpr
    (by simp [Separated])

/-- Two spaces come back as an underscore. -/
theorem unrealDecodespace_spaces :
    (unrealEncodespace 512 (some [' ', ' '])).map (unrealDecodespace 512) =
      some ['_'] := rfl

end UnrealIrcd.Tkl
