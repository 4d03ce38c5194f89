import Mathlib.Data.List.TakeWhile
import Mathlib.Algebra.BigOperators.Group.List.Basic
import Mathlib.Algebra.GroupWithZero.Nat

/-!
# C strings

String functions of the C library and the usual additions to it, on the
characters before the terminating NUL.  A destination buffer is a list and the
size of the buffer, which includes the NUL.  The last one is `bsearch`, with the
comparison of the key with an entry as a parameter.
-/

namespace UnrealIrcd.Support

open List

/-- What `snprintf` leaves of its output in a buffer of `size` bytes. -/
def snprintf (size : ℕ) (output : List Char) : List Char :=
  output.take (size - 1)

/-- `strlcat`: append as much of `src` as fits. -/
def strlcat (dst src : List Char) (size : ℕ) : List Char :=
  if size ≤ dst.length then dst
  else dst ++ src.take (size - (dst.length + 1))

def strcasecmpEq (s t : List Char) : Bool :=
  s.map Char.toLower == t.map Char.toLower

def strcasecmp (s t : List Char) : Ordering :=
  compare (s.map Char.toLower) (t.map Char.toLower)

/-- The part of a buffer before its first NUL. -/
def cstring (buf : List Char) : List Char :=
  buf.takeWhile (· != '\x00')

theorem bne_of_not_mem {c : Char} {s : List Char} (h : c ∉ s) :
    ∀ d ∈ s, (d != c) = true := by
  intro d hd
  rw [bne_iff_ne]
  rintro rfl
  exact h hd

theorem takeWhile_bne_append {c : Char} {s t : List Char} (h : c ∉ s) :
    (s ++ c :: t).takeWhile (· != c) = s := by
  rw [takeWhile_append_of_pos (bne_of_not_mem h)]
  simp

theorem dropWhile_bne_append {c : Char} {s t : List Char} (h : c ∉ s) :
    (s ++ c :: t).dropWhile (· != c) = c :: t := by
  rw [dropWhile_append_of_pos (bne_of_not_mem h)]
  simp

theorem cstring_append {s : List Char} (hs : '\x00' ∉ s) (t : List Char) :
    cstring (s ++ t) = s ++ cstring t :=
  takeWhile_append_of_pos (bne_of_not_mem hs)

theorem cstring_eq_self {s : List Char} (hs : '\x00' ∉ s) : cstring s = s := by
  have hnil : cstring (s ++ []) = s ++ [] := cstring_append hs []
  rwa [append_nil] at hnil

theorem snprintf_eq_self
    {size : ℕ} {output : List Char} (h : output.length < size) :
    snprintf size output = output :=
  take_of_length_le (by omega)

section Strlcat

variable {dst src : List Char} {size : ℕ}

theorem length_strlcat_lt (h : dst.length < size) :
    (strlcat dst src size).length < size := by
  rw [strlcat, if_neg (by omega)]
  simp only [length_append, length_take]
  omega

theorem length_strlcat_le :
    (strlcat dst src size).length ≤ dst.length + src.length := by
  unfold strlcat
  split
  · omega
  · simp only [length_append, length_take]
    omega

theorem strlcat_eq_append (h : dst.length + src.length < size) :
    strlcat dst src size = dst ++ src := by
  rw [strlcat, if_neg (by omega), take_of_length_le (by omega)]

theorem mem_of_mem_strlcat {c : Char} (h : c ∈ strlcat dst src size) :
    c ∈ dst ∨ c ∈ src := by
  unfold strlcat at h
  split at h
  · exact .inl h
  · exact (mem_append.mp h).imp_right mem_of_mem_take

end Strlcat

/-- `strtoken`: the first token and what is left to scan after it. -/
def strtoken (isSep : Char → Bool) (s : List Char) :
    Option (List Char × List Char) :=
  let pos := s.dropWhile isSep
  if pos = [] then none
  else
    some (pos.takeWhile (fun c => !isSep c),
      (pos.dropWhile (fun c => !isSep c)).drop 1)

variable {s token rest : List Char}

/-- A token is a nonempty stretch without separators, found behind skipped
separators; the scan goes on one character behind its end. -/
theorem strtoken_eq_some {isSep : Char → Bool}
    (h : strtoken isSep s = some (token, rest)) :
    token ≠ [] ∧ (∀ c ∈ token, isSep c = false) ∧
      ∃ skipped tail, s = skipped ++ (token ++ tail) ∧
        rest = tail.drop 1 := by
  simp only [strtoken] at h
  split at h
  · cases h
  · next hne =>
      cases h
      refine ⟨?_, ?_, s.takeWhile isSep,
        (s.dropWhile isSep).dropWhile (fun c => !isSep c), ?_, rfl⟩
      · obtain ⟨c, pos, hc⟩ := exists_cons_of_ne_nil hne
        have hsep : isSep c = false := by
          have hhead := head_dropWhile_not isSep hne
          simpa [hc] using hhead
        simp [hc, hsep]
      · intro c hc
        simpa using mem_takeWhile_imp hc
      · rw [takeWhile_append_dropWhile, takeWhile_append_dropWhile]

/-- Repeated calls of `strtoken`, at most `n`. -/
def strtokensLoop (isSep : Char → Bool) : ℕ → List Char → List (List Char)
  | 0, _ => []
  | n + 1, s =>
    match strtoken isSep s with
    | none => []
    | some (token, rest) => token :: strtokensLoop isSep n rest

/-- All tokens of a string, from repeated calls of `strtoken`. -/
def strtokens (isSep : Char → Bool) (s : List Char) : List (List Char) :=
  strtokensLoop isSep s.length s

section Strtoken

variable {isSep : Char → Bool}

theorem length_lt_of_strtoken (h : strtoken isSep s = some (token, rest)) :
    rest.length < s.length := by
  obtain ⟨hne, -, skipped, tail, rfl, rfl⟩ := strtoken_eq_some h
  have hpos := length_pos_iff.mpr hne
  simp only [length_append, length_drop]
  omega

theorem strtokensLoop_of_length_le {n : ℕ} {s : List Char} (h : s.length ≤ n) :
    strtokensLoop isSep n s = strtokens isSep s := by
  have hloop : ∀ n m (s : List Char), s.length ≤ n → s.length ≤ m →
      strtokensLoop isSep n s = strtokensLoop isSep m s := by
    intro n
    induction n with
    | zero =>
      intro m s hn _
      obtain rfl := length_eq_zero_iff.mp (Nat.le_zero.mp hn)
      cases m with
      | zero | succ m => rfl
    | succ n ih =>
      intro m s hn hm
      cases m with
      | zero =>
        obtain rfl := length_eq_zero_iff.mp (Nat.le_zero.mp hm)
        rfl
      | succ m =>
        rw [strtokensLoop, strtokensLoop]
        cases htoken : strtoken isSep s with
        | none => rfl
        | some found =>
          have hlt := length_lt_of_strtoken htoken
          simp only [ih m found.2 (by omega) (by omega)]
  exact hloop n s.length s h (Nat.le_refl _)

theorem strtokens_of_strtoken (h : strtoken isSep s = some (token, rest)) :
    strtokens isSep s = token :: strtokens isSep rest := by
  have hlt := length_lt_of_strtoken h
  rw [← strtokensLoop_of_length_le (Nat.le_succ s.length), strtokensLoop, h]
  exact congrArg _ (strtokensLoop_of_length_le hlt.le)

/-- Induction along the tokens of a string. -/
theorem strtokens_rule (P : List Char → List (List Char) → Prop)
    (hnone : ∀ s, strtoken isSep s = none → P s [])
    (hsome : ∀ s token rest, strtoken isSep s = some (token, rest) →
      P rest (strtokens isSep rest) → P s (token :: strtokens isSep rest))
    (s : List Char) : P s (strtokens isSep s) := by
  induction hlen : s.length using Nat.strong_induction_on generalizing s with
  | h n ih =>
    cases htoken : strtoken isSep s with
    | none =>
      rw [← strtokensLoop_of_length_le (Nat.le_succ _), strtokensLoop, htoken]
      exact hnone s htoken
    | some found =>
      rw [strtokens_of_strtoken htoken]
      have hlt := length_lt_of_strtoken htoken
      exact hsome s found.1 found.2 htoken
        (ih found.2.length (hlen ▸ hlt) found.2 rfl)

@[simp] theorem strtokens_nil : strtokens isSep [] = [] := rfl

section Append

variable (hne : token ≠ []) (htoken : ∀ c ∈ token, isSep c = false)

include hne htoken

/-- A token at the front ends at a separator or with the string. -/
theorem strtoken_append (hrest : ∀ c ∈ rest.head?, isSep c = true) :
    strtoken isSep (token ++ rest) = some (token, rest.drop 1) := by
  obtain ⟨c, token, rfl⟩ := exists_cons_of_ne_nil hne
  have hc : isSep c = false := htoken c (by simp)
  have htake : ∀ d ∈ c :: token, (!isSep d) = true := by
    intro d hd
    simp [htoken d hd]
  have hskip : (c :: token ++ rest).dropWhile isSep = c :: token ++ rest := by
    simp [hc]
  simp only [strtoken, hskip]
  rw [takeWhile_append_of_pos htake, dropWhile_append_of_pos htake]
  cases rest with
  | nil => simp
  | cons sep rest => simp [hrest sep rfl]

theorem strtokens_append_cons
    {sep : Char} (rest : List Char) (hsep : isSep sep = true) :
    strtokens isSep (token ++ sep :: rest) =
      token :: strtokens isSep rest :=
  strtokens_of_strtoken (strtoken_append hne htoken (by simpa using hsep))

theorem strtokens_last : strtokens isSep token = [token] := by
  have h := @strtoken_append token [] isSep hne htoken nofun
  rw [append_nil] at h
  exact strtokens_of_strtoken h

end Append

theorem sum_length_strtokens_le (s : List Char) :
    ((strtokens isSep s).map (fun token => token.length + 1)).sum ≤
      s.length + 1 := by
  apply strtokens_rule fun s tokens =>
    (tokens.map fun token => token.length + 1).sum ≤ s.length + 1
  · intro s _
    simp
  · intro s token rest hsome ih
    obtain ⟨-, -, skipped, tail, rfl, rfl⟩ := strtoken_eq_some hsome
    cases tail with
    | nil =>
      simp only [drop_nil, strtokens_nil, map_cons, map_nil,
        sum_cons, sum_nil, length_append, length_nil]
      omega
    | cons sep tail =>
      simp only [drop_succ_cons, drop_zero, map_cons,
        sum_cons, length_append, length_cons] at ih ⊢
      omega

theorem mem_of_mem_strtokens
    {s token : List Char} (htoken : token ∈ strtokens isSep s) :
    ∀ c ∈ token, c ∈ s ∧ isSep c = false := by
  revert token
  apply strtokens_rule fun s tokens => ∀ token ∈ tokens,
    ∀ c ∈ token, c ∈ s ∧ isSep c = false
  · intro s _ token htoken
    simp at htoken
  · intro s first rest hsome ih token htoken c hc
    obtain ⟨-, hfirst, skipped, tail, rfl, rfl⟩ := strtoken_eq_some hsome
    rcases mem_cons.mp htoken with rfl | hlater
    · exact ⟨by simp [hc], hfirst c hc⟩
    · obtain ⟨hmem, hsep⟩ := ih token hlater c hc
      have htail : c ∈ tail := mem_of_mem_drop hmem
      exact ⟨by simp [htail], hsep⟩

section FlatMap

variable {sep : Char} (hsep : isSep sep = true) {tokens : List (List Char)}
  (hne : ∀ t ∈ tokens, t ≠ [])
  (hword : ∀ t ∈ tokens, ∀ c ∈ t, isSep c = false)

include hsep hne hword

/-- Tokens that each have a separator behind them are cut again. -/
theorem strtokens_flatMap :
    strtokens isSep (tokens.flatMap fun t => t ++ [sep]) = tokens := by
  induction tokens with
  | nil => rfl
  | cons t tokens ih =>
    rw [flatMap_cons, append_assoc, singleton_append,
      strtokens_append_cons (hne t (by simp)) (hword t (by simp)) _ hsep,
      ih (fun u hu => hne u (by simp [hu]))
        (fun u hu => hword u (by simp [hu]))]

/-- The separator behind the last token may be missing. -/
theorem strtokens_dropLast_flatMap :
    strtokens isSep (tokens.flatMap fun t => t ++ [sep]).dropLast =
      tokens := by
  induction tokens with
  | nil => rfl
  | cons t tokens ih =>
    have ht := hne t (by simp)
    have hword' := hword t (by simp)
    cases tokens with
    | nil =>
      rw [flatMap_cons, flatMap_nil, append_nil,
        dropLast_concat, strtokens_last ht hword']
    | cons t' tokens =>
      have hrest : (t' :: tokens).flatMap (fun t => t ++ [sep]) ≠ [] := by
        simp
      rw [flatMap_cons, dropLast_append_of_ne_nil hrest,
        append_assoc, singleton_append,
        strtokens_append_cons ht hword' _ hsep,
        ih (fun u hu => hne u (by simp [hu]))
          (fun u hu => hword u (by simp [hu]))]

end FlatMap

end Strtoken

/-! ## Words -/

/-- A text that is one token of a line. -/
def IsWord (w : List Char) : Prop := w ≠ [] ∧ ' ' ∉ w

theorem IsWord.take {w : List Char} (h : IsWord w) {n : ℕ} (hn : n ≠ 0) :
    IsWord (w.take n) := by
  refine ⟨fun hnil => ?_, fun hmem => h.2 (mem_of_mem_take hmem)⟩
  rcases take_eq_nil_iff.mp hnil with hzero | hnil
  · exact hn hzero
  · exact h.1 hnil

theorem IsWord.not_sep {w : List Char} (h : IsWord w) :
    ∀ c ∈ w, (c == ' ') = false := by
  intro c hc
  rw [beq_eq_false_iff_ne]
  rintro rfl
  exact h.2 hc

variable {words : List (List Char)}

theorem strtokens_words (h : ∀ w ∈ words, IsWord w) :
    strtokens (· == ' ') (words.flatMap (· ++ [' '])) = words :=
  strtokens_flatMap (by decide) (fun w hw => (h w hw).1)
    (fun w hw => (h w hw).not_sep)

/-- Words with one space between them. -/
def joinWords (words : List (List Char)) : List Char :=
  (words.flatMap (· ++ [' '])).dropLast

theorem strtokens_joinWords (h : ∀ w ∈ words, IsWord w) :
    strtokens (· == ' ') (joinWords words) = words :=
  strtokens_dropLast_flatMap (by decide) (fun w hw => (h w hw).1)
    (fun w hw => (h w hw).not_sep)

theorem joinWords_concat (h : ∀ w ∈ words, IsWord w) (word : List Char) :
    joinWords (words ++ [word]) =
      if joinWords words = [] then word else joinWords words ++ ' ' :: word := by
  have hconcat : joinWords (words ++ [word]) =
      words.flatMap (· ++ [' ']) ++ word := by
    rw [joinWords, flatMap_append, flatMap_singleton,
      ← append_assoc, dropLast_concat]
  rw [hconcat]
  split
  · next hnil =>
      have hwords : words = [] := by
        rw [← strtokens_joinWords h, hnil, strtokens_nil]
      rw [hwords, flatMap_nil, nil_append]
  · next hne =>
      have hwords : words ≠ [] := by
        rintro rfl
        exact hne rfl
      have hlast : words.flatMap (· ++ [' ']) = joinWords words ++ [' '] := by
        rw [← dropLast_concat_getLast hwords, joinWords, flatMap_append,
          flatMap_singleton, ← append_assoc, dropLast_concat]
      rw [hlast, append_assoc, singleton_append]

/-! ## Binary search -/

variable {α : Type*}

/-- The search between `lo` and `hi`, in at most `steps` steps. -/
def bsearchLoop (cmp : α → Ordering) (table : List α) :
    ℕ → ℕ → ℕ → Option α
  | 0, _, _ => none
  | steps + 1, lo, hi =>
    if lo < hi then
      let idx := (lo + hi) / 2
      match table[idx]? with
      | none => none
      | some entry =>
        match cmp entry with
        | .lt => bsearchLoop cmp table steps lo idx
        | .gt => bsearchLoop cmp table steps (idx + 1) hi
        | .eq => some entry
    else
      none

def bsearch (cmp : α → Ordering) (table : List α) : Option α :=
  bsearchLoop cmp table (table.length + 1) 0 table.length

theorem bsearchLoop_eq_some
    {cmp : α → Ordering} {table : List α} {steps lo hi : ℕ} {entry : α}
    (h : bsearchLoop cmp table steps lo hi = some entry) :
    entry ∈ table ∧ cmp entry = .eq := by
  fun_induction bsearchLoop cmp table steps lo hi with
  | case1 | case2 | case6 => cases h
  | case3 steps lo hi hlt idx entry' hentry hcmp ih
  | case4 steps lo hi hlt idx entry' hentry hcmp ih => exact ih h
  | case5 steps lo hi hlt idx entry' hentry hcmp =>
    cases h
    exact ⟨List.mem_of_getElem? hentry, hcmp⟩

end UnrealIrcd.Support
