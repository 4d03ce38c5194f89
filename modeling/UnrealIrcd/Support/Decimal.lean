import Mathlib.Algebra.Group.Nat.Defs
import Mathlib.Algebra.Ring.Int.Defs
import Mathlib.Data.List.TakeWhile
import Mathlib.Data.Nat.Digits.Defs

/-!
# Numbers in text and in memory

Reading and printing decimal numbers the way the C library does it: `strtol`
and `atoi` on one side, the conversion `%d` of `printf` on the other.  A
number that is out of the range of `long` is read as the nearest bound, and
`atoi` keeps the low 32 bits.  In memory the bytes of a number follow each other
with the least significant one first.
-/

namespace UnrealIrcd.Support

def isspace (c : Char) : Bool :=
  c == ' ' || c == '\t' || c == '\n' || c == '\r' || c == '\x0b' || c == '\x0c'

def digitsValue (s : List Char) : ℕ :=
  (s.takeWhile Char.isDigit).foldl
    (fun n c => 10 * n + (c.toNat - '0'.toNat)) 0

def clampLong (n : ℤ) : ℤ := max (-2 ^ 63) (min n (2 ^ 63 - 1))

/-- `strtol` with base 10: blanks, a sign and digits. -/
def strtol (s : List Char) : ℤ :=
  match s.dropWhile isspace with
  | '-' :: s => clampLong (-(digitsValue s : ℤ))
  | '+' :: s => clampLong (digitsValue s)
  | s => clampLong (digitsValue s)

/-- The value of a `long` as an `int`. -/
def toInt (n : ℤ) : ℤ := Int.bmod n (2 ^ 32)

def atoi (s : List Char) : ℤ := toInt (strtol s)

/-- The conversion `%d` or `%ld` of `printf`. -/
def decimal (n : ℤ) : List Char :=
  if n < 0 then '-' :: Nat.toDigits 10 n.natAbs else Nat.toDigits 10 n.natAbs

/-- The conversion `%d` of `scanf`, with what is left of the text.  There has to be
a digit behind blanks and a sign. -/
def scanInt (s : List Char) : Option (ℤ × List Char) :=
  let number := s.dropWhile isspace
  let digits := match number with
    | '-' :: digits => digits
    | '+' :: digits => digits
    | digits => digits
  if digits.head?.any Char.isDigit then
    some (atoi number, digits.dropWhile Char.isDigit)
  else none

/-- A character of the format of `scanf`. -/
def scanChar (c : Char) : List Char → Option (List Char)
  | [] => none
  | d :: s => if d = c then some s else none

/-! ## Reading back what was printed -/

variable {n : ℤ}

theorem clampLong_eq_self (h : -2 ^ 63 ≤ n) (h' : n < 2 ^ 63) :
    clampLong n = n := by
  unfold clampLong
  omega

theorem toInt_eq_self (h : -2 ^ 31 ≤ n) (h' : n < 2 ^ 31) : toInt n = n := by
  unfold toInt
  rw [Int.bmod_eq_of_le] <;> omega

/-- A text that does not go on with a digit. -/
def NoDigit (s : List Char) : Prop := ∀ c ∈ s.head?, c.isDigit = false

@[simp] theorem noDigit_nil : NoDigit [] := by
  intro c hc
  cases hc

@[simp] theorem noDigit_cons (c : Char) (s : List Char) :
    NoDigit (c :: s) ↔ c.isDigit = false := by
  simp [NoDigit]

theorem takeWhile_append_of_head {p : Char → Bool} {digits s : List Char}
    (hdigits : ∀ c ∈ digits, p c = true) (hs : ∀ c ∈ s.head?, p c = false) :
    (digits ++ s).takeWhile p = digits := by
  rw [List.takeWhile_append_of_pos hdigits]
  cases s with
  | nil => simp
  | cons c s => simp [hs c rfl]

theorem isDigit_of_mem_toDigits {n : ℕ} :
    ∀ c ∈ Nat.toDigits 10 n, c.isDigit = true :=
  fun _ hc => Nat.isDigit_of_mem_toDigits (by decide) (by decide) hc

variable {s : List Char}

theorem digitsValue_toDigits_append (n : ℕ) (hs : NoDigit s) :
    digitsValue (Nat.toDigits 10 n ++ s) = n := by
  rw [digitsValue, takeWhile_append_of_head isDigit_of_mem_toDigits hs]
  exact Nat.ofDigitChars_ten_toDigits

theorem not_blank_or_sign {p : Char → Bool} {c : Char} (h : p c = true)
    (hp : " \t\n\r\x0b\x0c-+".toList.any p = false) :
    isspace c = false ∧ c ≠ '-' ∧ c ≠ '+' := by
  have hne : ∀ d ∈ " \t\n\r\x0b\x0c-+".toList, c ≠ d := by
    rintro d hd rfl
    exact List.any_eq_false.mp hp c hd h
  refine ⟨?_, hne '-' (by decide), hne '+' (by decide)⟩
  simp only [isspace, Bool.or_eq_false_iff, beq_eq_false_iff_ne]
  refine ⟨⟨⟨⟨⟨?_, ?_⟩, ?_⟩, ?_⟩, ?_⟩, ?_⟩ <;> exact hne _ (by decide)

theorem exists_cons_toDigits (n : ℕ) :
    ∃ c cs, Nat.toDigits 10 n = c :: cs ∧ c.isDigit = true := by
  obtain ⟨c, cs, hcs⟩ := List.exists_cons_of_ne_nil
    (Nat.toDigits_ne_nil : Nat.toDigits 10 n ≠ [])
  have hmem : c ∈ Nat.toDigits 10 n := by
    rw [hcs]
    exact List.mem_cons_self
  exact ⟨c, cs, hcs, isDigit_of_mem_toDigits c hmem⟩

theorem strtol_of_isDigit {c : Char} (hc : c.isDigit = true) (s : List Char) :
    strtol (c :: s) = clampLong (digitsValue (c :: s)) := by
  obtain ⟨hspace, hminus, hplus⟩ := not_blank_or_sign hc (by decide)
  rw [strtol, List.dropWhile_cons_of_neg (by simp [hspace])]
  split
  · next heq => exact absurd (List.cons.inj heq).1 hminus
  · next heq => exact absurd (List.cons.inj heq).1 hplus
  · rfl

theorem strtol_minus (s : List Char) :
    strtol ('-' :: s) = clampLong (-(digitsValue s : ℤ)) := rfl

theorem strtol_toDigits_append (n : ℕ) (hs : NoDigit s) :
    strtol (Nat.toDigits 10 n ++ s) = clampLong n := by
  have hvalue := digitsValue_toDigits_append n hs
  obtain ⟨c, cs, hcs, hc⟩ := exists_cons_toDigits n
  rw [hcs, List.cons_append] at hvalue ⊢
  rw [strtol_of_isDigit hc, hvalue]

theorem strtol_decimal_append (h : -2 ^ 63 ≤ n) (h' : n < 2 ^ 63)
    (hs : NoDigit s) : strtol (decimal n ++ s) = n := by
  by_cases hneg : n < 0
  · have habs : -(n.natAbs : ℤ) = n := by omega
    rw [decimal, if_pos hneg, List.cons_append, strtol_minus,
      digitsValue_toDigits_append n.natAbs hs, habs]
    exact clampLong_eq_self h h'
  · have habs : (n.natAbs : ℤ) = n := by omega
    rw [decimal, if_neg hneg, strtol_toDigits_append _ hs, habs]
    exact clampLong_eq_self h h'

theorem atoi_decimal_append (h : -2 ^ 31 ≤ n) (h' : n < 2 ^ 31)
    (hs : NoDigit s) : atoi (decimal n ++ s) = n := by
  rw [atoi, strtol_decimal_append (by omega) (by omega) hs]
  exact toInt_eq_self h h'

theorem atoi_decimal (h : -2 ^ 31 ≤ n) (h' : n < 2 ^ 31) :
    atoi (decimal n) = n := by
  have hread := atoi_decimal_append h h' noDigit_nil
  rwa [List.append_nil] at hread

theorem scanInt_toDigits_append {n : ℕ} (h : n < 2 ^ 31) (hs : NoDigit s) :
    scanInt (Nat.toDigits 10 n ++ s) = some ((n : ℤ), s) := by
  have hatoi : atoi (Nat.toDigits 10 n ++ s) = n := by
    rw [atoi, strtol_toDigits_append n hs, clampLong_eq_self (by omega) (by omega)]
    exact toInt_eq_self (by omega) (by omega)
  have hdrop : (Nat.toDigits 10 n ++ s).dropWhile Char.isDigit = s := by
    rw [List.dropWhile_append_of_pos isDigit_of_mem_toDigits]
    cases s with
    | nil => rfl
    | cons c s => exact List.dropWhile_cons_of_neg (by simp [hs c rfl])
  obtain ⟨c, cs, hcs, hc⟩ := exists_cons_toDigits n
  rw [hcs, List.cons_append] at hatoi hdrop ⊢
  obtain ⟨hspace, hminus, hplus⟩ := not_blank_or_sign hc (by decide)
  rw [scanInt, List.dropWhile_cons_of_neg (by simp [hspace])]
  split
  · next heq => exact absurd (List.cons.inj heq).1 hminus
  · next heq => exact absurd (List.cons.inj heq).1 hplus
  · rw [hatoi, hdrop, List.head?_cons, Option.any_some, if_pos hc]

/-! ## Bytes -/

def leBytes : ℕ → ℕ → List UInt8
  | 0, _ => []
  | width + 1, n => UInt8.ofNat n :: leBytes width (n / 256)

def leValue (bytes : List UInt8) : ℕ :=
  Nat.ofDigits 256 (bytes.map UInt8.toNat)

@[simp] theorem length_leBytes (width n : ℕ) :
    (leBytes width n).length = width := by
  induction width generalizing n with
  | zero => rfl
  | succ width ih => simp [leBytes, ih]

theorem leValue_leBytes (width n : ℕ) :
    leValue (leBytes width n) = n % 256 ^ width := by
  induction width generalizing n with
  | zero => simp [leBytes, leValue, Nat.mod_one]
  | succ width ih =>
    have hcons : leValue (leBytes (width + 1) n) =
        n % 256 + 256 * leValue (leBytes width (n / 256)) := by
      simp [leBytes, leValue, Nat.ofDigits_cons]
    rw [hcons, ih, Nat.pow_succ', Nat.mod_mul]

theorem leValue_leBytes_of_lt {width n : ℕ} (h : n < 256 ^ width) :
    leValue (leBytes width n) = n := by
  rw [leValue_leBytes, Nat.mod_eq_of_lt h]

end UnrealIrcd.Support
