import UnrealIrcd.Support.Decimal

/-!
# Chunked coding

A body in chunks: each has a line with its size in hexadecimal digits, which may go
on with an extension, then its data and an empty line.  A size of zero ends the
body.  The size is read by `strtoll` with base 16.
-/

namespace UnrealIrcd.Support

/-! ## Hexadecimal numbers -/

def isxdigit (c : Char) : Bool :=
  c.isDigit || ('a'.toNat ≤ c.toNat && c.toNat ≤ 'f'.toNat) ||
    ('A'.toNat ≤ c.toNat && c.toNat ≤ 'F'.toNat)

def xdigitValue (c : Char) : ℕ :=
  if c.isDigit then c.toNat - '0'.toNat
  else if 'a'.toNat ≤ c.toNat then c.toNat - 'a'.toNat + 10
  else c.toNat - 'A'.toNat + 10

def xdigitsValue (s : List Char) : ℕ :=
  s.foldl (fun n c => 16 * n + xdigitValue c) 0

/-- The digits after `0x`, if there are any. -/
def skip0x : List Char → List Char
  | '0' :: x :: c :: s =>
    if (x == 'x' || x == 'X') && isxdigit c then c :: s
    else '0' :: x :: c :: s
  | s => s

def hexValue (s : List Char) : ℕ := xdigitsValue ((skip0x s).takeWhile isxdigit)

/-- A number in the range of `long long`. -/
def inLongLong (n : ℤ) : Option ℤ :=
  if -2 ^ 63 ≤ n ∧ n < 2 ^ 63 then some n else none

/-- `strtoll` with base 16.  There is no result if `errno` is `ERANGE`. -/
def strtoll16 (s : List Char) : Option ℤ :=
  match s.dropWhile isspace with
  | '-' :: s => inLongLong (-(hexValue s : ℤ))
  | '+' :: s => inLongLong (hexValue s)
  | s => inLongLong (hexValue s)

/-- A text that does not go on with a hexadecimal digit or with `x`. -/
def NoXdigit (s : List Char) : Prop :=
  ∀ c ∈ s.head?, isxdigit c = false ∧ c ≠ 'x' ∧ c ≠ 'X'

section

variable {digits s : List Char} (hdigits : ∀ c ∈ digits, isxdigit c = true)
  (hs : NoXdigit s)

include hdigits hs

theorem skip0x_append : skip0x (digits ++ s) = digits ++ s := by
  have hnotx : ∀ {c}, isxdigit c = true → (c == 'x' || c == 'X') = false := by
    intro c hc
    rw [Bool.or_eq_false_iff, beq_eq_false_iff_ne, beq_eq_false_iff_ne]
    constructor <;> (rintro rfl; exact absurd hc (by decide))
  cases digits with
  | nil =>
    cases s with
    | nil => rfl
    | cons c s =>
      have hc := (hs c rfl).1
      unfold skip0x
      split
      · next heq =>
          obtain ⟨rfl, -⟩ := List.cons.inj heq
          exact absurd hc (by decide)
      · rfl
  | cons c digits =>
    have hsecond : ∀ x s', digits ++ s = x :: s' →
        (x == 'x' || x == 'X') = false := by
      intro x s' heq
      cases digits with
      | nil =>
        have hx := hs x (by rw [List.nil_append] at heq; rw [heq]; rfl)
        simp [hx.2.1, hx.2.2]
      | cons c' digits =>
        obtain ⟨rfl, -⟩ := List.cons.inj heq
        exact hnotx (hdigits _ (by simp))
    rw [List.cons_append]
    unfold skip0x
    split
    · next x c' s' heq =>
        obtain ⟨rfl, hrest⟩ := List.cons.inj heq
        rw [hrest, hsecond x _ hrest]
        simp
    · rfl

theorem hexValue_append : hexValue (digits ++ s) = xdigitsValue digits := by
  rw [hexValue, skip0x_append hdigits hs,
    takeWhile_append_of_head hdigits fun c hc => (hs c hc).1]

theorem strtoll16_append (hne : digits ≠ [])
    (hrange : xdigitsValue digits < 2 ^ 63) :
    strtoll16 (digits ++ s) = some (xdigitsValue digits : ℤ) := by
  have hvalue := hexValue_append hdigits hs
  have hin : inLongLong (xdigitsValue digits) =
      some (xdigitsValue digits : ℤ) := by
    rw [inLongLong, if_pos]
    omega
  obtain ⟨c, digits, rfl⟩ := List.exists_cons_of_ne_nil hne
  have hc := hdigits c List.mem_cons_self
  obtain ⟨hspace, hminus, hplus⟩ := not_blank_or_sign hc (by decide)
  rw [List.cons_append] at hvalue ⊢
  rw [strtoll16, List.dropWhile_cons_of_neg (by simp [hspace])]
  split
  · next heq => exact absurd (List.cons.inj heq).1 hminus
  · next heq => exact absurd (List.cons.inj heq).1 hplus
  · rw [hvalue, hin]

end

/-! ## Chunks -/

structure SizeLine where
  digits : List Char
  extension : List Char
  digits_ne : digits ≠ []
  digits_ok : ∀ c ∈ digits, isxdigit c = true
  extension_ok : '\n' ∉ extension
  noXdigit : NoXdigit extension

namespace SizeLine

def size (line : SizeLine) : ℕ := xdigitsValue line.digits

def content (line : SizeLine) : List Char :=
  line.digits ++ (line.extension ++ ['\r'])

def text (line : SizeLine) : List Char := line.content ++ ['\n']

theorem lf_not_mem (line : SizeLine) : '\n' ∉ line.content := by
  intro h
  rcases List.mem_append.mp h with h | h
  · exact absurd (line.digits_ok _ h) (by decide)
  · rcases List.mem_append.mp h with h | h
    · exact line.extension_ok h
    · exact absurd h (by decide)

theorem strtoll16_content (line : SizeLine) (h : line.size < 2 ^ 63) :
    strtoll16 line.content = some (line.size : ℤ) := by
  refine strtoll16_append line.digits_ok ?_ line.digits_ne h
  intro c hc
  have hext := line.noXdigit
  cases hextension : line.extension with
  | nil =>
    rw [hextension] at hc
    cases hc
    exact ⟨by decide, by decide, by decide⟩
  | cons c' s =>
    rw [hextension] at hc hext
    cases hc
    exact hext _ rfl

theorem exists_cons (line : SizeLine) :
    ∃ c s, line.content = c :: s ∧ isxdigit c = true := by
  obtain ⟨c, digits, hdigits⟩ := List.exists_cons_of_ne_nil line.digits_ne
  refine ⟨c, digits ++ (line.extension ++ ['\r']), ?_, ?_⟩
  · rw [content, hdigits, List.cons_append]
  · exact line.digits_ok c (by rw [hdigits]; exact List.mem_cons_self)

end SizeLine

structure Chunk where
  line : SizeLine
  data : List Char
  data_ne : data ≠ []
  size_eq : line.size = data.length

def Chunk.text (chunk : Chunk) : List Char :=
  chunk.line.text ++ chunk.data ++ ['\r', '\n']

def chunksData (chunks : List Chunk) : List Char :=
  (chunks.map Chunk.data).flatten

def chunksText (chunks : List Chunk) : List Char :=
  (chunks.map Chunk.text).flatten

end UnrealIrcd.Support
