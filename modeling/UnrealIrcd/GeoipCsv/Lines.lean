import UnrealIrcd.Support.CString
import UnrealIrcd.Support.Decimal

/-!
# The lines of a GeoIP file

The texts that `geoip_csv.c` reads with `fgets`, `fscanf` and `sscanf`.  A line has
the network, the geoname id, which may be missing, and other fields.  Files have no
NUL in them.
-/

namespace UnrealIrcd.GeoipCsv

open Support

def bufLen : ℕ := 8191

/-! ## Reading -/

/-- `fgets(buf, BUFLEN, u)`: the line and what is left of the file. -/
def fgets (u : List Char) : List Char × List Char :=
  u.splitAt (min (bufLen - 1) ((u.takeWhile (· != '\n')).length + 1))

/-- `while (fgets(buf, BUFLEN, u))`.  Each pass takes a character, so that the length
of the file is enough for `fuel`. -/
def fgetsLines : ℕ → List Char → List (List Char)
  | 0, _ => []
  | fuel + 1, u =>
    if u = [] then [] else (fgets u).1 :: fgetsLines fuel (fgets u).2

/-- The conversion `%n[..]` of `scanf`. -/
def scanSet (n : ℕ) (p : Char → Bool) (u : List Char) :
    Option (List Char × List Char) :=
  let word := (u.takeWhile p).take n
  if word = [] then none else some (word, u.drop word.length)

/-- What `fscanf` stores for a line of the IPv4 file. -/
structure Record where
  ip : List Char
  cidr : ℤ
  buf : List Char
deriving DecidableEq

/-- `fscanf(u, "%23[^/\n]/%d,%8191[^\n]\n", ip, &cidr, buf)` where it returns 3.  The
end of the format skips all blanks before the next line. -/
def fscanf (u : List Char) : Option (Record × List Char) := do
  let (ip, u) ← scanSet 23 (fun c => c != '/' && c != '\n') u
  let u ← scanChar '/' u
  let (cidr, u) ← scanInt u
  let u ← scanChar ',' u
  let (buf, u) ← scanSet bufLen (· != '\n') u
  some (⟨ip, cidr, buf⟩, u.dropWhile isspace)

/-- The loop around `fscanf`, which ends at the first text that is not read. -/
def fscanfLines : ℕ → List Char → List Record
  | 0, _ => []
  | fuel + 1, u =>
    match fscanf u with
    | some (r, u) => r :: fscanfLines fuel u
    | none => []

/-- `sscanf(bptr, "%d,%d,", &cidr, &geoid)`: the numbers that are stored. -/
def sscanf (bptr : List Char) : Option ℤ × Option ℤ :=
  match scanInt bptr with
  | none => (none, none)
  | some (cidr, rest) =>
    (some cidr, ((scanChar ',' rest).bind scanInt).map Prod.fst)

/-! ## Files -/

/-- A range with a prefix of 1 to `w` bits. -/
structure Range (Addr : Type) (w : ℕ) where
  addr : Addr
  cidr : ℕ
  pos : 1 ≤ cidr
  le : cidr ≤ w

section

variable {Addr : Type} (inetPton : List Char → Option Addr) (w size : ℕ)

/-- A line for a range, which has a place for the id or none.  The address fits in
`size` bytes, and `rest` are the fields behind the id. -/
structure Line where
  ip : List Char
  range : Range Addr w
  hasId : Bool
  rest : List Char
  convert : inetPton ip = some range.addr
  ip_ne : ip ≠ []
  ip_lt : ip.length < size
  ip_chars : ∀ c ∈ ip, c ≠ '/' ∧ isspace c = false
  rest_head : ∀ c ∈ rest.head?, c = ','
  rest_line : '\n' ∉ rest
  rest_le : rest.length ≤ 8000

/-- A file with a header and lines, each with the id that stands at its place. -/
structure File where
  header : List Char
  lines : List (Line inetPton w size × ℕ)
  header_line : '\n' ∉ header
  header_lt : header.length < bufLen - 1
  ids_lt : ∀ l ∈ lines, l.2 < 2 ^ 31

end

variable {Addr : Type} {inetPton : List Char → Option Addr} {w size : ℕ}

section

variable (l : Line inetPton w size)

/-- The id of the line, if it has a place for one. -/
def Line.id (id : ℕ) : Option ℤ := if l.hasId then some id else none

/-- The id field and those behind it. -/
def Line.fields (id : ℕ) : List Char :=
  (if l.hasId then Nat.toDigits 10 id else []) ++ l.rest

/-- What stands behind the `/`. -/
def Line.behind (id : ℕ) : List Char :=
  Nat.toDigits 10 l.range.cidr ++ ',' :: l.fields id

/-- What `fscanf` stores for the line. -/
def Line.record (id : ℕ) : Record := ⟨l.ip, l.range.cidr, l.fields id⟩

def Line.text (id : ℕ) : List Char := l.ip ++ '/' :: (l.behind id ++ ['\n'])

/-- Something stands behind the comma of the network. -/
def Line.readable : Bool := l.hasId || l.rest != []

end

def linesText (lines : List (Line inetPton w size × ℕ)) : List Char :=
  lines.flatMap fun l => l.1.text l.2

def File.text (f : File inetPton w size) : List Char :=
  f.header ++ '\n' :: linesText f.lines

/-- The file with these lines and the header `network`. -/
def fileOf (lines : List (Line inetPton w size × ℕ))
    (h : ∀ l ∈ lines, l.2 < 2 ^ 31) : File inetPton w size :=
  ⟨"network".toList, lines, by decide, by decide, h⟩

@[simp] theorem lines_fileOf (lines : List (Line inetPton w size × ℕ))
    (h : ∀ l ∈ lines, l.2 < 2 ^ 31) : (fileOf lines h).lines = lines := rfl

/-- The ranges of a file, with the ids written for them. -/
def File.ranges (f : File inetPton w size) : List (Range Addr w × Option ℤ) :=
  f.lines.map fun l => (l.1.range, l.1.id l.2)

/-! ## What is read of a line -/

theorem fgets_line {s : List Char} (hs : '\n' ∉ s) (hlt : s.length < bufLen - 1)
    (u : List Char) : fgets (s ++ '\n' :: u) = (s ++ ['\n'], u) := by
  have hmin : min (bufLen - 1) (s.length + 1) = (s ++ ['\n']).length := by
    rw [List.length_append, List.length_singleton]
    omega
  have hline : s ++ '\n' :: u = (s ++ ['\n']) ++ u := by simp
  rw [fgets, takeWhile_bne_append hs, hmin, hline, List.splitAt_eq, List.take_left,
    List.drop_left]

theorem scanSet_append {n : ℕ} {p : Char → Bool} {s u : List Char} (hne : s ≠ [])
    (hlen : s.length ≤ n) (hs : ∀ c ∈ s, p c = true)
    (hu : ∀ c ∈ u.head?, p c = false) :
    scanSet n p (s ++ u) = some (s, u) := by
  rw [scanSet, takeWhile_append_of_head hs hu, List.take_of_length_le hlen]
  simp [hne]

section

variable (l : Line inetPton w size) {id : ℕ}

theorem Line.newline_not_mem_fields (id : ℕ) : '\n' ∉ l.fields id := by
  rw [fields, List.mem_append, not_or]
  refine ⟨fun h => ?_, l.rest_line⟩
  split at h
  · exact absurd (isDigit_of_mem_toDigits _ h) (by decide)
  · cases h

theorem Line.length_fields_le (hid : id < 2 ^ 31) :
    (l.fields id).length ≤ 8010 := by
  have hdigits : (Nat.toDigits 10 id).length ≤ 10 :=
    (Nat.length_toDigits_le_iff (by decide) (by decide)).mpr (by omega)
  have hrest := l.rest_le
  rw [fields, List.length_append]
  split
  · omega
  · simp
    omega

theorem Line.noDigit_rest : NoDigit l.rest := by
  intro c hc
  rw [l.rest_head c hc]
  rfl

/-- The id is read from its field. -/
theorem Line.scanInt_fields (hid : id < 2 ^ 31) {u : List Char}
    (hu : u = [] ∨ u = ['\n']) :
    (scanInt (l.fields id ++ u)).map Prod.fst = l.id id := by
  have hdigit : NoDigit (l.rest ++ u) := by
    intro c hc
    cases hrest : l.rest with
    | nil => 
      rw [hrest] at hc
      obtain rfl | rfl := hu <;> cases hc
      rfl
    | cons d rest =>
      rw [hrest] at hc
      cases hc
      rw [l.rest_head c (hrest ▸ rfl)]
      rfl
  rw [fields, Line.id, List.append_assoc]
  cases l.hasId with
  | true => exact congrArg _ (scanInt_toDigits_append hid hdigit)
  | false =>
    cases hrest : l.rest with
    | nil => obtain rfl | rfl := hu <;> rfl
    | cons c rest =>
      rw [l.rest_head c (hrest ▸ rfl)]
      rfl

theorem Line.dropWhile_text (id : ℕ) (u : List Char) :
    (l.text id ++ u).dropWhile isspace = l.text id ++ u := by
  obtain ⟨c, ip, hip⟩ := List.exists_cons_of_ne_nil l.ip_ne
  have hc := (l.ip_chars c (hip ▸ List.mem_cons_self)).2
  rw [text, hip]
  exact List.dropWhile_cons_of_neg (by simp [hc])

theorem Line.scanInt_behind (id : ℕ) (hw : w < 2 ^ 31) (u : List Char) :
    scanInt (l.behind id ++ u) =
      some ((l.range.cidr : ℤ), ',' :: (l.fields id ++ u)) := by
  have hle := l.range.le
  rw [behind, List.append_assoc]
  exact scanInt_toDigits_append (by omega) ((noDigit_cons _ _).mpr rfl)

theorem Line.fields_eq_nil_iff (id : ℕ) :
    l.fields id = [] ↔ l.readable = false := by
  rw [fields, readable, List.append_eq_nil_iff]
  cases l.hasId <;> simp [Nat.toDigits_ne_nil]

theorem Line.text_append (id : ℕ) (u : List Char) :
    l.text id ++ u = l.ip ++ '/' :: (l.behind id ++ '\n' :: u) := by
  simp [text]

theorem Line.fscanf_eq (hw : w < 2 ^ 31) (hsize : size ≤ 24) (u : List Char) :
    fscanf (l.text id ++ u) =
      (scanSet bufLen (· != '\n') (l.fields id ++ '\n' :: u)).bind fun buf =>
        some (⟨l.ip, l.range.cidr, buf.1⟩, buf.2.dropWhile isspace) := by
  have hip : scanSet 23 (fun c => c != '/' && c != '\n')
      (l.ip ++ '/' :: (l.behind id ++ '\n' :: u)) =
      some (l.ip, '/' :: (l.behind id ++ '\n' :: u)) := by
    have hlt := l.ip_lt
    refine scanSet_append l.ip_ne (by omega) (fun c hc => ?_) fun c hc => ?_
    · obtain ⟨hslash, hspace⟩ := l.ip_chars c hc
      have hne : c ≠ '\n' := by
        rintro rfl
        cases hspace
      simp [hslash, hne]
    · cases hc
      rfl
  rw [fscanf, l.text_append, hip]
  simp only [Option.bind_eq_bind, Option.bind_some, scanChar, if_true,
    l.scanInt_behind id hw]

/-- A line is read if something stands behind the comma.  Otherwise it ends the
reading. -/
theorem Line.fscanf_text (hid : id < 2 ^ 31) (hw : w < 2 ^ 31) (hsize : size ≤ 24)
    (u : List Char) :
    fscanf (l.text id ++ u) =
      if l.readable then some (l.record id, u.dropWhile isspace) else none := by
  rw [l.fscanf_eq hw hsize]
  split_ifs with hread
  · have hfields := l.length_fields_le hid
    have hne : l.fields id ≠ [] := by
      rw [Ne, l.fields_eq_nil_iff, hread]
      decide
    have hbuf : scanSet bufLen (· != '\n') (l.fields id ++ '\n' :: u) =
        some (l.fields id, '\n' :: u) := by
      refine scanSet_append hne (hfields.trans (by decide))
        (bne_of_not_mem (l.newline_not_mem_fields id)) fun c hc => ?_
      cases hc
      rfl
    rw [hbuf]
    rfl
  · rw [(l.fields_eq_nil_iff id).mpr (Bool.eq_false_iff.mpr hread)]
    rfl

theorem Line.fgets_text (hid : id < 2 ^ 31) (hw : w < 1000) (hsize : size ≤ 40)
    (u : List Char) : fgets (l.text id ++ u) = (l.text id, u) := by
  have hle := l.range.le
  have hlt := l.ip_lt
  have hcidr : (Nat.toDigits 10 l.range.cidr).length ≤ 3 :=
    (Nat.length_toDigits_le_iff (by decide) (by decide)).mpr (by omega)
  have hfields := l.length_fields_le hid
  have hline : l.text id ++ u = (l.ip ++ '/' :: l.behind id) ++ '\n' :: u := by
    simp [text]
  rw [hline, fgets_line, text]
  · simp
  · simp only [behind, List.mem_append, List.mem_cons, not_or]
    refine ⟨fun h => ?_, by decide, fun h => ?_, by decide,
      l.newline_not_mem_fields id⟩
    · cases (l.ip_chars _ h).2
    · exact absurd (isDigit_of_mem_toDigits _ h) (by decide)
  · simp only [behind, List.length_append, List.length_cons, bufLen]
    omega

end

section

variable {lines : List (Line inetPton w size × ℕ)}
  (hids : ∀ l ∈ lines, l.2 < 2 ^ 31)

theorem linesText_cons (l : Line inetPton w size × ℕ)
    (lines : List (Line inetPton w size × ℕ)) :
    linesText (l :: lines) = l.1.text l.2 ++ linesText lines := List.flatMap_cons

theorem dropWhile_linesText (lines : List (Line inetPton w size × ℕ)) :
    (linesText lines).dropWhile isspace = linesText lines := by
  cases lines with
  | nil => rfl
  | cons l lines => exact l.1.dropWhile_text l.2 _

theorem length_le_length_linesText (lines : List (Line inetPton w size × ℕ)) :
    lines.length ≤ (linesText lines).length := by
  induction lines with
  | nil => exact le_rfl
  | cons l lines ih =>
    rw [linesText_cons, Line.text_append]
    simp only [List.length_append, List.length_cons]
    omega

include hids in
/-- The loop reads the lines up to the first one with nothing behind the comma. -/
theorem fscanfLines_linesText (hw : w < 2 ^ 31) (hsize : size ≤ 24) {fuel : ℕ}
    (hfuel : lines.length ≤ fuel) :
    fscanfLines fuel (linesText lines) =
      (lines.takeWhile fun l => l.1.readable).map fun l => l.1.record l.2 := by
  induction lines generalizing fuel with
  | nil => cases fuel <;> rfl
  | cons l lines ih =>
    rw [List.forall_mem_cons] at hids
    have hline := l.1.fscanf_text hids.1 hw hsize (linesText lines)
    rw [dropWhile_linesText] at hline
    cases fuel with
    | zero => cases hfuel
    | succ fuel =>
      rw [linesText_cons, fscanfLines, hline, List.takeWhile_cons]
      cases l.1.readable with
      | true =>
        simp only [if_true, List.map_cons]
        rw [← ih hids.2 (Nat.le_of_succ_le_succ hfuel)]
      | false => rfl

include hids in
theorem fgetsLines_linesText (hw : w < 1000) (hsize : size ≤ 40) {fuel : ℕ}
    (hfuel : lines.length ≤ fuel) :
    fgetsLines fuel (linesText lines) = lines.map fun l => l.1.text l.2 := by
  induction lines generalizing fuel with
  | nil => cases fuel <;> rfl
  | cons l lines ih =>
    rw [List.forall_mem_cons] at hids
    have hne : l.1.text l.2 ++ linesText lines ≠ [] := by
      rw [Line.text_append]
      exact List.append_ne_nil_of_left_ne_nil l.1.ip_ne _
    cases fuel with
    | zero => cases hfuel
    | succ fuel =>
      rw [linesText_cons, fgetsLines, if_neg hne, l.1.fgets_text hids.1 hw hsize,
        List.map_cons, ← ih hids.2 (Nat.le_of_succ_le_succ hfuel)]

end

theorem File.length_lines_le (f : File inetPton w size) :
    f.lines.length ≤ f.text.length := by
  have hlines := length_le_length_linesText f.lines
  rw [text, List.length_append, List.length_cons]
  omega

theorem File.fgets_text (f : File inetPton w size) :
    (fgets f.text).2 = linesText f.lines :=
  congrArg Prod.snd (fgets_line f.header_line f.header_lt _)

end UnrealIrcd.GeoipCsv
