import UnrealIrcd.Support.CString

/-!
# Scanning a header of lines

A header is a first line, lines `Name: value` and an empty line.  The scanner goes
through a buffer line by line: it takes lines off while they are complete, and
what is left is either the empty line, a line that has been cut, or nothing that it
can use.  What the first line looks like is a parameter (`Dialect`).

* `scan_cases` says what the scanner finds in a buffer that starts with a line,
  wherever the buffer ends.
* `findEnd` looks for the empty line on its own.  It finds the right place if some
  of the line before the empty line is in the buffer (`findEnd_fields`), and never
  if the buffer starts with the empty line (`findEnd_blank`).
-/

namespace UnrealIrcd.Support

open List

/-! ## The scanner -/

/-- How the first line is told apart, the key that stands for it, and its value. -/
structure Dialect where
  isFirst : List Char → Bool
  key : List Char
  value : List Char → List Char

/-- What stands at the start of a buffer. -/
inductive Scan where
  /-- The empty line. -/
  | ended
  /-- A line with a key and a value, and what follows it. -/
  | pair (key value : List Char) (next : Option (List Char))
  /-- A line that has been cut. -/
  | cut
  /-- Something else. -/
  | bad
deriving DecidableEq

/-- What follows the first LF before the NUL. -/
def afterLf (p : List Char) : Option (List Char) :=
  if '\n' ∈ cstring p then some (p.dropWhile (· != '\n')).tail else none

/-- The name and the value in a line. -/
def headerPair (p : List Char) : Option (List Char × List Char) :=
  let name := p.takeWhile fun c =>
    c != '\n' && c != '\r' && c != ':' && c != '\x00'
  match p.drop name.length with
  | ':' :: ' ' :: v =>
    some (name, v.takeWhile fun c => c != '\r' && c != '\n' && c != '\x00')
  | _ => none

def scanLine (d : Dialect) (p : List Char) : Scan :=
  if p.head? = some '\n' ∨ p.take 2 = ['\r', '\n'] then .ended
  else if d.isFirst p then .pair d.key (d.value p) (afterLf p)
  else if '\n' ∉ cstring p then .cut
  else
    match headerPair p with
    | some (name, value) => .pair name value (afterLf p)
    | none => .bad

/-- How the scan of a buffer ends. -/
inductive Ending where
  | ended
  /-- The rest is to be kept for later. -/
  | left (rest : List Char)
  /-- The rest is not used. -/
  | dropped
deriving DecidableEq

def scanLines (d : Dialect) :
    ℕ → List Char → List (List Char × List Char) × Ending
  | 0, _ => ([], .dropped)
  | n + 1, p =>
    match scanLine d p with
    | .ended => ([], .ended)
    | .cut => ([], .left p)
    | .bad => ([], .dropped)
    | .pair key value none => ([(key, value)], .dropped)
    | .pair key value (some next) =>
      ((key, value) :: (scanLines d n next).1, (scanLines d n next).2)

def scan (d : Dialect) (p : List Char) :
    List (List Char × List Char) × Ending :=
  scanLines d (p.length + 1) p

variable {d : Dialect}

theorem length_afterLf_lt {p q : List Char} (h : afterLf p = some q) :
    q.length < p.length := by
  unfold afterLf at h
  split at h
  · next hmem =>
      have hq := Option.some.inj h
      have hlf : '\n' ∈ p := (takeWhile_sublist _).subset hmem
      have hne : p.dropWhile (· != '\n') ≠ [] := by
        intro hnil
        have := dropWhile_eq_nil_iff.mp hnil '\n' hlf
        simp at this
      have hle := (dropWhile_sublist (l := p) (· != '\n')).length_le
      have hpos := length_pos_of_ne_nil hne
      rw [← hq, length_tail]
      omega
  · cases h

theorem next_of_scanLine {p key value : List Char} {next : Option (List Char)}
    (h : scanLine d p = .pair key value next) : next = afterLf p := by
  unfold scanLine at h
  split_ifs at h
  · exact (Scan.pair.inj h).2.2.symm
  · split at h
    · exact (Scan.pair.inj h).2.2.symm
    · cases h

variable {p : List Char}

theorem scanLines_eq {n m : ℕ} (hn : p.length < n) (hm : p.length < m) :
    scanLines d n p = scanLines d m p := by
  induction n generalizing m p with
  | zero => omega
  | succ n ih =>
    obtain ⟨m, rfl⟩ := Nat.exists_eq_succ_of_ne_zero (by omega : m ≠ 0)
    unfold scanLines
    cases hline : scanLine d p with
    | ended | cut | bad => rfl
    | pair key value next =>
      cases next with
      | none => rfl
      | some next =>
        have hlt := length_afterLf_lt (next_of_scanLine hline).symm
        simp only
        rw [ih (m := m) (by omega) (by omega)]

theorem scan_of_pair {p key value next : List Char}
    (h : scanLine d p = .pair key value (some next)) :
    scan d p = ((key, value) :: (scan d next).1, (scan d next).2) := by
  have hlt := length_afterLf_lt (next_of_scanLine h).symm
  rw [scan, scanLines, h]
  simp only
  rw [scanLines_eq (m := next.length + 1) (by omega) (by omega), scan]

theorem scan_of_cut (h : scanLine d p = .cut) : scan d p = ([], .left p) := by
  rw [scan, scanLines, h]

/-! ## Lines -/

/-- A line `Name: value`. -/
structure Field where
  name : List Char
  value : List Char
  name_ne : name ≠ []
  name_ok : ∀ c ∈ name, c ∉ [':', ' ', '/', '\r', '\n', '\x00']
  value_ok : ∀ c ∈ value, c ∉ ['\r', '\n', '\x00']

theorem avoids_of_all {s bad : List Char}
    (h : s.all (fun c => !bad.contains c) = true) : ∀ c ∈ s, c ∉ bad := by
  intro c hc hbad
  have hnot := all_eq_true.mp h c hc
  rw [contains_iff_mem.mpr hbad] at hnot
  cases hnot

structure IsLine (line : List Char) : Prop where
  ne : line ≠ []
  mem : ∀ c ∈ line, c ∉ ['\r', '\n', '\x00']

def Field.text (f : Field) : List Char :=
  f.name ++ [':', ' '] ++ f.value ++ ['\r', '\n']

def Field.content (f : Field) : List Char := f.name ++ [':', ' '] ++ f.value

theorem Field.text_eq (f : Field) :
    f.text = f.content ++ ['\r', '\n'] := rfl

theorem Field.isLine (f : Field) : IsLine f.content := by
  refine ⟨by simp [content, f.name_ne], fun c h => ?_⟩
  simp only [content, append_assoc, mem_append] at h
  rcases h with h | h | h
  · have hc := f.name_ok c h
    simp only [mem_cons, not_or] at hc ⊢
    tauto
  · simp only [mem_cons, not_mem_nil, or_false] at h
    rcases h with rfl | rfl <;> decide
  · exact f.value_ok c h

variable {f : Field}

/-- The first line is not taken for a field or a part of one. -/
def Dialect.Skips (d : Dialect) (f : Field) : Prop :=
  ∀ s, s <+: f.text ∨ f.text <+: s → d.isFirst s = false

variable {s : List Char}

theorem Field.not_prefix (f : Field) {w : List Char} (c : Char)
    (hc : c ∈ [' ', '/']) (hw : c ∈ w) (hcolon : ':' ∉ w)
    (h : s <+: f.text ∨ f.text <+: s) : ¬ w <+: s := by
  intro hpre
  have hname : f.name ++ [':'] <+: f.text := by
    refine ⟨' ' :: f.value ++ ['\r', '\n'], ?_⟩
    simp [text]
  have hmem : c ∉ f.name ++ [':'] := by
    intro hmem
    rcases mem_append.mp hmem with hmem | hmem
    · refine f.name_ok _ hmem ?_
      simp only [mem_cons, not_mem_nil, or_false] at hc ⊢
      tauto
    · rw [mem_singleton.mp hmem] at hc
      exact absurd hc (by decide)
  -- of `w` and the name with its colon one is the start of the other
  have hcases : w <+: f.name ++ [':'] ∨ f.name ++ [':'] <+: w := by
    rcases h with h | h
    · exact prefix_or_prefix_of_prefix (hpre.trans h) hname
    · exact prefix_or_prefix_of_prefix hpre (hname.trans h)
  rcases hcases with hpre | hpre
  · exact hmem (hpre.subset hw)
  · exact hcolon (hpre.subset (by simp))

section Line

variable {line : List Char}

theorem IsLine.not_mem (h : IsLine line) {c : Char}
    (hc : c ∈ ['\r', '\n', '\x00']) : c ∉ line :=
  fun hmem => h.mem c hmem hc

theorem IsLine.head (h : IsLine line) (hs : line <+: s) :
    ∃ c, s.head? = some c ∧ c ≠ '\r' ∧ c ≠ '\n' := by
  obtain ⟨rest, rfl⟩ := hs
  obtain ⟨c, line, rfl⟩ := exists_cons_of_ne_nil h.ne
  have hc := h.mem c mem_cons_self
  simp only [mem_cons, not_or] at hc
  exact ⟨c, rfl, hc.1, hc.2.1⟩

theorem IsLine.afterLf (h : IsLine line) (rest : List Char) :
    afterLf (line ++ ['\r', '\n'] ++ rest) = some rest := by
  have hmem : '\n' ∈ cstring (line ++ (['\r', '\n'] ++ rest)) := by
    rw [cstring_append (h.not_mem (by decide))]
    simp [cstring]
  rw [append_assoc, Support.afterLf, if_pos hmem,
    dropWhile_append_of_pos (bne_of_not_mem (h.not_mem (by decide)))]
  rfl

end Line

theorem headerPair_field (f : Field) (rest : List Char) :
    headerPair (f.text ++ rest) = some (f.name, f.value) := by
  have hname : (f.text ++ rest).takeWhile (fun c =>
      c != '\n' && c != '\r' && c != ':' && c != '\x00') = f.name := by
    rw [Field.text, append_assoc, append_assoc, append_assoc,
      takeWhile_append_of_pos]
    · simp
    · intro c hc
      have := f.name_ok c hc
      simp only [mem_cons, not_or] at this
      simp [this]
  have hvalue : (f.value ++ ['\r', '\n'] ++ rest).takeWhile (fun c =>
      c != '\r' && c != '\n' && c != '\x00') = f.value := by
    rw [append_assoc, takeWhile_append_of_pos]
    · simp
    · intro c hc
      have := f.value_ok c hc
      simp only [mem_cons, not_or] at this
      simp [this]
  have hdrop : (f.text ++ rest).drop f.name.length =
      ':' :: ' ' :: (f.value ++ ['\r', '\n'] ++ rest) := by
    simp [Field.text]
  rw [headerPair]
  simp only [hname, hdrop, hvalue]

theorem not_ended_of_head (h : ∃ c, p.head? = some c ∧ c ≠ '\r' ∧ c ≠ '\n') :
    ¬ (p.head? = some '\n' ∨ p.take 2 = ['\r', '\n']) := by
  obtain ⟨c, hc, hcr, hlf⟩ := h
  cases p with
  | nil => cases hc
  | cons c' p =>
    cases hc
    rintro (hhead | htake)
    · exact hlf (Option.some.inj hhead)
    · exact hcr (List.cons.inj htake).1

theorem scanLine_field (hf : d.Skips f) (rest : List Char) :
    scanLine d (f.text ++ rest) = .pair f.name f.value (some rest) := by
  have hfirst : d.isFirst (f.text ++ rest) = false :=
    hf _ (.inr (prefix_append _ _))
  have hafter : afterLf (f.text ++ rest) = some rest := f.isLine.afterLf rest
  have hlf : '\n' ∈ cstring (f.text ++ rest) := by
    by_contra hnot
    rw [afterLf, if_neg hnot] at hafter
    cases hafter
  have hhead := f.isLine.head (s := f.text ++ rest)
    ⟨['\r', '\n'] ++ rest, by simp [Field.text_eq]⟩
  rw [scanLine, if_neg (not_ended_of_head hhead), hfirst,
    if_neg Bool.false_ne_true, if_neg (not_not.mpr hlf),
    headerPair_field, hafter]

theorem scan_first {line rest : List Char} (hline : IsLine line)
    (hfirst : d.isFirst (line ++ ['\r', '\n'] ++ rest) = true) :
    scan d (line ++ ['\r', '\n'] ++ rest) =
      ((d.key, d.value (line ++ ['\r', '\n'] ++ rest)) :: (scan d rest).1,
        (scan d rest).2) := by
  refine scan_of_pair ?_
  have hhead := hline.head (s := line ++ ['\r', '\n'] ++ rest)
    ⟨['\r', '\n'] ++ rest, by simp⟩
  rw [scanLine, if_neg (not_ended_of_head hhead), if_pos hfirst, hline.afterLf]

theorem scanLine_cut (hfirst : d.isFirst p = false) (hlf : '\n' ∉ p) :
    scanLine d p = .cut := by
  have hnot : ¬ (p.head? = some '\n' ∨ p.take 2 = ['\r', '\n']) := by
    rintro (hhead | htake)
    · exact hlf (mem_of_mem_head? hhead)
    · refine hlf (mem_of_mem_take (i := 2) ?_)
      rw [htake]
      decide
  have hcut : '\n' ∉ cstring p := fun h =>
    hlf ((takeWhile_sublist _).subset h)
  rw [scanLine, if_neg hnot, hfirst, if_neg Bool.false_ne_true, if_pos hcut]

/-! ## Buffers of lines -/

def fieldsText (fields : List Field) : List Char :=
  (fields.map Field.text).flatten

def fieldPairs (fields : List Field) : List (List Char × List Char) :=
  fields.map fun f => (f.name, f.value)

@[simp] theorem fieldsText_nil : fieldsText [] = [] := rfl

@[simp] theorem fieldsText_cons (f : Field) (fields : List Field) :
    fieldsText (f :: fields) = f.text ++ fieldsText fields := rfl

@[simp] theorem fieldsText_append (fields fields' : List Field) :
    fieldsText (fields ++ fields') =
      fieldsText fields ++ fieldsText fields' := by
  simp [fieldsText]

theorem nul_not_mem_fieldsText (fields : List Field) :
    '\x00' ∉ fieldsText fields := by
  intro h
  obtain ⟨text, htext, hmem⟩ := mem_flatten.mp h
  obtain ⟨f, -, rfl⟩ := mem_map.mp htext
  rw [Field.text_eq] at hmem
  rcases mem_append.mp hmem with hmem | hmem
  · exact f.isLine.not_mem (by decide) hmem
  · exact absurd hmem (by decide)

theorem scan_fields {fields : List Field} (h : ∀ f ∈ fields, d.Skips f)
    (rest : List Char) :
    scan d (fieldsText fields ++ rest) =
      (fieldPairs fields ++ (scan d rest).1, (scan d rest).2) := by
  induction fields with
  | nil => rfl
  | cons f fields ih =>
    rw [fieldsText_cons, append_assoc,
      scan_of_pair (scanLine_field (h f mem_cons_self) _),
      ih fun g hg => h g (mem_cons_of_mem _ hg)]
    rfl

variable {t : List Char}

/-! ## Buffers that are cut anywhere -/

/-- The part of the next line, or of the empty line, that has arrived. -/
def Part (todo : List Field) (t : List Char) : Prop :=
  match todo with
  | f :: _ => t <+: f.text ∧ t.length < f.text.length
  | [] => t <+: ['\r', '\n'] ∧ t.length < 2

variable {todo : List Field}

theorem Part.not_mem (h : Part todo t) {c : Char} (hc : c ∈ ['\n', '\x00']) :
    c ∉ t := by
  obtain ⟨line, hline, ht, hlt⟩ : ∃ line : List Char,
      (∀ c ∈ line, c ∉ ['\r', '\n', '\x00']) ∧
        t <+: line ++ ['\r', '\n'] ∧
        t.length < (line ++ ['\r', '\n']).length := by
    cases todo with
    | cons f todo => exact ⟨f.content, f.isLine.mem, h.1, h.2⟩
    | nil => exact ⟨[], nofun, h.1, h.2⟩
  have hpart : t <+: line ++ ['\r'] := by
    refine prefix_of_prefix_length_le ht ?_ ?_
    · exact (prefix_append_right_inj _).mpr ⟨['\n'], rfl⟩
    · simp only [length_append, length_cons] at hlt ⊢
      omega
  intro hmem
  rcases mem_append.mp (hpart.subset hmem) with h | h
  · exact hline c h (mem_cons_of_mem _ hc)
  · rw [mem_singleton.mp h] at hc
    exact absurd hc (by decide)

theorem Part.length_lt (h : Part todo t) :
    t.length < (fieldsText todo).length + 2 := by
  cases todo with
  | cons f todo =>
    have := h.2
    rw [fieldsText_cons, length_append]
    omega
  | nil => exact h.2

/-- The first line is not taken for what has arrived of the empty line. -/
def Dialect.SkipsBlank (d : Dialect) : Prop :=
  d.isFirst [] = false ∧ d.isFirst ['\r'] = false

theorem scan_of_part (hskips : ∀ f ∈ todo, d.Skips f) (hblank : d.SkipsBlank)
    (h : Part todo t) : scan d t = ([], .left t) := by
  refine scan_of_cut (scanLine_cut ?_ (h.not_mem (by decide)))
  cases todo with
  | cons f todo => exact hskips f mem_cons_self t (.inl h.1)
  | nil =>
    have hpre : t <+: ['\r'] :=
      prefix_of_prefix_length_le h.1 ⟨['\n'], rfl⟩
        (Nat.lt_succ_iff.mp h.2)
    rcases prefix_cons_iff.mp hpre with rfl | ⟨t', rfl, ht'⟩
    · exact hblank.1
    · rw [prefix_nil.mp ht']
      exact hblank.2

variable {x body : List Char}

/-- What has arrived ends within a line or after the empty line. -/
theorem cut_cases (hx : x <+: fieldsText todo ++ ['\r', '\n'] ++ body) :
    (∃ more todo' t, todo = more ++ todo' ∧ x = fieldsText more ++ t ∧
      Part todo' t) ∨
    ∃ b, x = fieldsText todo ++ '\r' :: '\n' :: b := by
  induction todo generalizing x with
  | nil =>
    rcases Nat.lt_or_ge x.length 2 with hlt | hge
    · exact .inl ⟨[], [], x, rfl, rfl, prefix_of_prefix_length_le hx
        (prefix_append _ _) hlt.le, hlt⟩
    · obtain ⟨b, rfl⟩ : ['\r', '\n'] <+: x :=
        prefix_of_prefix_length_le (prefix_append _ _) hx hge
      exact .inr ⟨b, rfl⟩
  | cons f todo ih =>
    rw [fieldsText_cons, append_assoc, append_assoc] at hx
    rcases Nat.lt_or_ge x.length f.text.length with hlt | hge
    · exact .inl ⟨[], f :: todo, x, rfl, rfl, prefix_of_prefix_length_le
        hx (prefix_append _ _) hlt.le, hlt⟩
    · obtain ⟨x', rfl⟩ : f.text <+: x :=
        prefix_of_prefix_length_le (prefix_append _ _) hx hge
      rw [prefix_append_right_inj, ← append_assoc] at hx
      rcases ih hx with ⟨more, todo', t, rfl, rfl, ht⟩ | ⟨b, rfl⟩
      · exact .inl ⟨f :: more, todo', t, rfl, by simp, ht⟩
      · exact .inr ⟨b, by simp⟩

/-- What the scanner finds in what has arrived of the rest of the request, also
if it is taken for a string. -/
theorem scan_cases (hskips : ∀ f ∈ todo, d.Skips f) (hblank : d.SkipsBlank)
    (hx : x <+: fieldsText todo ++ ['\r', '\n'] ++ body) :
    (∃ more todo' t, todo = more ++ todo' ∧ x = fieldsText more ++ t ∧
      Part todo' t ∧ scan d x = (fieldPairs more, .left t) ∧
      scan d (cstring x) = (fieldPairs more, .left t)) ∨
    ∃ b, x = fieldsText todo ++ '\r' :: '\n' :: b ∧
      scan d x = (fieldPairs todo, .ended) ∧
      scan d (cstring x) = (fieldPairs todo, .ended) := by
  rcases cut_cases hx with ⟨more, todo', t, rfl, rfl, ht⟩ | ⟨b, rfl⟩
  · have hmore : ∀ f ∈ more, d.Skips f := fun f hf =>
      hskips f (mem_append_left _ hf)
    have hrest : ∀ f ∈ todo', d.Skips f := fun f hf =>
      hskips f (mem_append_right _ hf)
    have hscan : scan d (fieldsText more ++ t) = (fieldPairs more, .left t) := by
      rw [scan_fields hmore, scan_of_part hrest hblank ht, append_nil]
    have hnul : '\x00' ∉ fieldsText more ++ t := by
      intro h
      rcases mem_append.mp h with h | h
      · exact nul_not_mem_fieldsText more h
      · exact ht.not_mem (by decide) h
    refine .inl ⟨more, todo', t, rfl, rfl, ht, hscan, ?_⟩
    rw [cstring_eq_self hnul, hscan]
  · have hscan : ∀ b, scan d (fieldsText todo ++ '\r' :: '\n' :: b) =
        (fieldPairs todo, .ended) := by
      intro b
      rw [scan_fields hskips, scan, scanLines, scanLine, if_pos (.inr rfl),
        append_nil]
    refine .inr ⟨b, rfl, hscan b, ?_⟩
    rw [cstring_append (nul_not_mem_fieldsText todo)]
    exact hscan (cstring b)

/-! ## The search for the empty line -/

/-- `strstr`: where the first occurrence starts. -/
def strstr (needle : List Char) : List Char → Option ℕ
  | [] => if needle = [] then some 0 else none
  | c :: s =>
    if needle.isPrefixOf (c :: s) then some 0
    else (strstr needle s).map (· + 1)

def endOffset (header : List Char) : Option ℕ :=
  match strstr ['\r', '\n', '\r', '\n'] (cstring header),
      strstr ['\n', '\n'] (cstring header) with
  | some i, some j => if i < j then some (i + 4) else some (j + 2)
  | some i, none => some (i + 4)
  | none, some j => some (j + 2)
  | none, none => none

def findEnd (header : List Char) : Option (List Char) :=
  (endOffset header).bind fun n =>
    if header.drop n = [] then none else some (header.drop n)

theorem strstr_append {needle s t : List Char} (hfound : needle <+: t)
    (hnot : ∀ i < s.length, ¬ needle <+: (s ++ t).drop i) :
    strstr needle (s ++ t) = some s.length := by
  induction s with
  | nil =>
    cases t with
    | nil =>
      have : needle = [] := prefix_nil.mp hfound
      simp [strstr, this]
    | cons c t =>
      rw [nil_append, strstr, if_pos (List.isPrefixOf_iff_prefix.mpr hfound)]
      rfl
  | cons c s ih =>
    have hhere : ¬ needle.isPrefixOf (c :: (s ++ t)) = true := by
      rw [List.isPrefixOf_iff_prefix]
      exact hnot 0 (Nat.succ_pos _)
    rw [cons_append, strstr, if_neg hhere, ih]
    · rfl
    · intro i hi
      exact hnot (i + 1) (Nat.succ_lt_succ hi)

theorem prefix_of_strstr {needle s : List Char} {i : ℕ}
    (h : strstr needle s = some i) : needle <+: s.drop i := by
  induction s generalizing i with
  | nil =>
    unfold strstr at h
    split at h
    · next hnil => simp [hnil]
    · cases h
  | cons c s ih =>
    unfold strstr at h
    split at h
    · next hhere =>
        cases h
        exact isPrefixOf_iff_prefix.mp hhere
    · obtain ⟨j, hj, rfl⟩ := Option.map_eq_some_iff.mp h
      exact ih hj

theorem getElem?_of_prefix_drop {needle s : List Char} {i k : ℕ}
    (h : needle <+: s.drop i) (hk : k < needle.length) :
    s[i + k]? = needle[k]? := by
  obtain ⟨rest, hrest⟩ := h
  rw [← getElem?_drop, ← hrest, getElem?_append_left hk]

/-- Lines without the end of the last one: after every LF there is more of a
line. -/
structure IsLines (x : List Char) : Prop where
  head : ∃ c, x.head? = some c ∧ c ≠ '\r' ∧ c ≠ '\n'
  next : ∀ k : ℕ, x[k]? = some '\n' →
    ∃ c, x[k + 1]? = some c ∧ c ≠ '\r' ∧ c ≠ '\n'
  nul : '\x00' ∉ x

variable {line : List Char}

theorem IsLine.lines (h : IsLine line) : IsLines line where
  head := h.head (prefix_refl _)
  next _ hk := absurd (mem_of_getElem? hk) (h.not_mem (by decide))
  nul := h.not_mem (by decide)

theorem IsLines.cons {y : List Char} (h : IsLine line) (hy : IsLines y) :
    IsLines (line ++ ['\r', '\n'] ++ y) := by
  have hlen : (line ++ ['\r', '\n']).length = line.length + 2 := by simp
  refine ⟨h.head ⟨['\r', '\n'] ++ y, by simp⟩, fun k hk => ?_, ?_⟩
  · rcases Nat.lt_or_ge k (line.length + 2) with hlt | hge
    · rw [getElem?_append_left (by omega)] at hk
      have hk' : k = line.length + 1 := by
        rcases Nat.lt_or_ge k line.length with hkx | hkx
        · rw [getElem?_append_left hkx] at hk
          exact absurd (mem_of_getElem? hk) (h.not_mem (by decide))
        · rw [getElem?_append_right hkx] at hk
          by_contra hne
          have : k - line.length = 0 := by omega
          rw [this] at hk
          cases hk
      obtain ⟨c, hc, hne⟩ := hy.head
      refine ⟨c, ?_, hne⟩
      rw [hk', getElem?_append_right (by omega), hlen, Nat.sub_self,
        ← head?_eq_getElem?, hc]
    · rw [getElem?_append_right (by omega), hlen] at hk
      obtain ⟨c, hc, hne⟩ := hy.next _ hk
      refine ⟨c, ?_, hne⟩
      rw [getElem?_append_right (by omega), hlen]
      rwa [show k + 1 - (line.length + 2) = k - (line.length + 2) + 1 by omega]
  · simp only [mem_append, not_or]
    exact ⟨⟨h.not_mem (by decide), by decide⟩, hy.nul⟩

theorem isLines_fields (fields : List Field) (f : Field) :
    IsLines (fieldsText fields ++ f.content) := by
  induction fields with
  | nil => exact f.isLine.lines
  | cons g fields ih =>
    rw [fieldsText_cons, append_assoc, Field.text_eq]
    exact .cons g.isLine ih

/-- The search finds the empty line after a line. -/
theorem endOffset_append (hx : IsLines x) (b : List Char) :
    endOffset (x ++ '\r' :: '\n' :: '\r' :: '\n' :: b) =
      some (x.length + 4) := by
  obtain ⟨s, hs⟩ : ∃ s, s = x ++ '\r' :: '\n' :: '\r' :: '\n' :: cstring b :=
    ⟨_, rfl⟩
  have hstring : cstring (x ++ '\r' :: '\n' :: '\r' :: '\n' :: b) = s := by
    rw [hs, cstring_append hx.nul]
    rfl
  -- an LF within `x` is followed by neither CR nor LF
  have hnext : ∀ {i c}, i < x.length → s[i]? = some '\n' →
      s[i + 1]? = some c → c ≠ '\r' ∧ c ≠ '\n' := by
    intro i c hi hlf hc
    rw [hs, getElem?_append_left hi] at hlf
    obtain ⟨c', hc', hne⟩ := hx.next i hlf
    rw [hs, getElem?_append_left (List.getElem?_eq_some_iff.mp hc').1, hc'] at hc
    cases hc
    exact hne
  have hcr : s[x.length]? = some '\r' := by
    rw [hs, getElem?_append_right le_rfl, Nat.sub_self]
    rfl
  have hfirst : strstr ['\r', '\n', '\r', '\n'] s = some x.length := by
    rw [hs]
    refine strstr_append ⟨cstring b, rfl⟩ fun i hi hpre => ?_
    rw [← hs] at hpre
    have h1 := getElem?_of_prefix_drop (k := 1) hpre (by decide)
    have h2 := getElem?_of_prefix_drop (k := 2) hpre (by decide)
    rcases Nat.lt_or_ge (i + 1) x.length with hlt | hge
    · exact (hnext hlt h1 h2).1 rfl
    · rw [show i + 1 = x.length by omega, hcr] at h1
      cases h1
  unfold endOffset
  rw [hstring, hfirst]
  cases hsecond : strstr ['\n', '\n'] s with
  | none => rfl
  | some j =>
    have hpre := prefix_of_strstr hsecond
    have h0 := getElem?_of_prefix_drop (k := 0) hpre (by decide)
    have h1 := getElem?_of_prefix_drop (k := 1) hpre (by decide)
    have hlt : x.length < j := by
      by_contra hge
      rcases Nat.lt_or_ge j x.length with hj | hj
      · exact (hnext hj h0 h1).2 rfl
      · rw [show j + 0 = x.length by omega, hcr] at h0
        cases h0
    simp only
    rw [if_pos hlt]

theorem findEnd_append (hx : IsLines x) (b : List Char) :
    findEnd (x ++ '\r' :: '\n' :: '\r' :: '\n' :: b) =
      if b = [] then none else some b := by
  have hdrop : (x ++ '\r' :: '\n' :: '\r' :: '\n' :: b).drop (x.length + 4) =
      b := by
    rw [← drop_drop, drop_left]
    rfl
  rw [findEnd, endOffset_append hx]
  simp only [Option.bind_some, hdrop]

theorem findEnd_fields {first : List Char}
    (hfirst : ∀ {s}, IsLines s → IsLines (first ++ s)) {fields : List Field}
    (hne : fields ≠ []) (b : List Char) :
    findEnd (first ++ (fieldsText fields ++ '\r' :: '\n' :: b)) =
      if b = [] then none else some b := by
  obtain ⟨before, f, rfl⟩ := eq_nil_or_concat fields |>.resolve_left hne
  have htext : first ++ (fieldsText (before.concat f) ++ '\r' :: '\n' :: b) =
      first ++ (fieldsText before ++ f.content) ++
        '\r' :: '\n' :: '\r' :: '\n' :: b := by
    simp [Field.text_eq]
  rw [htext]
  exact findEnd_append (hfirst (isLines_fields before f)) b

theorem findEnd_first (hline : IsLine line) (fields : List Field)
    (b : List Char) :
    findEnd (line ++ ['\r', '\n'] ++
        (fieldsText fields ++ '\r' :: '\n' :: b)) =
      if b = [] then none else some b := by
  by_cases hne : fields = []
  · rw [hne, fieldsText_nil, append_assoc]
    exact findEnd_append hline.lines b
  · exact findEnd_fields (.cons hline) hne b

/-- Without it the search loses data. -/
theorem findEnd_blank {b q : List Char}
    (h : findEnd ('\r' :: '\n' :: b) = some q) : q.length < b.length := by
  obtain ⟨n, hn, hq⟩ := Option.bind_eq_some_iff.mp h
  have hoffset : 3 ≤ n := by
    have hsecond : ∀ j, strstr ['\n', '\n'] (cstring ('\r' :: '\n' :: b)) =
        some j → 1 ≤ j := by
      intro j hj
      by_contra hzero
      have hpre := prefix_of_strstr hj
      have h0 := getElem?_of_prefix_drop (k := 0) hpre (by decide)
      rw [show j + 0 = 0 by omega] at h0
      have hhead : (cstring ('\r' :: '\n' :: b))[0]? = some '\r' := rfl
      rw [hhead] at h0
      cases h0
    unfold endOffset at hn
    split at hn
    · next i j hi hj =>
        have := hsecond j hj
        split at hn
        · cases hn
          omega
        · cases hn
          omega
    · cases hn
      omega
    · next j _ hj =>
        have := hsecond j hj
        cases hn
        omega
    · cases hn
  split at hq
  · cases hq
  · next hne =>
      cases hq
      have hlen := length_pos_of_ne_nil hne
      simp only [length_drop, length_cons] at hlen ⊢
      omega

/-! ## The line that is being read -/

/-- How many bytes have arrived since the last LF. -/
def sinceLf (s : List Char) : ℕ := (s.reverse.takeWhile (· != '\n')).length

theorem sinceLf_append {x t : List Char} (ht : '\n' ∉ t) :
    sinceLf (x ++ '\n' :: t) = t.length := by
  rw [sinceLf, reverse_append, reverse_cons, append_assoc, singleton_append,
    takeWhile_bne_append (mt mem_reverse.mp ht), length_reverse]

theorem sinceLf_le (s : List Char) : sinceLf s ≤ s.length := by
  have hle := (takeWhile_sublist (l := s.reverse) (· != '\n')).length_le
  rwa [length_reverse] at hle

theorem sinceLf_of_not_mem (h : '\n' ∉ s) : sinceLf s = s.length := by
  have hall : ∀ c ∈ s.reverse, (c != '\n') = true :=
    bne_of_not_mem (mt mem_reverse.mp h)
  rw [sinceLf, takeWhile_eq_self_iff.mpr hall, length_reverse]

/-! ## A header that arrives -/

/-- What has arrived: the first line, some lines, and a part of the next. -/
def received (line : List Char) (done : List Field) (t : List Char) :
    List Char :=
  line ++ fieldsText done ++ t

section Received

variable {fields done more : List Field} {packet t' rest : List Char}

theorem length_received :
    (received line done t).length =
      line.length + (fieldsText done).length + t.length := by
  simp only [received, length_append]

theorem length_header (h : fields = done ++ todo) :
    (line ++ fieldsText fields ++ ['\r', '\n']).length =
      line.length + (fieldsText done).length + (fieldsText todo).length + 2 := by
  simp only [h, fieldsText_append, length_append, length_cons, length_nil]
  omega

theorem length_received_lt (h : fields = done ++ todo) (ht : Part todo t) :
    (received line done t).length <
      (line ++ fieldsText fields ++ ['\r', '\n']).length := by
  have hlt := ht.length_lt
  rw [length_received, length_header h]
  omega

theorem sinceLf_received (ht : Part todo t) :
    sinceLf (received (line ++ ['\r', '\n']) done t) = t.length := by
  obtain ⟨y, hy⟩ : ∃ y, line ++ ['\r', '\n'] ++ fieldsText done =
      y ++ ['\n'] := by
    rcases eq_nil_or_concat done with rfl | ⟨before, f, rfl⟩
    · exact ⟨line ++ ['\r'], by simp⟩
    · refine ⟨line ++ ['\r', '\n'] ++ fieldsText before ++ f.content ++ ['\r'],
        ?_⟩
      simp [Field.text_eq]
  rw [received, hy, append_assoc, singleton_append]
  exact sinceLf_append (ht.not_mem (by decide))

theorem received_append (hx : t ++ packet = fieldsText more ++ t') :
    received line done t ++ packet = received line (done ++ more) t' := by
  rw [received, append_assoc, hx, received, fieldsText_append]
  simp only [append_assoc]

theorem rest_of_received (h : fields = done ++ todo)
    (hbytes : received line done t ++ rest =
      line ++ fieldsText fields ++ ['\r', '\n'] ++ body) :
    t ++ rest = fieldsText todo ++ ['\r', '\n'] ++ body := by
  rw [h, fieldsText_append, received] at hbytes
  simpa only [append_assoc, append_cancel_left_eq] using hbytes

end Received

/-! ## Packets -/

/-- Each packet meets a condition, given what has arrived before it. -/
def EachPacket (ok : List Char → List Char → Prop) (before : List Char)
    (packets : List (List Char)) : Prop :=
  ∀ mid packet after, packets = mid ++ packet :: after →
    ok (before ++ mid.flatten) packet

theorem eachPacket_cons {ok : List Char → List Char → Prop}
    {before packet : List Char} {packets : List (List Char)} :
    EachPacket ok before (packet :: packets) ↔
      ok before packet ∧ EachPacket ok (before ++ packet) packets := by
  constructor
  · intro h
    refine ⟨by simpa using h [] packet packets rfl, ?_⟩
    intro mid p after hpackets
    have hmid := h (packet :: mid) p after (by rw [hpackets]; rfl)
    simpa using hmid
  · rintro ⟨hhead, htail⟩ mid p after hpackets
    cases mid with
    | nil =>
      obtain ⟨rfl, rfl⟩ := List.cons.inj hpackets
      simpa using hhead
    | cons first mid =>
      obtain ⟨rfl, rfl⟩ := List.cons.inj hpackets
      have hlater := htail mid p after rfl
      simpa using hlater

instance EachPacket.decidable {ok : List Char → List Char → Prop}
    [∀ before packet, Decidable (ok before packet)] :
    ∀ before packets, Decidable (EachPacket ok before packets)
  | _, [] => .isTrue fun mid _ _ hnil => by cases mid <;> cases hnil
  | before, packet :: packets =>
    have : Decidable (EachPacket ok (before ++ packet) packets) :=
      EachPacket.decidable _ packets
    decidable_of_iff' _ eachPacket_cons

end UnrealIrcd.Support
