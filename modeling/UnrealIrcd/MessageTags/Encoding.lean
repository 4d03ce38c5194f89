import UnrealIrcd.MessageTags.Model

/-!
# The text of message tags

`encodeTag` is the text of a tag without any buffer in between.  Parsing the
text of a tag gives the tag, and the text of a parsed tag is never longer than
what it was parsed from.
-/

namespace UnrealIrcd.MessageTags

open Support List

/-! ## Escaping -/

def escapeChar (c : Char) : List Char :=
  if needsEscape c then ['\\', escapeLetter c] else [c]

def escapeAll (s : List Char) : List Char := s.flatMap escapeChar

@[simp] theorem escapeAll_nil : escapeAll [] = [] := rfl

@[simp] theorem escapeAll_cons (c : Char) (s : List Char) :
    escapeAll (c :: s) = escapeChar c ++ escapeAll s := by
  simp [escapeAll]

theorem length_escapeChar_le (c : Char) : (escapeChar c).length ≤ 2 := by
  unfold escapeChar
  split <;> simp

theorem length_le_length_escapeAll (s : List Char) :
    s.length ≤ (escapeAll s).length := by
  induction s with
  | nil => simp
  | cons c s ih =>
    have hc : 1 ≤ (escapeChar c).length := by
      unfold escapeChar
      split <;> simp
    simp only [escapeAll_cons, length_cons, length_append]
    omega

theorem escapeAll_replicate {c : Char} (h : needsEscape c = false) (n : ℕ) :
    escapeAll (List.replicate n c) = List.replicate n c := by
  induction n with
  | zero => rfl
  | succ n ih => simp [replicate_succ, escapeChar, h, ih]

/-- The buffer cuts the text, but only if it does not fit. -/
theorem messageTagEscape_isPrefixOf (s : List Char) (room : ℕ) :
    messageTagEscape s room <+: escapeAll s := by
  induction s generalizing room with
  | nil => simp [messageTagEscape]
  | cons c s ih =>
    simp only [messageTagEscape, escapeAll_cons, escapeChar]
    split
    · split
      · exact nil_prefix
      · simpa using ih (room - 2)
    · split
      · exact nil_prefix
      · simpa using ih (room - 1)

theorem messageTagEscape_eq_escapeAll
    {s : List Char} {room : ℕ} (h : (escapeAll s).length < room) :
    messageTagEscape s room = escapeAll s := by
  induction s generalizing room with
  | nil => simp [messageTagEscape]
  | cons c s ih =>
    rw [escapeAll_cons, length_append] at h
    simp only [messageTagEscape, escapeAll_cons]
    unfold escapeChar at h ⊢
    split
    · next hc =>
        simp only [hc, if_true, length_cons, length_nil] at h
        rw [if_neg (by omega), ih (by omega)]
        rfl
    · next hc =>
        simp only [hc, Bool.false_eq_true, if_false, length_cons,
          length_nil] at h
        rw [if_neg (by omega), ih (by omega)]
        rfl

/-- No escaped text contains a separator of tags, a space or a line end. -/
def isPlain (c : Char) : Bool :=
  c != ';' && c != ' ' && c != '\r' && c != '\n'

theorem isPlain_of_mem_escapeAll
    {s : List Char} {c : Char} (h : c ∈ escapeAll s) : isPlain c = true := by
  obtain ⟨d, -, hd⟩ := mem_flatMap.mp h
  unfold escapeChar at hd
  split at hd
  · rcases mem_pair.mp hd with rfl | rfl
    · decide
    · unfold escapeLetter
      split_ifs <;> decide
  · next hplain =>
      rw [mem_singleton.mp hd]
      simp only [needsEscape, Bool.or_eq_true, beq_iff_eq, not_or] at hplain
      simp [isPlain, hplain]

/-- An equals sign in the text stands for itself. -/
theorem equals_mem_of_mem_escapeAll {s : List Char} (h : '=' ∈ escapeAll s) :
    '=' ∈ s := by
  obtain ⟨d, hd, hmem⟩ := mem_flatMap.mp h
  unfold escapeChar at hmem
  split at hmem
  · rcases mem_pair.mp hmem with h' | h'
    · exact absurd h' (by decide)
    · unfold escapeLetter at h'
      split_ifs at h' <;> exact absurd h' (by decide)
  · rwa [mem_singleton.mp hmem]

theorem unescapeLetter_escapeLetter {c : Char} (h : needsEscape c = true) :
    unescapeLetter (escapeLetter c) = c := by
  simp only [needsEscape, Bool.or_eq_true, beq_iff_eq] at h
  rcases h with (((rfl | rfl) | rfl) | rfl) | rfl <;> decide

theorem messageTagUnescape_escapeAll (s : List Char) :
    messageTagUnescape (escapeAll s) = s := by
  induction s with
  | nil => rfl
  | cons c s ih =>
    simp only [escapeAll_cons, escapeChar]
    split
    · next hc =>
        simp [messageTagUnescape, unescapeLetter_escapeLetter hc, ih]
    · next hc =>
        have hne : c ≠ '\\' := by
          rintro rfl
          exact hc rfl
        rw [singleton_append]
        cases hs : escapeAll s <;> simp_all [messageTagUnescape]

/-- Escaping again what was unescaped never makes it longer than the text it
was read from. -/
theorem length_escapeAll_unescape_le
    {text : List Char} (h : ∀ c ∈ text, isPlain c = true) :
    (escapeAll (messageTagUnescape text)).length ≤ text.length := by
  fun_induction messageTagUnescape text with
  | case1 | case2 => simp
  | case3 c rest ih =>
    have hrest := ih fun d hd => h d (by simp [hd])
    have hc := length_escapeChar_le (unescapeLetter c)
    simp only [escapeAll_cons, length_append, length_cons]
    omega
  | case4 c rest hlast hpair ih =>
    have hrest := ih fun d hd => h d (by simp [hd])
    have hslash : c ≠ '\\' := by
      intro hc
      cases rest with
      | nil => exact hlast hc rfl
      | cons d rest => exact hpair d rest hc rfl
    have hchar : escapeChar c = [c] := by
      have hplain := h c (by simp)
      simp only [isPlain, Bool.and_eq_true, bne_iff_ne] at hplain
      simp [escapeChar, needsEscape, hplain, hslash]
    simp only [escapeAll_cons, hchar, length_append, length_cons, length_nil]
    omega

/-! ## Tags -/

def encodeTag (m : MessageTag) : List Char :=
  match m.value with
  | some value => escapeAll m.name ++ '=' :: (escapeAll value ++ [';'])
  | none => escapeAll m.name ++ [';']

def encodedSize (m : MessageTag) : ℕ := (encodeTag m).length

/-- Tags as they are meant to be: a nonempty name without special characters,
and a value that is not empty if there is one. -/
structure MessageTag.WellFormed (m : MessageTag) : Prop where
  name_ne_nil : m.name ≠ []
  no_equals : '=' ∉ m.name
  no_semicolon : ';' ∉ m.name
  no_space : ' ' ∉ m.name
  value_ne_nil : m.value ≠ some []

def elementOf (m : MessageTag) : List Char :=
  match m.value with
  | some value => escapeAll m.name ++ '=' :: escapeAll value
  | none => escapeAll m.name

theorem encodeTag_eq (m : MessageTag) : encodeTag m = elementOf m ++ [';'] := by
  unfold encodeTag elementOf
  cases m.value <;> simp

theorem isPlain_of_mem_elementOf
    {m : MessageTag} {c : Char} (h : c ∈ elementOf m) : isPlain c = true := by
  unfold elementOf at h
  cases hvalue : m.value with
  | none =>
    rw [hvalue] at h
    exact isPlain_of_mem_escapeAll h
  | some value =>
    rw [hvalue] at h
    rcases mem_append.mp h with h | h
    · exact isPlain_of_mem_escapeAll h
    · rcases mem_cons.mp h with rfl | h
      · decide
      · exact isPlain_of_mem_escapeAll h

theorem parseElement_elementOf {m : MessageTag} (h : m.WellFormed) :
    parseElement (elementOf m) = (m.name, m.value.getD []) := by
  have hname : ∀ c ∈ escapeAll m.name, (c != '=') = true := by
    intro c hc
    have hne : c ≠ '=' := by
      rintro rfl
      exact h.no_equals (equals_mem_of_mem_escapeAll hc)
    simpa using hne
  unfold parseElement elementOf
  cases hvalue : m.value with
  | none =>
    simp only [takeWhile_eq_self_iff.mpr hname,
      dropWhile_eq_nil_iff.mpr hname, messageTagUnescape_escapeAll]
    rfl
  | some value =>
    simp only [takeWhile_append_of_pos hname, dropWhile_append_of_pos hname]
    simp [messageTagUnescape_escapeAll]

def tagOfElement (element : List Char) : MessageTag :=
  let (name, value) := parseElement element
  ⟨name, if value = [] then none else some value⟩

theorem tagOfElement_elementOf {m : MessageTag} (h : m.WellFormed) :
    tagOfElement (elementOf m) = m := by
  obtain ⟨name, value⟩ := m
  rw [tagOfElement, parseElement_elementOf h]
  cases value with
  | none => simp
  | some value =>
    have hne : value ≠ [] := fun hnil => h.value_ne_nil (by simp [hnil])
    simp [hne]

theorem encodedSize_tagOfElement_le
    {element : List Char} (h : ∀ c ∈ element, isPlain c = true) :
    encodedSize (tagOfElement element) ≤ element.length + 1 := by
  generalize hnames : element.takeWhile (· != '=') = names
  generalize hvalues : element.dropWhile (· != '=') = values
  have hsplit : element = names ++ values := by
    rw [← hnames, ← hvalues, takeWhile_append_dropWhile]
  have hname : (escapeAll (messageTagUnescape names)).length ≤ names.length :=
    length_escapeAll_unescape_le fun c hc => h c (by simp [hsplit, hc])
  have hvalue : (escapeAll (messageTagUnescape (values.drop 1))).length ≤
      (values.drop 1).length :=
    length_escapeAll_unescape_le fun c hc =>
      h c (by simp [hsplit, mem_of_mem_drop hc])
  have hlength : element.length = names.length + values.length := by
    simp [hsplit]
  simp only [tagOfElement, parseElement, hnames, hvalues, encodedSize,
    encodeTag]
  by_cases hnil : messageTagUnescape (values.drop 1) = []
  · simp only [hnil, if_true, length_append, length_singleton]
    omega
  · -- A nonempty value stands behind an equals sign.
    have hpos : 0 < (values.drop 1).length := by
      refine length_pos_iff.mpr fun hzero => hnil ?_
      rw [hzero]
      rfl
    rw [length_drop] at hvalue hpos
    simp only [if_neg hnil, length_append, length_cons, length_nil]
    omega

end UnrealIrcd.MessageTags
