import UnrealIrcd.Config.ReadPosition

/-!
# Writing and parsing a tree of entries

A tree is written entry by entry, with quoted names and values and braced
blocks, and parsed back.  The proof follows the tree: each piece of the written
text is one iteration of the parser, and `leads_write` puts the iterations for
an entry, its block and the entries next to it together.

`unreal_add_quotes` cuts what does not fit its buffer of 2048 bytes, so names
and values have to fit it with their escapes.
-/

namespace UnrealIrcd.Config

open Support List

/-! ## Escapes -/

/-- Escape a string, of any length. -/
def escape (str : List Char) : List Char :=
  str.flatMap fun c => if c = '"' ∨ c = '\\' then ['\\', c] else [c]

theorem escape_cons (c : Char) (str : List Char) :
    escape (c :: str) =
      (if c = '"' ∨ c = '\\' then ['\\', c] else [c]) ++ escape str :=
  rfl

variable {str : List Char}

theorem unrealAddQuotesLoop_eq_escape {len : ℕ}
    (h : (escape str).length ≤ len) :
    unrealAddQuotesLoop len str = escape str := by
  induction str generalizing len with
  | nil =>
    rw [unrealAddQuotesLoop]
    rfl
  | cons c str ih =>
    rw [escape_cons] at h ⊢
    rw [unrealAddQuotesLoop]
    split
    · next hc =>
        rw [if_pos hc] at h
        simp only [length_append, length_cons, length_nil] at h
        rw [if_neg (by omega), ih (by omega)]
        rfl
    · next hc =>
        rw [if_neg hc] at h
        simp only [length_append, length_cons, length_nil] at h
        rw [if_neg (by omega), ih (by omega)]
        rfl

/-- A string whose escaped form fits the buffer is escaped in full. -/
theorem unrealAddQuotes_eq_escape (h : (escape str).length ≤ 2047) :
    unrealAddQuotes str = escape str :=
  unrealAddQuotesLoop_eq_escape h

variable {c : Char}

theorem mem_escape (h : c ∈ escape str) : c ∈ str ∨ c = '\\' := by
  obtain ⟨d, hd, hc⟩ := mem_flatMap.mp h
  split at hc
  · simp only [mem_cons, not_mem_nil, or_false] at hc
    obtain hc | hc := hc
    · exact .inr hc
    · exact .inl (hc ▸ hd)
  · simp only [mem_singleton] at hc
    exact .inl (hc ▸ hd)

theorem unrealDelQuotes_cons (hc : c ≠ '\\') (str : List Char) :
    unrealDelQuotes (c :: str) = c :: unrealDelQuotes str := by
  cases str with
  | nil => rfl
  | cons d str => rw [unrealDelQuotes, if_neg fun h => hc h.1]

theorem unrealDelQuotes_escape (str : List Char) :
    unrealDelQuotes (escape str) = str := by
  induction str with
  | nil => rfl
  | cons c str ih =>
    rw [escape_cons]
    split
    · next hc =>
        rw [cons_append, singleton_append, unrealDelQuotes,
          if_pos ⟨rfl, hc.symm⟩, ih]
    · next hc =>
        rw [singleton_append, unrealDelQuotes_cons fun h => hc (.inr h), ih]

/-- Strings that can stand between quotes: no NUL, no line end, and no dollar
sign, which would start a variable. -/
structure Plain (str : List Char) : Prop where
  nul : nul ∉ str
  cr : '\r' ∉ str
  lf : '\n' ∉ str
  dollar : '$' ∉ str

theorem not_mem_escape (h : c ∉ str) (hc : c ≠ '\\') : c ∉ escape str := by
  intro hmem
  obtain hmem | heq := mem_escape hmem
  · exact h hmem
  · exact hc heq

section QuoteLoop

variable {escaped : Bool} {c : Char}

theorem quoteLoop_skip (hc : c ≠ '\\') (hends : endsQuote escaped c = false)
    (ptr : List Char) : quoteLoop escaped (c :: ptr) = quoteLoop escaped ptr := by
  cases ptr with
  | nil =>
    rw [quoteLoop, quoteLoop, if_neg]
    simp [hends]
  | cons d ptr => rw [quoteLoop, if_neg hc, if_neg (by simp [hends])]

end QuoteLoop

theorem quoteLoop_escape (hnul : nul ∉ str) (hlf : '\n' ∉ str)
    (rest : List Char) :
    quoteLoop false (escape str ++ '"' :: rest) = '"' :: rest := by
  induction str with
  | nil =>
    cases rest with
    | nil | cons d rest => rfl
  | cons c str ih =>
    simp only [mem_cons, not_or] at hnul hlf
    rw [escape_cons]
    split
    · next hc =>
        have hescapable : isEscapable c = true := by
          obtain rfl | rfl := hc
          · rfl
          · rfl
        rw [List.append_assoc, cons_append, singleton_append,
          quoteLoop, if_pos rfl, if_pos hescapable]
        exact ih hnul.2 hlf.2
    · next hc =>
        have hends : endsQuote false c = false := by
          simp only [endsQuote, Bool.or_eq_false_iff, beq_eq_false_iff_ne]
          exact ⟨⟨Ne.symm hnul.1, Ne.symm hlf.1⟩, fun h => hc (.inl h)⟩
        rw [List.append_assoc, singleton_append,
          quoteLoop_skip (fun h => hc (.inr h)) hends]
        exact ih hnul.2 hlf.2

/-! ## Trees -/

/-- A tree of entries: names, values and children. -/
inductive EntryTree where
  | nil
  | entry (name : List Char) (value : Option (List Char))
      (children next : EntryTree)
  deriving DecidableEq, Repr

def ConfigEntry.tree : ConfigEntry → EntryTree
  | .null => .nil
  | .entry info items next => .entry info.name info.value items.tree next.tree

def writeQuoted (str : List Char) : List Char :=
  '"' :: (unrealAddQuotes str ++ ['"'])

def writeValue : Option (List Char) → List Char
  | none => []
  | some value => ' ' :: writeQuoted value

/-- Write a tree.  An entry without children has an empty block or none. -/
def write (emptyBlock : Bool) : EntryTree → List Char
  | .nil => []
  | .entry name value children next =>
    writeQuoted name ++ writeValue value ++
      (if children = .nil ∧ !emptyBlock then []
        else [' ', '{', '\n'] ++ write emptyBlock children ++ ['}']) ++
      [';', '\n'] ++ write emptyBlock next

/-- Names and values that can be written. -/
def EntryTree.Each (P : List Char → Prop) : EntryTree → Prop
  | .nil => True
  | .entry name value children next =>
    P name ∧ (∀ v, value = some v → P v) ∧ children.Each P ∧ next.Each P

/-! ## Iterations over a written text -/

/-- A state with other entries, at another position. -/
def ParseState.at (s : ParseState) (ptr : List Char) (line : ℕ)
    (entries : Entries) : ParseState :=
  { s with
    ptr := ptr
    linenumber := line
    curce := entries.1
    sections := entries.2.1
    items := entries.2.2 }

/-- Link entries at the end of the current list. -/
def Entries.extend (entries : Entries) (ce : ConfigEntry) : Entries :=
  match entries.2.1 with
  | [] => (none, [], entries.2.2.append ce)
  | (info, items) :: sections =>
    (none, (info, items.append ce) :: sections, entries.2.2)

section Iterations

variable {srv : Server} {size : ℕ} {s : ParseState} {ptr : List Char}
  {line : ℕ} {entries : Entries}

theorem parseStep_blank :
    parseStep srv size (s.at (' ' :: ptr) line entries) =
      .inl (s.at ptr line entries) :=
  rfl

theorem parseStep_newline :
    parseStep srv size (s.at ('\n' :: ptr) line entries) =
      .inl (s.at ptr (line + 1) entries) :=
  rfl

variable {info : EntryInfo} {sections : List (EntryInfo × ConfigEntry)}
  {items : ConfigEntry}

theorem parseStep_openBrace :
    parseStep srv size
        (s.at ('{' :: ptr) line (some (info, .null), sections, items)) =
      .inl (s.at ptr line
        (none, ({ info with sectionLinenumber := line }, .null) :: sections,
          items)) :=
  rfl

theorem parseStep_closeBrace {children : ConfigEntry} :
    ∃ stop, parseStep srv size (s.at ('}' :: ';' :: ptr) line
        (none, (info, children) :: sections, items)) =
      .inl (s.at (';' :: ptr) line
        (some ({ info with filePositionEnd := stop }, children), sections,
          items)) :=
  ⟨_, rfl⟩

/-- The entry is linked, and there is no current entry any more. -/
theorem parseStep_semicolon {children : ConfigEntry} :
    ∃ stop sections' items',
      Entries.extend (none, sections, items)
          (.entry { info with filePositionEnd := stop } children .null) =
        (none, sections', items') ∧
      parseStep srv size (s.at (';' :: ptr) line
          (some (info, children), sections, items)) =
        .inl (s.at ptr line (none, sections', items')) := by
  refine ⟨size - (';' :: ptr).length, ?_⟩
  cases sections with
  | nil | cons section_ sections => exact ⟨_, _, rfl, rfl⟩

/-- Names and values that can be written: they are plain, and with their
escapes they fit the buffer of `unreal_add_quotes`. -/
structure Writable (str : List Char) : Prop where
  plain : Plain str
  fits : (escape str).length ≤ 2047

theorem writeQuoted_append (h : Writable str) :
    writeQuoted str ++ ptr = '"' :: (escape str ++ '"' :: ptr) := by
  rw [writeQuoted, unrealAddQuotes_eq_escape h.fits, cons_append,
    List.append_assoc, singleton_append]

/-- A written string is taken as a whole, from a state whose strings end at a
double quote. -/
theorem onQuote_escape (h : Plain str) (hbefore : beforeQuote size s '"' = s)
    (hescaped : s.escaped = false) :
    onQuote size s (escape str ++ '"' :: ptr) '"' =
      let taken := takeText { s with ptr := '"' :: ptr } str
        (size - (escape str ++ '"' :: ptr).length)
      if taken.2 then
        (taken.1.fail (.extraDataQuoted taken.1.linenumber)).afterSwitch
      else
        taken.1.afterSwitch := by
  have hstop : quoteLoop s.escaped (escape str ++ '"' :: ptr) = '"' :: ptr := by
    rw [hescaped]
    exact quoteLoop_escape h.nul h.lf ptr
  have hquote : ¬ (peek ('"' :: ptr) = nul ∨ peek ('"' :: ptr) = '\n') := by
    rw [peek]
    decide
  have htext : textBetween (escape str ++ '"' :: ptr) ('"' :: ptr) =
      escape str := by
    rw [textBetween, length_append, Nat.add_sub_cancel, take_left]
    exact cstring_eq_self (not_mem_escape h.nul (by decide))
  unfold onQuote
  simp only [hbefore, hstop]
  rw [if_neg hquote, htext, preprocessorReplaceDefines,
    if_neg (not_mem_escape h.dollar (by decide)), unrealDelQuotes_escape]

theorem parseStep_name {name : List Char} (h : Writable name) :
    ∃ start, parseStep srv size
        (s.at (writeQuoted name ++ ptr) line (none, sections, items)) =
      .inl (s.at ptr line (some (⟨name, none, line, start, 0, 0,
        preprocessorCcDuplicateList s.ccList, false⟩, .null), sections,
          items)) := by
  refine ⟨size - (escape name ++ '"' :: ptr).length, ?_⟩
  rw [writeQuoted_append h, parseStep_of_quote rfl]
  exact onQuote_escape h.plain rfl rfl

theorem parseStep_value {value : List Char} (h : Writable value)
    (hvalue : info.value = none) (hline : info.lineNumber = line)
    (hescaped : info.escaped = false) :
    parseStep srv size (s.at (writeQuoted value ++ ptr) line
        (some (info, .null), sections, items)) =
      .inl (s.at ptr line (some ({ info with value := some value }, .null),
        sections, items)) := by
  rw [writeQuoted_append h, parseStep_of_quote rfl]
  have hbefore : beforeQuote size (s.at ('"' :: (escape value ++ '"' :: ptr))
      line (some (info, .null), sections, items)) '"' =
      s.at ('"' :: (escape value ++ '"' :: ptr)) line
        (some (info, .null), sections, items) := by
    have hmark : info.markQuote '"' = info := if_neg (by decide)
    simp only [beforeQuote, ParseState.at, hmark]
    rw [if_neg fun hne => hne.1 hline]
  refine (onQuote_escape h.plain hbefore hescaped).trans ?_
  have htake (start : ℕ) : takeText (s.at ('"' :: ptr) line
      (some (info, .null), sections, items)) value start =
      (s.at ('"' :: ptr) line
        (some ({ info with value := some value }, .null), sections, items),
        false) := by
    simp only [takeText, ParseState.at]
    rw [if_neg (by simp [hvalue])]
  rw [show ({ s.at ('"' :: (escape value ++ '"' :: ptr)) line
      (some (info, .null), sections, items) with ptr := '"' :: ptr } :
      ParseState) = s.at ('"' :: ptr) line
        (some (info, .null), sections, items) from rfl, htake]
  rfl

end Iterations

/-! ## The round trip -/

section Extend

theorem ConfigEntry.append_null (ce : ConfigEntry) : ce.append .null = ce := by
  induction ce with
  | null => rfl
  | entry info items next _ ih => rw [ConfigEntry.append, ih]

theorem ConfigEntry.append_assoc (a b c : ConfigEntry) :
    (a.append b).append c = a.append (b.append c) := by
  induction a with
  | null => rfl
  | entry info items next _ ih =>
    rw [ConfigEntry.append, ConfigEntry.append, ih, ConfigEntry.append]

theorem Entries.extend_extend (entries : Entries) (a b : ConfigEntry) :
    (entries.extend a).extend b = entries.extend (a.append b) := by
  obtain ⟨curce, sections, items⟩ := entries
  cases sections with
  | nil => simp [Entries.extend, ConfigEntry.append_assoc]
  | cons section_ sections =>
    simp [Entries.extend, ConfigEntry.append_assoc]

end Extend

variable {tree : EntryTree}

section RoundTrip

variable {srv : Server} {size : ℕ} {s : ParseState} (ptr : List Char)
  (line : ℕ) (sections : List (EntryInfo × ConfigEntry)) (items : ConfigEntry)

theorem leads_header {name : List Char} {value : Option (List Char)}
    (hname : Writable name) (hvalue : ∀ v, value = some v → Writable v) :
    ∃ info : EntryInfo, info.name = name ∧ info.value = value ∧
      Leads (parseStep srv size)
        (s.at (writeQuoted name ++ writeValue value ++ ptr) line
          (none, sections, items))
        (s.at ptr line (some (info, .null), sections, items)) := by
  cases value with
  | none =>
    rw [writeValue, append_nil]
    obtain ⟨start, hstep⟩ := parseStep_name hname
    exact ⟨_, rfl, rfl, Leads.of_inl hstep⟩
  | some value =>
    rw [List.append_assoc, writeValue, cons_append]
    obtain ⟨start, hstep⟩ := parseStep_name hname
    refine ⟨_, ?_, ?_, Leads.head hstep (Leads.head parseStep_blank
      (Leads.of_inl (parseStep_value (hvalue value rfl) rfl rfl rfl)))⟩
    · rfl
    · rfl

/-- The iterations over a written tree link the entries of the tree. -/
theorem leads_write (emptyBlock : Bool) {tree : EntryTree}
    (h : tree.Each Writable) :
    ∃ ce : ConfigEntry, ce.tree = tree ∧ ∃ line',
      Leads (parseStep srv size)
        (s.at (write emptyBlock tree ++ ptr) line (none, sections, items))
        (s.at ptr line'
          (Entries.extend (none, sections, items) ce)) := by
  induction tree generalizing ptr line sections items with
  | nil =>
    refine ⟨.null, rfl, line, ?_⟩
    have hnull : Entries.extend (none, sections, items) .null =
        (none, sections, items) := by
      cases sections with
      | nil | cons section_ sections =>
        simp [Entries.extend, ConfigEntry.append_null]
    rw [hnull]
    exact Relation.ReflTransGen.refl
  | entry name value children next ihchildren ihnext =>
    obtain ⟨hname, hvalue, hchildren, hnext⟩ := h
    -- up to the semicolon the entry and its block are the current entry
    have hcurrent : ∃ (info : EntryInfo) (ce : ConfigEntry) (line' : ℕ),
        info.name = name ∧ info.value = value ∧ ce.tree = children ∧
        Leads (parseStep srv size)
          (s.at (write emptyBlock (.entry name value children next) ++ ptr)
            line (none, sections, items))
          (s.at (';' :: '\n' :: (write emptyBlock next ++ ptr)) line'
            (some (info, ce), sections, items)) := by
      rw [write]
      split
      · next hblock =>
          obtain ⟨info, hinfo, hinfo', hheader⟩ := @leads_header srv size s
            (';' :: '\n' :: (write emptyBlock next ++ ptr)) line sections
            items name value hname hvalue
          refine ⟨info, .null, line, hinfo, hinfo', hblock.1.symm, ?_⟩
          simpa using hheader
      · obtain ⟨info, hinfo, hinfo', hheader⟩ := @leads_header srv size s
          (' ' :: '{' :: '\n' :: (write emptyBlock children ++
            '}' :: ';' :: '\n' :: (write emptyBlock next ++ ptr))) line
          sections items name value hname hvalue
        obtain ⟨ce, hce, line', hleads⟩ := ihchildren
          ('}' :: ';' :: '\n' :: (write emptyBlock next ++ ptr)) (line + 1)
          (({ info with sectionLinenumber := line }, .null) :: sections)
          items hchildren
        obtain ⟨stop, hclose⟩ := @parseStep_closeBrace srv size s
          ('\n' :: (write emptyBlock next ++ ptr)) line'
          { info with sectionLinenumber := line } sections items ce
        refine ⟨{ info with sectionLinenumber := line, filePositionEnd := stop },
          ce, line', hinfo, hinfo', hce, ?_⟩
        have hblock := hheader.trans (Leads.head parseStep_blank
          (Leads.head parseStep_openBrace (Leads.head parseStep_newline
            (hleads.trans (Leads.of_inl hclose)))))
        simpa using hblock
    obtain ⟨info, ce, line', hinfo, hinfo', hce, hleads⟩ := hcurrent
    obtain ⟨stop, sections', items', hextend, hend⟩ :=
      @parseStep_semicolon srv size s
        ('\n' :: (write emptyBlock next ++ ptr)) line' info sections items ce
    obtain ⟨ce', hce', line'', hrest⟩ :=
      ihnext ptr (line' + 1) sections' items' hnext
    refine ⟨.entry { info with filePositionEnd := stop } ce ce', ?_, line'',
      ?_⟩
    · rw [ConfigEntry.tree, hce, hce', hinfo, hinfo']
    · have hleads := hleads.trans
        (Leads.head hend (Leads.head parseStep_newline hrest))
      rwa [← hextend, Entries.extend_extend] at hleads

theorem not_mem_write (emptyBlock : Bool) (h : tree.Each Writable)
    (hplain : ∀ str, Plain str → c ∉ str)
    (hc : c ∉ ['"', '\\', ' ', '{', '\n', '}', ';']) :
    c ∉ write emptyBlock tree := by
  simp only [mem_cons, not_mem_nil, or_false, not_or] at hc
  obtain ⟨hquote, hbackslash, hblank, hopen, hlf, hclose, hend⟩ := hc
  have hquoted : ∀ str, Writable str → c ∉ writeQuoted str := by
    intro str hstr
    rw [writeQuoted, unrealAddQuotes_eq_escape hstr.fits]
    simp only [mem_cons, mem_append, not_mem_nil, or_false, not_or]
    exact ⟨hquote, not_mem_escape (hplain str hstr.plain) hbackslash, hquote⟩
  induction tree with
  | nil => exact not_mem_nil
  | entry name value children next ihchildren ihnext =>
    obtain ⟨hname, hvalue, hchildren, hnext⟩ := h
    have hvalue' : c ∉ writeValue value := by
      cases value with
      | none => exact not_mem_nil
      | some value =>
        rw [writeValue, mem_cons, not_or]
        exact ⟨hblank, hquoted value (hvalue value rfl)⟩
    have hblock : c ∉ (if children = .nil ∧ !emptyBlock then []
        else [' ', '{', '\n'] ++ write emptyBlock children ++ ['}']) := by
      split
      · exact not_mem_nil
      · simp [hblank, hopen, hlf, hclose, ihchildren hchildren]
    rw [write]
    simp only [mem_append, mem_cons, not_mem_nil, or_false, not_or]
    exact ⟨⟨⟨⟨hquoted name hname, hvalue'⟩, hblock⟩, hend, hlf⟩, ihnext hnext⟩

end RoundTrip

theorem replaceCarriageReturns_eq {text : List Char} (hnul : nul ∉ text)
    (hcr : '\r' ∉ text) (after : List Char) :
    replaceCarriageReturns (text ++ nul :: after) = text ++ nul :: after := by
  rw [replaceCarriageReturns_append hnul]
  congr 1
  conv_rhs => rw [← map_id text]
  apply map_congr_left
  intro c hc
  rw [if_neg]
  · rfl
  · rintro rfl
    exact hcr hc

theorem exists_configParse_write (srv : Server) (defines : Defines)
    (emptyBlock : Bool) (tree : EntryTree) (after : List Char)
    (lineOffset : ℕ) (h : tree.Each Writable) :
    ∃ r file, configParseWithOffset srv defines
        (write emptyBlock tree ++ nul :: after) lineOffset = some r ∧
      r.file = some file ∧ file.tree = tree ∧ r.state.errors = 0 ∧
      r.state.messages = [] := by
  have hnul : nul ∉ write emptyBlock tree :=
    not_mem_write emptyBlock h (fun _ hstr => hstr.nul) (by decide)
  have hcr : '\r' ∉ write emptyBlock tree :=
    not_mem_write emptyBlock h (fun _ hstr => hstr.cr) (by decide)
  generalize hdata : write emptyBlock tree ++ nul :: after = confdata
  obtain ⟨ce, hce, line, hleads⟩ := @leads_write srv confdata.length
    (initialState defines confdata lineOffset) (nul :: after) (1 + lineOffset) []
    .null emptyBlock tree h
  have hstart : (initialState defines confdata lineOffset).at confdata
      (1 + lineOffset) (none, [], .null) =
      initialState defines confdata lineOffset := by
    rw [ParseState.at, initialState, ← hdata, replaceCarriageReturns_eq hnul hcr]
  rw [hdata, hstart] at hleads
  have hloop := hleads.stepLoop_eq (parseStep_shrinks srv _)
    (length_initialState_lt defines lineOffset _)
  refine ⟨_, ce, hloop.trans (stepLoop_inr rfl), rfl, hce, rfl, rfl⟩

theorem EntryTree.Each.and {P Q R : List Char → Prop} (hP : tree.Each P)
    (hQ : tree.Each Q) (hR : ∀ str, P str → Q str → R str) : tree.Each R := by
  induction tree with
  | nil => exact trivial
  | entry name value children next ihchildren ihnext =>
    obtain ⟨hname, hvalue, hchildren, hnext⟩ := hP
    obtain ⟨hname', hvalue', hchildren', hnext'⟩ := hQ
    exact ⟨hR name hname hname', fun v hv => hR v (hvalue v hv) (hvalue' v hv),
      ihchildren hchildren hchildren', ihnext hnext hnext'⟩

/-- A tree whose names and values have no NUL, no line end and no dollar sign,
and fit the buffer of `unreal_add_quotes` with their escapes, is parsed back
from its text, without an error and without a message. -/
theorem configParse_write (srv : Server) (defines : Defines)
    (emptyBlock : Bool) (tree : EntryTree) (after : List Char)
    (lineOffset : ℕ) (hplain : tree.Each Plain)
    (hfits : tree.Each fun str => (escape str).length ≤ 2047) :
    ∃ r file, configParseWithOffset srv defines
        (write emptyBlock tree ++ nul :: after) lineOffset = some r ∧
      r.file = some file ∧ file.tree = tree ∧ r.state.errors = 0 ∧
      r.state.messages = [] := by
  apply exists_configParse_write
  exact hplain.and hfits fun _ hstr hlength => ⟨hstr, hlength⟩

def sampleTree : EntryTree :=
  .entry "oper".toList (some "a\\\"b'".toList)
    (.entry "mask".toList none .nil .nil) .nil

theorem configParse_write_sample :
    ∃ r file, configParseWithOffset bareServer []
        (write false sampleTree ++ [nul]) 0 = some r ∧
      r.file = some file ∧ file.tree = sampleTree ∧ r.state.errors = 0 ∧
      r.state.messages = [] := by
  apply configParse_write
  · refine ⟨⟨by decide, by decide, by decide, by decide⟩, ?_,
      ⟨⟨by decide, by decide, by decide, by decide⟩, by simp, trivial,
        trivial⟩, trivial⟩
    rintro v ⟨⟩
    exact ⟨by decide, by decide, by decide, by decide⟩
  · refine ⟨by decide, ?_, ⟨by decide, by simp, trivial, trivial⟩, trivial⟩
    rintro v ⟨⟩
    decide

def longName (n : ℕ) : EntryTree :=
  .entry (List.replicate n 'a') none .nil .nil

theorem unrealAddQuotesLoop_replicate (len n : ℕ) :
    unrealAddQuotesLoop len (List.replicate n 'a') =
      List.replicate (min len n) 'a' := by
  induction n generalizing len with
  | zero =>
    rw [Nat.min_zero]
    rfl
  | succ n ih =>
    rw [replicate_succ, unrealAddQuotesLoop, if_neg (by decide)]
    split
    · next hlen =>
        rw [hlen, Nat.zero_min]
        rfl
    · rw [ih, ← replicate_succ]
      congr 1
      omega

theorem escape_replicate (n : ℕ) :
    escape (List.replicate n 'a') = List.replicate n 'a' := by
  induction n with
  | zero => rfl
  | succ n ih =>
    rw [replicate_succ, escape_cons, if_neg (by decide), ih]
    rfl

/-- A name of 2048 characters is cut when it is written. -/
theorem configParse_write_longName :
    ¬ ∃ r file, configParseWithOffset bareServer []
        (write false (longName 2048) ++ [nul]) 0 = some r ∧
      r.file = some file ∧ file.tree = longName 2048 := by
  have hquotes (n : ℕ) (hn : 2047 ≤ n) :
      unrealAddQuotes (List.replicate n 'a') = List.replicate 2047 'a' := by
    have hloop := unrealAddQuotesLoop_replicate 2047 n
    rwa [Nat.min_eq_left hn] at hloop
  have htext : write false (longName 2048) = write false (longName 2047) := by
    simp only [longName, write, writeQuoted, hquotes 2048 (by decide),
      hquotes 2047 (by decide)]
  have hwritable : (longName 2047).Each Writable := by
    have hne (c : Char) (hc : c ≠ 'a') : c ∉ List.replicate 2047 'a' :=
      fun hmem => hc (eq_of_mem_replicate hmem)
    refine ⟨⟨⟨hne _ (by decide), hne _ (by decide), hne _ (by decide),
      hne _ (by decide)⟩, ?_⟩, by simp, trivial, trivial⟩
    rw [escape_replicate, length_replicate]
  rintro ⟨r, file, hr, hfile, htree⟩
  obtain ⟨r', file', hr', hfile', htree', -⟩ := exists_configParse_write
    bareServer [] false (longName 2047) [] 0 hwritable
  rw [htext, hr', Option.some.injEq] at hr
  subst hr
  rw [hfile', Option.some.injEq] at hfile
  subst hfile
  rw [htree'] at htree
  simp only [longName, EntryTree.entry.injEq] at htree
  have hlength := congrArg List.length htree.1
  rw [length_replicate, length_replicate] at hlength
  exact absurd hlength (by decide)

end UnrealIrcd.Config
