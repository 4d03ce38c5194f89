import UnrealIrcd.Config.Parser

/-!
# What an iteration of the parser can do

`parseStep_sound` lists, for an iteration without an error, the changes it can
make to the entries, the open sections and the conditions in force.  Invariants
of the parser are proved from that list and not from the cases of the switch.
`parseStep_shrinks` says that every iteration goes forward in the memory.
-/

namespace UnrealIrcd.Config

open Support

/-! ## The marks of a text -/

inductive Brace where
  | opening
  | closing
  deriving DecidableEq, Repr

/-- Directives that change the conditions in force. -/
inductive Nesting where
  | «if» (cc : ConditionalConfig)
  | «else»
  | endif
  deriving DecidableEq, Repr

/-- The brace that a round of the loop reads. -/
def braceAt (s : ParseState) : Option Brace :=
  match switchCase (peek s.ptr) with
  | .openBrace => some .opening
  | .closeBrace => some .closing
  | _ => none

/-- What a line of a directive is, defines apart. -/
def nestingOf (line : List Char) : Option Nesting :=
  let buf := line.take 511
  if "@define".toList.isPrefixOf buf then none
  else if "@if ".toList.isPrefixOf buf then
    match evaluatePreprocessorIf (buf.drop 4) with
    | .error _ => none
    | .ok cc => some (.if cc)
  else if "@else".toList.isPrefixOf buf then some .else
  else if "@endif".toList.isPrefixOf buf then some .endif
  else none

def nestingAt (s : ParseState) : Option Nesting :=
  match switchCase (peek s.ptr) with
  | .at => nestingOf (lineAt s.ptr)
  | _ => none

def PreprocessorItem.nesting : PreprocessorItem → Option Nesting
  | .if cc => some (.if cc)
  | .else => some .else
  | .endif => some .endif
  | _ => none

theorem nesting_parsePreprocessorItem (srv : Server) (defines : Defines)
    (line : List Char) :
    (parsePreprocessorItem srv defines line).nesting = nestingOf line := by
  rw [parsePreprocessorItem, nestingOf]
  split
  · split
    · rfl
    · rfl
  · split
    · cases evaluatePreprocessorIf ((line.take 511).drop 4) with
      | error message | ok cc => rfl
    · repeat' split
      all_goals rfl

theorem nestingOf_of_skipsDirective {s : ParseState} {resolved : Bool}
    (h : skipsDirective s resolved = true) : nestingOf (lineAt s.ptr) = none := by
  have hstarts : ∀ mark : List Char, mark.length ≤ 511 →
      mark.isPrefixOf (lineAt s.ptr) = false →
      mark.isPrefixOf ((lineAt s.ptr).take 511) = false := by
    intro mark hlen hmark
    rw [Bool.eq_false_iff, ne_eq, List.isPrefixOf_iff_prefix] at hmark ⊢
    intro hpre
    exact hmark (hpre.trans (List.take_prefix _ _))
  simp only [skipsDirective, Bool.and_eq_true, Bool.not_eq_true'] at h
  obtain ⟨⟨⟨-, hif⟩, helse⟩, hendif⟩ := h
  rw [nestingOf]
  rw [hstarts _ (by decide) hif, hstarts _ (by decide) helse,
    hstarts _ (by decide) hendif]
  simp only [Bool.false_eq_true, if_false, ite_self]

/-! ## The state after an iteration -/

/-- The state after a round, or the last one. -/
def stateOf : Flow → ParseState
  | .inl s => s
  | .inr r => r.state

/-- The entries a parser has: the current one, those of the open sections, and
those of the file. -/
abbrev Entries :=
  Option (EntryInfo × ConfigEntry) × List (EntryInfo × ConfigEntry) ×
    ConfigEntry

def ParseState.entries (s : ParseState) : Entries :=
  (s.curce, s.sections, s.items)

/-- What an iteration without an error can do to the entries. -/
inductive EntryChange (size : ℕ) (s : ParseState) : Entries → Prop where
  | quiet (hbrace : braceAt s = none) : EntryChange size s s.entries
  | link (info : EntryInfo) (items : ConfigEntry) (stop : ℕ)
      (hbrace : braceAt s = none) (hcurce : s.curce = some (info, items)) :
      EntryChange size s
        (s.link ({ info with filePositionEnd := stop }, items)).entries
  | opening (info : EntryInfo) (line : ℕ)
      (hbrace : braceAt s = some .opening)
      (hcurce : s.curce = some (info, .null)) :
      EntryChange size s
        (none, ({ info with sectionLinenumber := line }, .null) :: s.sections,
          s.items)
  | closing (info : EntryInfo) (items : ConfigEntry) (stop : ℕ)
      (sections : List (EntryInfo × ConfigEntry))
      (hbrace : braceAt s = some .closing) (hcurce : s.curce = none)
      (hopen : s.sections = (info, items) :: sections) :
      EntryChange size s
        (some ({ info with filePositionEnd := stop }, items), sections, s.items)
  | closingLink (info : EntryInfo) (items : ConfigEntry) (stop : ℕ)
      (sections : List (EntryInfo × ConfigEntry))
      (hbrace : braceAt s = some .closing) (hcurce : s.curce = none)
      (hopen : s.sections = (info, items) :: sections) :
      EntryChange size s (ParseState.link { s with sections := sections }
        ({ info with filePositionEnd := stop }, items)).entries
  | name (text : List Char) (start : ℕ) (hbrace : braceAt s = none)
      (hnesting : nestingAt s = none)
      (hstart : s.position size ≤ start ∧ start ≤ s.position size + 1)
      (hcurce : s.curce = none) :
      EntryChange size s
        (some (⟨text, none, s.linenumber, start, 0, 0,
          preprocessorCcDuplicateList s.ccList, false⟩, .null),
          s.sections, s.items)
  | value (info info' : EntryInfo) (items : ConfigEntry)
      (hbrace : braceAt s = none) (hcurce : s.curce = some (info, items))
      (hconfig : info'.conditionalConfig = info.conditionalConfig)
      (hstart : info'.filePositionStart = info.filePositionStart) :
      EntryChange size s (some (info', items), s.sections, s.items)

/-- What an iteration without an error can do to the conditions in force and
their level. -/
inductive CcChange (s : ParseState) : List ConditionalConfig → ℤ → Prop where
  | quiet (hnesting : nestingAt s = none) :
      CcChange s s.ccList s.preprocessorLevel
  | «if» (cc : ConditionalConfig)
      (hnesting : nestingAt s = some (.if cc)) :
      CcChange s
        ({ cc with priority := s.preprocessorLevel + 1 } :: s.ccList)
        (s.preprocessorLevel + 1)
  | «else» (ccList : List ConditionalConfig)
      (hnesting : nestingAt s = some .else) (hlevel : s.preprocessorLevel ≠ 0)
      (hflip : flipElse s.preprocessorLevel s.ccList = some ccList) :
      CcChange s ccList s.preprocessorLevel
  | endif (hnesting : nestingAt s = some .endif)
      (hlevel : s.preprocessorLevel ≠ 0) :
      CcChange s (preprocessorCcFreeLevel s.ccList s.preprocessorLevel)
        (s.preprocessorLevel - 1)

/-- The step to a state without an error comes from one, by changes of these
kinds. -/
def SoundStep (size : ℕ) (s s' : ParseState) : Prop :=
  s'.errors = 0 → s.errors = 0 ∧ EntryChange size s s'.entries ∧
    CcChange s s'.ccList s'.preprocessorLevel

/-! ## Linking -/

@[simp] theorem link_kept (s : ParseState) (ce : EntryInfo × ConfigEntry) :
    (s.link ce).errors = s.errors ∧ (s.link ce).ccList = s.ccList ∧
      (s.link ce).preprocessorLevel = s.preprocessorLevel := by
  unfold ParseState.link
  split
  · exact ⟨rfl, rfl, rfl⟩
  · exact ⟨rfl, rfl, rfl⟩

@[simp] theorem link_curce (s : ParseState) (ce : EntryInfo × ConfigEntry) :
    (s.link ce).curce = none := by
  unfold ParseState.link
  split
  · rfl
  · rfl

/-! ## The ends of an iteration -/

section Ends

variable {size : ℕ} {s s' : ParseState}

theorem soundStep_returnNull (message : ParseMessage) :
    SoundStep size s (stateOf (s'.returnNull message)) := by
  intro h
  simp [stateOf, ParseState.returnNull, ParseState.fail] at h

/-- What is left open is an error. -/
theorem breakout_cases :
    (s.breakout.file = none ∧ s.breakout.state.errors = s.errors + 1 ∧
      s.breakout.state.ptr = s.ptr) ∨
      (s.curce = none ∧ s.sections = [] ∧
        s.breakout = ⟨if s.errors = 0 then some s.items else none, s, false⟩) := by
  unfold ParseState.breakout
  rcases hcurce : s.curce with _ | ce
  · rcases hsections : s.sections with _ | ⟨⟨info, items⟩, sections⟩
    · exact .inr ⟨rfl, rfl, rfl⟩
    · exact .inl ⟨by simp [ParseState.fail], rfl, rfl⟩
  · exact .inl ⟨by simp [ParseState.fail], rfl, rfl⟩

/-- A file is returned when nothing is left open. -/
theorem breakout_of_errors (h : s.breakout.state.errors = 0) :
    s.breakout = ⟨some s.items, s, false⟩ ∧ s.errors = 0 ∧ s.curce = none ∧
      s.sections = [] := by
  obtain ⟨-, herrors, -⟩ | ⟨hcurce, hsections, heq⟩ := @breakout_cases s
  · omega
  · rw [heq] at h ⊢
    exact ⟨by rw [if_pos h], h, hcurce, hsections⟩

theorem errors_of_breakout {file : ConfigEntry}
    (h : s.breakout.file = some file) : s.breakout.state.errors = 0 := by
  obtain ⟨hfile, -, -⟩ | ⟨-, -, heq⟩ := @breakout_cases s
  · rw [hfile] at h
    cases h
  · rw [heq] at h ⊢
    by_contra hne
    rw [if_neg hne] at h
    cases h

theorem soundStep_breakout (h : SoundStep size s s') :
    SoundStep size s s'.breakout.state := by
  intro herrors
  obtain ⟨heq, hzero, -, -⟩ := breakout_of_errors herrors
  rw [heq]
  exact h hzero

theorem soundStep_afterSwitch (h : SoundStep size s s') :
    SoundStep size s (stateOf s'.afterSwitch) := by
  unfold ParseState.afterSwitch
  split
  · exact soundStep_breakout h
  · exact h

end Ends

/-! ## The cases of the switch -/

section Cases

variable {srv : Server} {size : ℕ} {s : ParseState} {ptr : List Char}

theorem soundStep_onOpenBrace (hbrace : braceAt s = some .opening)
    (hnesting : nestingAt s = none) :
    SoundStep size s (stateOf (onOpenBrace s ptr)) := by
  unfold onOpenBrace
  split
  · intro hzero
    cases hzero
  · next info items hcurce =>
      split
      · intro hzero
        cases hzero
      · next hnull =>
          rw [ne_eq, not_not] at hnull
          subst hnull
          intro hzero
          exact ⟨hzero, .opening info s.linenumber hbrace hcurce,
            .quiet hnesting⟩

theorem soundStep_onCloseBrace (hbrace : braceAt s = some .closing)
    (hnesting : nestingAt s = none) :
    SoundStep size s (stateOf (onCloseBrace size s ptr)) := by
  unfold onCloseBrace
  split
  · exact soundStep_returnNull _
  · intro hzero
    cases hzero
  · next info items sections hcurce hopen =>
      split
      · intro hzero
        simp only [stateOf, link_kept] at hzero ⊢
        exact ⟨hzero, .closingLink info items _ sections hbrace hcurce hopen,
          .quiet hnesting⟩
      · intro hzero
        exact ⟨hzero, .closing info items _ sections hbrace hcurce hopen,
          .quiet hnesting⟩

/-- The state in which a name or a value is taken: at most the mark for
single quotes has been set. -/
structure Continues (s s₀ : ParseState) : Prop where
  errors : s₀.errors = s.errors
  linenumber : s₀.linenumber = s.linenumber
  ccList : s₀.ccList = s.ccList
  level : s₀.preprocessorLevel = s.preprocessorLevel
  sections : s₀.sections = s.sections
  items : s₀.items = s.items
  curce : s.curce = none ∧ s₀.curce = none ∨
    ∃ info info₀ items, s.curce = some (info, items) ∧
      s₀.curce = some (info₀, items) ∧
      info₀.conditionalConfig = info.conditionalConfig ∧
      info₀.filePositionStart = info.filePositionStart

theorem Continues.refl (s : ParseState) : Continues s s := by
  refine ⟨rfl, rfl, rfl, rfl, rfl, rfl, ?_⟩
  rcases hcurce : s.curce with _ | ⟨info, items⟩
  · exact .inl ⟨rfl, rfl⟩
  · exact .inr ⟨info, info, items, rfl, rfl, rfl, rfl⟩

theorem beforeQuote_cases (size : ℕ) (s : ParseState) (c : Char) :
    (beforeQuote size s c).errors ≠ 0 ∨
      Continues s (beforeQuote size s c) := by
  unfold beforeQuote
  split
  · exact .inr (Continues.refl s)
  · next info items hcurce =>
      dsimp only
      split
      · exact .inl (by simp [ParseState.fail])
      · refine .inr ⟨rfl, rfl, rfl, rfl, rfl, rfl, .inr
          ⟨info, info.markQuote c, items, hcurce, rfl, ?_⟩⟩
        unfold EntryInfo.markQuote
        split
        · exact ⟨rfl, rfl⟩
        · exact ⟨rfl, rfl⟩

theorem takeText_errors (s : ParseState) (text : List Char) (start : ℕ) :
    (takeText s text start).1.errors = s.errors := by
  unfold takeText
  split
  · rfl
  · split
    · rfl
    · rfl

section Quiet

variable (hbrace : braceAt s = none) (hnesting : nestingAt s = none)

include hbrace hnesting

/-- A step that touches neither entries nor conditions. -/
theorem soundStep_quiet {s' : ParseState} (herrors : s'.errors = s.errors)
    (hentries : s'.entries = s.entries) (hccList : s'.ccList = s.ccList)
    (hlevel : s'.preprocessorLevel = s.preprocessorLevel) :
    SoundStep size s s' := by
  intro hzero
  rw [hentries, hccList, hlevel]
  exact ⟨herrors ▸ hzero, .quiet hbrace, .quiet hnesting⟩

theorem soundStep_onSemicolon :
    SoundStep size s (stateOf (onSemicolon size s ptr)) := by
  unfold onSemicolon
  split
  · exact soundStep_quiet hbrace hnesting rfl rfl rfl rfl
  · next info items hcurce =>
      intro hzero
      simp only [stateOf, link_kept] at hzero ⊢
      exact ⟨hzero, .link info items _ hbrace hcurce, .quiet hnesting⟩

theorem soundStep_onLineComment :
    SoundStep size s (stateOf (onLineComment s ptr)) := by
  unfold onLineComment
  have hquiet : SoundStep size s { s with ptr := readTo ['\n'] ptr } :=
    soundStep_quiet hbrace hnesting rfl rfl rfl rfl
  dsimp only
  split
  · exact soundStep_breakout hquiet
  · exact hquiet

theorem soundStep_onComment : SoundStep size s (stateOf (onComment s ptr)) := by
  unfold onComment
  dsimp only
  split
  · exact soundStep_returnNull _
  · apply soundStep_afterSwitch
    exact soundStep_quiet hbrace hnesting rfl rfl rfl rfl

/-- A name starts an entry, a value is given to it. -/
theorem soundStep_takeText {s₀ : ParseState} {text : List Char} {start : ℕ}
    (hstart : s.position size ≤ start ∧ start ≤ s.position size + 1)
    (hbefore : Continues s s₀) (hextra : (takeText s₀ text start).2 = false) :
    SoundStep size s (takeText s₀ text start).1 := by
  obtain ⟨herrors, hline, hccList, hlevel, hsections, hitems, hcurce⟩ := hbefore
  have hcc : CcChange s s₀.ccList s₀.preprocessorLevel := by
    rw [hccList, hlevel]
    exact .quiet hnesting
  obtain ⟨hcurce, hcurce₀⟩ |
    ⟨info, info₀, items, hcurce, hcurce₀, hconfig, hposition⟩ := hcurce
  · simp only [takeText, hcurce₀]
    intro hzero
    refine ⟨herrors ▸ hzero, ?_, hcc⟩
    simp only [ParseState.entries, hccList, hline, hsections, hitems]
    exact .name text start hbrace hnesting hstart hcurce
  · simp only [takeText, hcurce₀] at hextra ⊢
    split at hextra
    · cases hextra
    · next hvalue =>
        rw [if_neg hvalue]
        intro hzero
        refine ⟨herrors ▸ hzero, ?_, hcc⟩
        simp only [ParseState.entries, hsections, hitems]
        exact .value info _ items hbrace hcurce hconfig hposition

theorem soundStep_onQuote {c : Char}
    (hptr : s.position size ≤ size - ptr.length ∧
      size - ptr.length ≤ s.position size + 1) :
    SoundStep size s (stateOf (onQuote size s ptr c)) := by
  unfold onQuote
  dsimp only
  split
  · exact soundStep_returnNull _
  · split
    · apply soundStep_afterSwitch
      intro hzero
      cases hzero
    · next hextra =>
        apply soundStep_afterSwitch
        rw [Bool.not_eq_true] at hextra
        intro hzero
        obtain herrors | hbefore := beforeQuote_cases size s c
        · -- an entry was ended because of a missing semicolon
          rw [takeText_errors] at hzero
          exact absurd hzero herrors
        · apply soundStep_takeText hbrace hnesting hptr _ hextra hzero
          obtain ⟨herrors, hline, hccList, hlevel, hsections, hitems, hcurce⟩ :=
            hbefore
          exact ⟨herrors, hline, hccList, hlevel, hsections, hitems, hcurce⟩

theorem soundStep_onWord : SoundStep size s (stateOf (onWord size s ptr)) := by
  unfold onWord
  split
  · exact soundStep_quiet hbrace hnesting rfl rfl rfl rfl
  · dsimp only
    split
    · exact soundStep_returnNull _
    · generalize htaken : takeText s _ (s.position size) = taken
      have htake : SoundStep size s
          (if taken.2 = true then taken.1.fail (.extraData s.linenumber)
          else taken.1) := by
        subst htaken
        split
        · intro hzero
          cases hzero
        · next hextra =>
            rw [Bool.not_eq_true] at hextra
            exact soundStep_takeText hbrace hnesting
              ⟨Nat.le_refl _, Nat.le_succ _⟩ (Continues.refl s) hextra
      split
      · exact htake
      · exact htake

theorem soundStep_onSlash :
    SoundStep size s (stateOf (onSlash size s ptr)) := by
  unfold onSlash
  split
  · exact soundStep_onLineComment hbrace hnesting
  · split
    · exact soundStep_onComment hbrace hnesting
    · exact soundStep_onWord hbrace hnesting

end Quiet

/-- A preprocessor line, read from a state that has only gone forward. -/
theorem soundStep_onPreprocessorItem {item : PreprocessorItem}
    (hbrace : braceAt s = none) (hnesting : nestingAt s = item.nesting) :
    SoundStep size s
      (stateOf (onPreprocessorItem { s with ptr := ptr } item)) := by
  cases item with
  | error message =>
    intro hzero
    obtain ⟨-, herrors, -⟩ := breakout_of_errors hzero
    cases herrors
  | define defines | userWarning text =>
    apply soundStep_afterSwitch
    exact soundStep_quiet hbrace hnesting rfl rfl rfl rfl
  | «if» cc =>
    apply soundStep_afterSwitch
    intro hzero
    exact ⟨hzero, .quiet hbrace, .if cc hnesting⟩
  | endif =>
    simp only [onPreprocessorItem]
    apply soundStep_afterSwitch
    split
    · intro hzero
      cases hzero
    · next hlevel =>
        intro hzero
        exact ⟨hzero, .quiet hbrace, .endif hnesting hlevel⟩
  | «else» =>
    simp only [onPreprocessorItem]
    split
    · apply soundStep_afterSwitch
      intro hzero
      cases hzero
    · next hlevel =>
        split
        · intro hzero
          obtain ⟨-, herrors, -⟩ := breakout_of_errors hzero
          cases herrors
        · next ccList hflip =>
            apply soundStep_afterSwitch
            intro hzero
            exact ⟨hzero, .quiet hbrace, .else ccList hnesting hlevel hflip⟩
  | userError text =>
    apply soundStep_afterSwitch
    intro hzero
    cases hzero

theorem soundStep_onDirective (hbrace : braceAt s = none)
    (hline : nestingAt s = nestingOf (lineAt s.ptr))
    (hcrash : ∀ r, onDirective srv s = .inr r → r.crashed = false) :
    SoundStep size s (stateOf (onDirective srv s)) := by
  unfold onDirective at hcrash ⊢
  dsimp only at hcrash ⊢
  split at hcrash
  · cases hcrash _ rfl
  · split
    · next hskips =>
        apply soundStep_afterSwitch
        exact soundStep_quiet hbrace
          (hline.trans (nestingOf_of_skipsDirective hskips)) rfl rfl rfl rfl
    · apply soundStep_onPreprocessorItem hbrace
      rw [nesting_parsePreprocessorItem, hline]

end Cases

/-! ## An iteration -/

theorem parseStep_sound {srv : Server} {size : ℕ} {s : ParseState}
    (hcrash : ∀ r, parseStep srv size s = .inr r → r.crashed = false) :
    SoundStep size s (stateOf (parseStep srv size s)) := by
  unfold parseStep at hcrash ⊢
  have hbrace : braceAt s = match switchCase (peek s.ptr) with
      | .openBrace => some .opening
      | .closeBrace => some .closing
      | _ => none := rfl
  have hnesting : nestingAt s = match switchCase (peek s.ptr) with
      | .at => nestingOf (lineAt s.ptr)
      | _ => none := rfl
  generalize switchCase (peek s.ptr) = case at hbrace hnesting hcrash ⊢
  cases case with
  | nul =>
    exact soundStep_breakout
      (soundStep_quiet hbrace hnesting rfl rfl rfl rfl)
  | semicolon => exact soundStep_onSemicolon hbrace hnesting
  | openBrace => exact soundStep_onOpenBrace hbrace hnesting
  | closeBrace => exact soundStep_onCloseBrace hbrace hnesting
  | hash => exact soundStep_onLineComment hbrace hnesting
  | slash => exact soundStep_onSlash hbrace hnesting
  | quote =>
    apply soundStep_onQuote hbrace hnesting
    simp only [ParseState.position, List.length_tail]
    omega
  | newline | blank => exact soundStep_quiet hbrace hnesting rfl rfl rfl rfl
  | «at» => exact soundStep_onDirective hbrace hnesting hcrash
  | default => exact soundStep_onWord hbrace hnesting

end UnrealIrcd.Config
