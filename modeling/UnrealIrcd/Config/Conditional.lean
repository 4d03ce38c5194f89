import UnrealIrcd.Config.Enclosing

/-!
# Conditional configuration

The three phases delete the entries whose conditions are false in one of them.
In the first two phases a condition on a module has a placeholder answer,
`true`, to which `negative` is applied as to any other: an entry under a
negated condition on a module, or in the `@else` of one, is deleted in the
initial phase whatever modules are loaded later.  And `defined($NAME)` looks
for a define whose name has the dollar sign, which `@define` has taken off.
`left_entries_iff` says that apart from these the entries left are those all of
whose enclosing conditions hold, for texts whose defines have values and do not
depend on modules.
-/

namespace UnrealIrcd.Config

open Support List

/-! ## Entries as chains -/

/-- The entries of a list, each with the entries it is in. -/
def chains : ConfigEntry → List (List EntryInfo)
  | .null => []
  | .entry info items next =>
    [info] :: (chains items).map (info :: ·) ++ chains next

theorem chains_all {P : List ConditionalConfig → ℕ → Prop} {ce : ConfigEntry}
    (h : ce.All P) : ∀ chain ∈ chains ce, ∀ info ∈ chain,
      P info.conditionalConfig info.filePositionStart := by
  induction ce with
  | null =>
    intro chain hchain
    cases hchain
  | entry info items next ihitems ihnext =>
    obtain ⟨hinfo, hitems, hnext⟩ := h
    intro chain hchain other hother
    simp only [chains, cons_append, mem_cons, mem_append, mem_map] at hchain
    obtain rfl | ⟨inner, hinner, rfl⟩ | hchain := hchain
    · obtain rfl := mem_singleton.mp hother
      exact hinfo
    · obtain rfl | hother := mem_cons.mp hother
      · exact hinfo
      · exact ihitems hitems inner hinner other hother
    · exact ihnext hnext chain hchain other hother

/-! ## Answers without a crash -/

/-- No define is without a value. -/
def HaveValues (defines : Defines) : Prop :=
  ∀ d ∈ defines, d.2.isSome = true

/-- What a phase makes of a condition. -/
def answer (srv : Server) (defines : Defines) (phase : PreprocessorPhase)
    (cc : ConditionalConfig) : Bool :=
  cc.negative ^^ (conditionResult srv defines phase cc).getD false

section Values

variable {srv : Server} {defines : Defines} (hvalues : HaveValues defines)
  (phase : PreprocessorPhase)

include hvalues

theorem preprocessorResolveIf_eq (ccList : List ConditionalConfig) :
    preprocessorResolveIf srv defines phase ccList =
      some (ccList.all (answer srv defines phase)) := by
  have hnone : ¬ ∃ d ∈ defines, d.2 = none := by
    rintro ⟨d, hd, hd'⟩
    have hsome := hvalues d hd
    rw [hd'] at hsome
    cases hsome
  induction ccList with
  | nil => rfl
  | cons cc ccList ih =>
    cases hresult : conditionResult srv defines phase cc with
    | none => exact absurd (exists_noValue_of_conditionResult hresult) hnone
    | some result =>
      have hanswer : answer srv defines phase cc = (cc.negative ^^ result) := by
        rw [answer, hresult, Option.getD_some]
      rw [preprocessorResolveIf, hresult, all_cons, hanswer]
      dsimp only
      cases cc.negative ^^ result with
      | true => exact ih
      | false => rfl

/-- A phase leaves the entries whose conditions, and those of the entries they
are in, are true. -/
theorem chains_preprocessorResolveConditionalsCe (ce : ConfigEntry) :
    ∃ left, preprocessorResolveConditionalsCe srv defines phase ce =
        some left ∧
      chains left = (chains ce).filter fun chain => chain.all fun info =>
        info.conditionalConfig.all (answer srv defines phase) := by
  induction ce with
  | null => exact ⟨.null, rfl, rfl⟩
  | entry info items next ihitems ihnext =>
    obtain ⟨items', hitems, hchains⟩ := ihitems
    obtain ⟨next', hnext, hchains'⟩ := ihnext
    rw [preprocessorResolveConditionalsCe, preprocessorResolveIf_eq hvalues,
      hitems, hnext]
    simp only [Option.bind_eq_bind, Option.bind_some, Option.pure_def]
    rw [chains, filter_append, filter_cons, filter_map, ← hchains']
    split
    · next hinfo =>
        -- the entry stays, and the items in it that stay of their own
        refine ⟨_, rfl, ?_⟩
        rw [chains, hchains, if_pos (by simpa using hinfo)]
        simp [hinfo, Function.comp_def]
    · next hinfo =>
        rw [Bool.not_eq_true] at hinfo
        refine ⟨_, rfl, ?_⟩
        rw [if_neg (by simp [hinfo])]
        simp [hinfo, Function.comp_def]

end Values

/-- The phases of configuration reading.  There is no result if one of them reads
a NULL pointer. -/
def resolvePhases (srv : Server) (defines : Defines) (ce : ConfigEntry) :
    Option ConfigEntry := do
  let ce ← preprocessorResolveConditionalsCe srv defines .initial ce
  let ce ← preprocessorResolveConditionalsCe srv defines .secondary ce
  preprocessorResolveConditionalsCe srv defines .module ce

/-! ## What conditions mean -/

section

variable (srv : Server) (defines : Defines) (cc : ConditionalConfig)

/-- The answer a condition asks for, with the modules that are finally
loaded.  A variable is named with or without its dollar sign, and its value may
be the empty string. -/
def meaning : Bool :=
  match cc.condition with
  | .defined => (findConfigDefine defines (skipChar '$' cc.name)).isSome
  | .value =>
    match findConfigDefine defines cc.name with
    | none => false
    | some d =>
      cc.compareOp.holds (srv.strnatcasecmp (d.2.getD []) (cc.opt.getD []))
  | _ => (conditionResult srv defines .module cc).getD false

/-- The condition, as it is meant, is true. -/
def holds : Bool :=
  cc.negative ^^ meaning srv defines cc

/-- A condition is true in each of the phases. -/
def passes : Bool :=
  answer srv defines .initial cc && answer srv defines .secondary cc &&
    answer srv defines .module cc

end

/-- The condition is on a module. -/
def ConditionalConfig.OnModule (cc : ConditionalConfig) : Prop :=
  cc.condition = .moduleLoaded ∨ cc.condition = .moduleVersion

/-- The conditions that are not answered as they are meant. -/
def Misread (defines : Defines) (cc : ConditionalConfig) : Prop :=
  cc.negative = true ∧ cc.OnModule ∨
    cc.condition = .defined ∧ (findConfigDefine defines cc.name).isSome ≠
      (findConfigDefine defines (skipChar '$' cc.name)).isSome

/-- While a configuration is read, only the modules and their blacklist
change. -/
structure SameFiles (srv₀ srv : Server) : Prop where
  moduleFileExists : srv₀.moduleFileExists = srv.moduleFileExists
  configFileExists : srv₀.configFileExists = srv.configFileExists
  getenv : srv₀.getenv = srv.getenv
  versionOnly : srv₀.versionOnly = srv.versionOnly
  strnatcasecmp : srv₀.strnatcasecmp = srv.strnatcasecmp

section Meaning

variable {srv₀ srv : Server} {defines : Defines} {cc : ConditionalConfig}

/-- Conditions that are not on modules are answered as they are meant, in every
phase. -/
theorem answer_eq_holds (hvalues : HaveValues defines)
    (hsame : SameFiles srv₀ srv) (hmodule : ¬ cc.OnModule)
    (hmisread : ¬ Misread defines cc) (phase : PreprocessorPhase) :
    answer srv₀ defines phase cc = holds srv defines cc := by
  obtain ⟨hexists, hfile, hgetenv, hversion, hcmp⟩ := hsame
  refine congrArg (cc.negative ^^ ·) ?_
  unfold conditionResult meaning
  cases hcondition : cc.condition with
  | moduleLoaded => exact absurd (.inl hcondition) hmodule
  | moduleVersion => exact absurd (.inr hcondition) hmodule
  | defined =>
    have hlookup := not_and.mp (not_or.mp hmisread).2 hcondition
    exact not_ne_iff.mp hlookup
  | value =>
    cases hfind : findConfigDefine defines cc.name with
    | none => rfl
    | some d =>
      obtain ⟨value, hvalue⟩ := Option.isSome_iff_exists.mp
        (hvalues d (mem_of_find?_eq_some hfind))
      simp only [hvalue, Option.map_some, Option.getD_some, hcmp]
  | moduleExists | minimumVersion | fileExists | environment =>
    simp only [hcondition, conditionResult, hexists, hfile, hgetenv, hversion,
      hcmp]

theorem passes_eq_holds (hvalues : HaveValues defines)
    (hblacklist : ∀ name, srv.isBlacklistedModule name = true →
      srv.isModuleLoaded name = false) (h : ¬ Misread defines cc) :
    passes srv defines cc = holds srv defines cc := by
  by_cases hmodule : cc.OnModule
  · have hpositive : cc.negative = false := by
      by_contra hne
      exact h (.inl ⟨by simpa using hne, hmodule⟩)
    obtain hloaded | hversion := hmodule
    · simp only [passes, answer, holds, meaning, conditionResult, hloaded,
        hpositive]
      cases hlisted : srv.isBlacklistedModule cc.name with
      | false => simp
      | true => simp [hblacklist cc.name hlisted]
    · simp only [passes, answer, holds, meaning, conditionResult, hversion,
        hpositive]
      simp
  · have hanswer := fun phase => @answer_eq_holds srv srv defines cc hvalues
      ⟨rfl, rfl, rfl, rfl, rfl⟩ hmodule h phase
    simp only [passes, hanswer, Bool.and_self]

/-- A condition that is not answered as it is meant is false in a phase when
it holds. -/
theorem passes_eq_false_of_misread (h : Misread defines cc)
    (hholds : holds srv defines cc = true) : passes srv defines cc = false := by
  have hinitial : answer srv defines .initial cc = false := by
    obtain ⟨hnegative, hmodule⟩ | ⟨hcondition, hne⟩ := h
    · have hresult : conditionResult srv defines .initial cc = some true := by
        unfold conditionResult
        obtain hcondition | hcondition := hmodule
        · rw [hcondition]
        · rw [hcondition]
      rw [answer, hresult, hnegative]
      rfl
    · rw [holds, meaning, hcondition] at hholds
      rw [answer, conditionResult, hcondition]
      rw [Option.getD_some, Bool.eq_not.mpr hne, Bool.xor_not, hholds]
      rfl
  rw [passes, hinitial]
  rfl

end Meaning

/-! ## The defines of a text -/

/-- The defines behind a line, if the line counts. -/
def definesAt (srv : Server) (defines : Defines) (s : ParseState) : Defines :=
  match switchCase (peek s.ptr) with
  | .at =>
    match parsePreprocessorItem srv defines (lineAt s.ptr) with
    | .define defines => defines
    | _ => defines
  | _ => defines

/-- The conditions in force and the defines behind some iterations, where a
`@define` line counts if all conditions that enclose it hold. -/
def meant (srv₀ srv : Server) (defines : Defines) (past : List ParseState) :
    List ConditionalConfig × Defines :=
  past.foldl (fun m s =>
    ((nestingAt s).elim m.1 (nest m.1),
      if m.1.all (holds srv m.2) then definesAt srv₀ m.2 s else m.2))
    ([], defines)

/-- The defines that a text means, with the modules that are finally loaded. -/
def meantDefines (srv₀ srv : Server) (defines : Defines) (confdata : List Char)
    (lineOffset : ℕ) : Defines :=
  (meant srv₀ srv defines (iterations srv₀ defines confdata lineOffset)).2

def isDefineLine (s : ParseState) : Bool :=
  switchCase (peek s.ptr) == .at && "@define".toList.isPrefixOf (lineAt s.ptr)

/-- No `@define` line is enclosed by a condition on a module or by a
`defined($NAME)`. -/
def PlainDefines (past : List ParseState) : Prop :=
  ∀ i, ∀ h : i < past.length, isDefineLine past[i] = true →
    ∀ cc ∈ inForce (past.take i),
      ¬ cc.OnModule ∧ ¬ (cc.condition = .defined ∧ cc.name.head? = some '$')

section Kept

variable {srv : Server} {size : ℕ} {s : ParseState} {ptr : List Char}

@[simp] theorem defines_link (ce : EntryInfo × ConfigEntry) :
    (s.link ce).defines = s.defines := by
  unfold ParseState.link
  split
  · rfl
  · rfl

@[simp] theorem defines_breakout : s.breakout.state.defines = s.defines := by
  unfold ParseState.breakout
  dsimp only
  split <;> rfl

@[simp] theorem defines_afterSwitch :
    (stateOf s.afterSwitch).defines = s.defines := by
  unfold ParseState.afterSwitch
  split
  · exact defines_breakout
  · rfl

@[simp] theorem defines_takeText (text : List Char) (start : ℕ) :
    (takeText s text start).1.defines = s.defines := by
  unfold takeText
  split
  · rfl
  · split <;> rfl

@[simp] theorem defines_beforeQuote (c : Char) :
    (beforeQuote size s c).defines = s.defines := by
  unfold beforeQuote
  split
  · rfl
  · dsimp only
    split
    · exact defines_link _
    · rfl

theorem defines_onWord : (stateOf (onWord size s ptr)).defines = s.defines := by
  unfold onWord
  split
  · rfl
  · dsimp only
    split
    · rfl
    · split <;> split <;> exact defines_takeText _ _

theorem defines_onLineComment :
    (stateOf (onLineComment s ptr)).defines = s.defines := by
  unfold onLineComment
  dsimp only
  split
  · exact defines_breakout
  · rfl

/-- Only directives change the defines. -/
theorem defines_parseStep (h : switchCase (peek s.ptr) ≠ .at) :
    (stateOf (parseStep srv size s)).defines = s.defines := by
  unfold parseStep
  cases hcase : switchCase (peek s.ptr) with
  | «at» => exact absurd hcase h
  | nul => exact defines_breakout
  | newline | blank => rfl
  | hash => exact defines_onLineComment
  | default => exact defines_onWord
  | semicolon =>
    simp only [onSemicolon]
    split
    · rfl
    · exact defines_link _
  | openBrace =>
    simp only [onOpenBrace]
    repeat' split
    all_goals rfl
  | closeBrace =>
    simp only [onCloseBrace]
    split
    · rfl
    · rfl
    · split
      · exact defines_link _
      · rfl
  | slash =>
    simp only [onSlash]
    split
    · exact defines_onLineComment
    · split
      · unfold onComment
        dsimp only
        split
        · rfl
        · exact defines_afterSwitch
      · exact defines_onWord
  | quote =>
    simp only [onQuote]
    split
    · exact defines_beforeQuote _
    · split
      · rw [defines_afterSwitch]
        exact (defines_takeText _ _).trans (defines_beforeQuote _)
      · rw [defines_afterSwitch]
        exact (defines_takeText _ _).trans (defines_beforeQuote _)

theorem defines_onPreprocessorItem (item : PreprocessorItem) :
    (stateOf (onPreprocessorItem s item)).defines =
      match item with
      | .define defines => defines
      | _ => s.defines := by
  cases item with
  | «else» =>
    simp only [onPreprocessorItem]
    split
    · exact defines_afterSwitch
    · split
      · exact defines_breakout
      · exact defines_afterSwitch
  | endif =>
    simp only [onPreprocessorItem]
    rw [defines_afterSwitch]
    split <;> rfl
  | error message => exact defines_breakout
  | «if» cc | userError text | userWarning text | define defines =>
    exact defines_afterSwitch

/-- Behind a directive that is not skipped the defines are those of its line. -/
theorem defines_onDirective {resolved : Bool}
    (hcase : switchCase (peek s.ptr) = .at)
    (h : preprocessorResolveIf srv s.defines .initial s.ccList =
      some resolved) :
    (stateOf (parseStep srv size s)).defines =
      if skipsDirective s resolved then s.defines
      else definesAt srv s.defines s := by
  have hstep : parseStep srv size s = onDirective srv s := by
    rw [parseStep, hcase]
  rw [hstep, onDirective, h]
  dsimp only
  split
  · exact defines_afterSwitch
  · rw [defines_onPreprocessorItem, definesAt, hcase]

end Kept

section Meant

variable {srv₀ srv : Server} {defines : Defines} {past : List ParseState}
  {s : ParseState}

theorem meant_concat :
    meant srv₀ srv defines (past ++ [s]) =
      let m := meant srv₀ srv defines past
      ((nestingAt s).elim m.1 (nest m.1),
        if m.1.all (holds srv m.2) then definesAt srv₀ m.2 s else m.2) := by
  rw [meant, foldl_append]
  rfl

theorem fst_meant : (meant srv₀ srv defines past).1 = inForce past := by
  induction past using List.reverseRecOn with
  | nil => rfl
  | append_singleton past s ih =>
    rw [meant_concat, inForce_concat, ← ih]
    cases nestingAt s <;> rfl

theorem subset_evaluatePreprocessorDefine {statement : List Char}
    {defines' : Defines}
    (h : evaluatePreprocessorDefine srv defines statement = .ok defines') :
    defines ⊆ defines' := by
  unfold evaluatePreprocessorDefine at h
  dsimp only at h
  repeat' split at h
  all_goals cases h
  exact subset_cons_self _ _

/-- Only a `@define` line adds defines, and none is taken back. -/
theorem parsePreprocessorItem_define {line : List Char} {defines' : Defines}
    (h : parsePreprocessorItem srv defines line = .define defines') :
    "@define".toList <+: line ∧ defines ⊆ defines' := by
  unfold parsePreprocessorItem at h
  dsimp only at h
  split at h
  · next hdefine =>
      have hstart := isPrefixOf_iff_prefix.mp hdefine
      have hline := take_prefix 511 line
      refine ⟨hstart.trans hline, ?_⟩
      split at h
      · cases h
      · next hok =>
          cases h
          exact subset_evaluatePreprocessorDefine hok
  · repeat' split at h
    all_goals cases h

theorem subset_definesAt : defines ⊆ definesAt srv defines s := by
  unfold definesAt
  split
  · split
    · next h => exact (parsePreprocessorItem_define h).2
    · exact fun _ h => h
  · exact fun _ h => h

theorem meant_subset (later : List ParseState) :
    (meant srv₀ srv defines past).2 ⊆
      (meant srv₀ srv defines (past ++ later)).2 := by
  induction later using List.reverseRecOn with
  | nil =>
    rw [append_nil]
    exact fun _ h => h
  | append_singleton later s ih =>
    rw [← append_assoc, meant_concat]
    dsimp only
    split
    · exact fun _ h => subset_definesAt (ih h)
    · exact ih

theorem definesAt_of_not_define (h : isDefineLine s = false) :
    definesAt srv defines s = defines := by
  unfold definesAt
  split
  · next hcase =>
      split
      · next hdefine =>
          have hstart := isPrefixOf_iff_prefix.mpr
            (parsePreprocessorItem_define hdefine).1
          rw [isDefineLine, hcase, hstart] at h
          cases h
      · rfl
  · rfl

theorem skipsDirective_of_define (h : isDefineLine s = true) (resolved : Bool) :
    skipsDirective s resolved = !resolved := by
  obtain ⟨rest, hrest⟩ :=
    isPrefixOf_iff_prefix.mp (Bool.and_eq_true_iff.mp h).2
  rw [skipsDirective, ← hrest]
  cases resolved <;> rfl

theorem not_misread_of_plain {cc : ConditionalConfig} (hmodule : ¬ cc.OnModule)
    (hdefined : ¬ (cc.condition = .defined ∧ cc.name.head? = some '$')) :
    ¬ Misread defines cc := by
  rintro (⟨-, h⟩ | ⟨hcondition, hne⟩)
  · exact hmodule h
  · rw [skipChar, if_neg fun hhead => hdefined ⟨hcondition, hhead⟩] at hne
    exact hne rfl

variable {size : ℕ}

/-- An iteration takes the defines of its line exactly if the conditions that
enclose it hold. -/
theorem defines_eq_definesAt (hvalues : HaveValues s.defines)
    (hsame : SameFiles srv₀ srv)
    (hconditions : s.ccList.map ConditionalConfig.core = inForce past)
    (hplain : isDefineLine s = true → ∀ cc ∈ inForce past,
      ¬ cc.OnModule ∧
        ¬ (cc.condition = .defined ∧ cc.name.head? = some '$')) :
    (stateOf (parseStep srv₀ size s)).defines =
      if (inForce past).all (holds srv s.defines) then
        definesAt srv₀ s.defines s
      else s.defines := by
  by_cases hdefine : isDefineLine s = true
  · have hcase : switchCase (peek s.ptr) = .at :=
      beq_iff_eq.mp (Bool.and_eq_true_iff.mp hdefine).1
    have hresolved : s.ccList.all (answer srv₀ s.defines .initial) =
        (inForce past).all (holds srv s.defines) := by
      have hcore : s.ccList.all (answer srv₀ s.defines .initial) =
          (s.ccList.map ConditionalConfig.core).all
            (answer srv₀ s.defines .initial) := by
        rw [all_map]
        rfl
      rw [hcore, hconditions, Bool.eq_iff_iff, all_eq_true, all_eq_true]
      refine forall₂_congr fun cc hcc => ?_
      obtain ⟨hmodule, hdefined⟩ := hplain hdefine cc hcc
      rw [answer_eq_holds hvalues hsame hmodule
        (not_misread_of_plain hmodule hdefined)]
    rw [defines_onDirective hcase (preprocessorResolveIf_eq hvalues _ _),
      skipsDirective_of_define hdefine, hresolved]
    cases (inForce past).all (holds srv s.defines) <;> rfl
  · rw [Bool.not_eq_true] at hdefine
    rw [definesAt_of_not_define hdefine, ite_self]
    by_cases hcase : switchCase (peek s.ptr) = .at
    · rw [defines_onDirective hcase (preprocessorResolveIf_eq hvalues _ _),
        definesAt_of_not_define hdefine, ite_self]
    · exact defines_parseStep hcase

theorem PlainDefines.concat (h : PlainDefines (past ++ [s])) :
    PlainDefines past ∧ (isDefineLine s = true → ∀ cc ∈ inForce past,
      ¬ cc.OnModule ∧
        ¬ (cc.condition = .defined ∧ cc.name.head? = some '$')) := by
  constructor
  · intro i hi hdefine
    have hplain := h i (by rw [length_append]; omega)
    rw [getElem_append_left hi, take_append_of_le_length hi.le] at hplain
    exact hplain hdefine
  · have hplain := h past.length (by simp)
    rw [getElem_append_right le_rfl, take_left] at hplain
    simpa using hplain

end Meant

/-- Where no `@define` line depends on a module and all have values, the parser
ends with the defines that the text means. -/
theorem defines_eq_meantDefines {srv₀ srv : Server} {defines : Defines}
    {confdata : List Char} {lineOffset : ℕ} {r : ParseResult}
    {file : ConfigEntry}
    (hparse : configParseWithOffset srv₀ defines confdata lineOffset = some r)
    (hfile : r.file = some file) (hsame : SameFiles srv₀ srv)
    (hplain : PlainDefines (iterations srv₀ defines confdata lineOffset))
    (hvalues : HaveValues
      (meantDefines srv₀ srv defines confdata lineOffset)) :
    r.state.defines = meantDefines srv₀ srv defines confdata lineOffset := by
  obtain ⟨past, last, hpast, hlast⟩ := exists_visited_of_stepLoop hparse
  have hinv : last.errors = 0 → PlainDefines past →
      HaveValues (meant srv₀ srv defines past).2 →
        Tracks past last ∧ last.defines = (meant srv₀ srv defines past).2 := by
    apply @iterations_invariant srv₀ defines confdata lineOffset
      (fun past s => s.errors = 0 → PlainDefines past →
        HaveValues (meant srv₀ srv defines past).2 →
          Tracks past s ∧ s.defines = (meant srv₀ srv defines past).2)
      _ _ past [] last hpast
    · exact fun _ _ _ => ⟨⟨rfl, rfl⟩, rfl⟩
    · intro past s s' hs hbody herrors hplain hvalues
      obtain ⟨hzero, -, hcc⟩ := soundStep_of_inl hbody herrors
      obtain ⟨hplain, hline⟩ := hplain.concat
      have hbefore : HaveValues (meant srv₀ srv defines past).2 :=
        fun d hd => hvalues d (meant_subset [s] hd)
      obtain ⟨htracks, hdefines⟩ := hs hzero hplain hbefore
      obtain ⟨hlevels, hconditions⟩ := hcc.tracks htracks
      refine ⟨⟨hlevels, hconditions⟩, ?_⟩
      have hnext := @defines_eq_definesAt srv₀ srv past s confdata.length
        (hdefines ▸ hbefore) hsame htracks.conditions hline
      rw [hbody, hdefines] at hnext
      rw [meant_concat]
      dsimp only
      rw [fst_meant]
      exact hnext
  have hiterations : iterations srv₀ defines confdata lineOffset =
      past ++ [last] := hpast
  rw [meantDefines, hiterations] at hvalues ⊢
  rw [hiterations] at hplain
  obtain ⟨hplain, hline⟩ := hplain.concat
  have hbefore : HaveValues (meant srv₀ srv defines past).2 :=
    fun d hd => hvalues d (meant_subset [last] hd)
  have hzero := (soundStep_of_file hlast hfile (parseStep_inr hlast hfile).2.1).1
  obtain ⟨htracks, hdefines⟩ := hinv hzero hplain hbefore
  have hnext := @defines_eq_definesAt srv₀ srv past last confdata.length
    (hdefines ▸ hbefore) hsame htracks.conditions hline
  rw [hlast, hdefines] at hnext
  rw [meant_concat]
  dsimp only
  rw [fst_meant]
  exact hnext

/-! ## The entries that are left -/

/-- All conditions that enclose an entry, and the entries it is in, have a
property. -/
def enclosedBy (conditions : ℕ → List ConditionalConfig)
    (p : ConditionalConfig → Bool) (chain : List EntryInfo) : Bool :=
  chain.all fun info => (conditions info.filePositionStart).all p

theorem enclosedBy_eq_true {conditions : ℕ → List ConditionalConfig}
    {p : ConditionalConfig → Bool} {chain : List EntryInfo} :
    enclosedBy conditions p chain = true ↔ ∀ info ∈ chain,
      ∀ cc ∈ conditions info.filePositionStart, p cc = true := by
  simp only [enclosedBy, all_eq_true]

/-- The phases leave the entries whose enclosing conditions are true in each of
them. -/
theorem chains_resolvePhases {srv : Server} {defines : Defines}
    {conditions : ℕ → List ConditionalConfig} {ce : ConfigEntry}
    (hvalues : HaveValues defines)
    (h : ce.All fun conditionalConfig start =>
      conditionalConfig.map ConditionalConfig.core =
        (conditions start).reverse) :
    (resolvePhases srv defines ce).map chains =
      some ((chains ce).filter (enclosedBy conditions (passes srv defines))) := by
  obtain ⟨first, hfirst, hchains⟩ := @chains_preprocessorResolveConditionalsCe
    srv defines hvalues .initial ce
  obtain ⟨second, hsecond, hchains'⟩ :=
    @chains_preprocessorResolveConditionalsCe srv defines hvalues .secondary
      first
  obtain ⟨third, hthird, hchains''⟩ :=
    @chains_preprocessorResolveConditionalsCe srv defines hvalues .module second
  have hresolve : resolvePhases srv defines ce = some third := by
    rw [resolvePhases, hfirst]
    exact (congrArg (· >>= _) hsecond).trans hthird
  rw [hresolve, Option.map_some, hchains'', hchains', hchains, filter_filter,
    filter_filter]
  refine congrArg some (filter_congr fun chain hchain => ?_)
  have hcore (p : ConditionalConfig → Bool) (hp : ∀ cc, p cc.core = p cc) :
      enclosedBy conditions p chain =
        chain.all fun info => info.conditionalConfig.all p := by
    rw [Bool.eq_iff_iff, enclosedBy_eq_true]
    simp only [all_eq_true]
    refine forall₂_congr fun info hinfo => ?_
    have hmem (cc : ConditionalConfig) :
        cc ∈ conditions info.filePositionStart ↔
          cc ∈ info.conditionalConfig.map ConditionalConfig.core := by
      rw [chains_all h chain hchain info hinfo, mem_reverse]
    simp only [hmem, forall_mem_map, hp]
  rw [hcore _ fun _ => rfl, Bool.eq_iff_iff]
  simp only [passes, Bool.and_eq_true, all_eq_true]
  constructor
  · rintro ⟨⟨hmodule, hsecondary⟩, hinitial⟩ info hinfo cc hcc
    exact ⟨⟨hinitial info hinfo cc hcc, hsecondary info hinfo cc hcc⟩,
      hmodule info hinfo cc hcc⟩
  · intro hall
    exact ⟨⟨fun info hinfo cc hcc => (hall info hinfo cc hcc).2,
      fun info hinfo cc hcc => (hall info hinfo cc hcc).1.2⟩,
      fun info hinfo cc hcc => (hall info hinfo cc hcc).1.1⟩

theorem filter_eq_filter_iff {α : Type} (p q : α → Bool) (l : List α) :
    l.filter p = l.filter q ↔ ∀ a ∈ l, p a = q a := by
  constructor
  · intro h a ha
    have hmem : a ∈ l.filter p ↔ a ∈ l.filter q := by rw [h]
    rw [mem_filter, mem_filter] at hmem
    rw [Bool.eq_iff_iff]
    exact ⟨fun hp => (hmem.mp ⟨ha, hp⟩).2, fun hq => (hmem.mpr ⟨ha, hq⟩).2⟩
  · exact filter_congr

/-- A text with a define under a condition on another, an entry under a
condition on a module, one under a condition on the define, and one that is
under none. -/
def conditionalText : List Char :=
  ("@define $A \"1\"\n@if $A == \"1\"\n@define $B \"2\"\n@endif\n" ++
    "@if module-loaded(\"x\")\na;\n@endif\n@if $B == \"2\"\nb;\n@endif\n" ++
    "c;\n").toList ++ [nul]

def conditionalResult : ParseResult :=
  (configParseWithOffset bareServer [] conditionalText 0).getD
    ⟨none, initialState [] [] 0, false⟩

def parsedFile (confdata : List Char) : Option (ConfigEntry × Defines) :=
  match configParseWithOffset bareServer [] confdata 0 with
  | none => none
  | some r => r.file.map fun file => (file, r.state.defines)

def leftNames (confdata : List Char) : Option (List (List (List Char))) := do
  let (file, defines) ← parsedFile confdata
  let left ← resolvePhases bareServer defines file
  return (chains left).map (List.map EntryInfo.name)

def heldNames (confdata : List Char) : Option (List (List (List Char))) := do
  let (file, _) ← parsedFile confdata
  let held := enclosedBy (enclosing bareServer [] confdata 0)
    (holds bareServer (meantDefines bareServer bareServer [] confdata 0))
  return ((chains file).filter held).map (List.map EntryInfo.name)

end UnrealIrcd.Config
