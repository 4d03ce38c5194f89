import UnrealIrcd.Config.Balance

/-!
# The conditions that enclose an entry

The `@if`, `@else` and `@endif` lines before a position of the text determine
the conditions in force there (`enclosing`).  The parser keeps them in
`cc_list` and copies that list into each entry it starts, so a parsed entry
carries the conditions that enclose its position
(`conditionalConfig_eq_enclosing`).
-/

namespace UnrealIrcd.Config

open Support List

/-! ## Conditions in force -/

/-- A condition without the data that only the parser uses. -/
def ConditionalConfig.core (cc : ConditionalConfig) : ConditionalConfig :=
  { cc with priority := 0, hadElse := false }

/-- The conditions in force behind a line, innermost first. -/
def nest : List ConditionalConfig → Nesting → List ConditionalConfig
  | conditions, .if cc => cc.core :: conditions
  | [], .else => []
  | cc :: conditions, .else =>
    { cc with negative := !cc.negative } :: conditions
  | conditions, .endif => conditions.tail

/-- The conditions in force behind some iterations. -/
def inForce (past : List ParseState) : List ConditionalConfig :=
  (past.filterMap nestingAt).foldl nest []

/-- The conditions that enclose a position of the text. -/
def enclosing (srv : Server) (defines : Defines) (confdata : List Char)
    (lineOffset : ℕ) (position : ℕ) : List ConditionalConfig :=
  inForce ((iterations srv defines confdata lineOffset).filter fun s =>
    decide (s.position confdata.length < position))

theorem inForce_concat (past : List ParseState) (s : ParseState) :
    inForce (past ++ [s]) =
      match nestingAt s with
      | none => inForce past
      | some nesting => nest (inForce past) nesting := by
  rw [inForce, filterMap_concat]
  cases nestingAt s with
  | none | some nesting => simp [inForce]

/-- The levels of the conditions count down to 1. -/
def Levels : List ConditionalConfig → ℤ → Prop
  | [], level => level = 0
  | cc :: ccList, level => cc.priority = level ∧ Levels ccList (level - 1)

theorem Levels.priority_le {ccList : List ConditionalConfig} {level : ℤ}
    (h : Levels ccList level) : ∀ cc ∈ ccList, cc.priority ≤ level := by
  induction ccList generalizing level with
  | nil => exact forall_mem_nil _
  | cons first ccList ih =>
    refine forall_mem_cons.mpr ⟨h.1.le, fun cc hcc => ?_⟩
    exact (ih h.2 cc hcc).trans (Int.sub_le_self level one_pos.le)

/-- The list of the parser follows the conditions in force. -/
structure Tracks (past : List ParseState) (s : ParseState) : Prop where
  levels : Levels s.ccList s.preprocessorLevel
  conditions : s.ccList.map ConditionalConfig.core = inForce past

theorem CcChange.tracks {past : List ParseState} {s : ParseState}
    {ccList : List ConditionalConfig} {level : ℤ}
    (h : CcChange s ccList level) (hs : Tracks past s) :
    Levels ccList level ∧
      ccList.map ConditionalConfig.core = inForce (past ++ [s]) := by
  obtain ⟨hlevels, hconditions⟩ := hs
  rw [inForce_concat]
  cases h with
  | quiet hnesting =>
    rw [hnesting]
    exact ⟨hlevels, hconditions⟩
  | «if» cc hnesting =>
    rw [hnesting]
    refine ⟨⟨rfl, by simpa using hlevels⟩, ?_⟩
    rw [map_cons, hconditions]
    rfl
  | «else» _ hnesting hlevel hflip =>
    rw [hnesting]
    cases hlist : s.ccList with
    | nil =>
      rw [hlist] at hlevels
      exact absurd hlevels hlevel
    | cons cc rest =>
      rw [hlist] at hlevels hflip hconditions
      rw [flipElse, if_pos hlevels.1] at hflip
      split at hflip
      · cases hflip
      · obtain rfl := Option.some.inj hflip
        rw [← hconditions]
        exact ⟨hlevels, rfl⟩
  | endif hnesting hlevel =>
    rw [hnesting]
    cases hlist : s.ccList with
    | nil =>
      rw [hlist] at hlevels
      exact absurd hlevels hlevel
    | cons cc rest =>
      rw [hlist] at hlevels hconditions
      have hrest : preprocessorCcFreeLevel (cc :: rest)
          s.preprocessorLevel = rest := by
        rw [preprocessorCcFreeLevel, filter_cons_of_neg]
        · apply filter_eq_self.mpr
          intro other hother
          have hle := hlevels.2.priority_le other hother
          simp only [Bool.not_eq_true', decide_eq_false_iff_not]
          omega
        · simp [hlevels.1]
      rw [hrest, ← hconditions]
      exact ⟨hlevels.2, rfl⟩

/-! ## Entries and their conditions -/

/-- Every entry of a list, with its conditions and its position. -/
def ConfigEntry.All (P : List ConditionalConfig → ℕ → Prop) :
    ConfigEntry → Prop
  | .null => True
  | .entry info items next =>
    P info.conditionalConfig info.filePositionStart ∧ items.All P ∧
      next.All P

/-- An entry that is not linked yet, and its items. -/
def AllOf (P : List ConditionalConfig → ℕ → Prop)
    (ce : EntryInfo × ConfigEntry) : Prop :=
  P ce.1.conditionalConfig ce.1.filePositionStart ∧ ce.2.All P

/-- Every entry of a parser. -/
structure Entries.All (P : List ConditionalConfig → ℕ → Prop)
    (entries : Entries) : Prop where
  curce : ∀ ce, entries.1 = some ce → AllOf P ce
  sections : ∀ ce ∈ entries.2.1, AllOf P ce
  items : entries.2.2.All P

section All

variable {P Q : List ConditionalConfig → ℕ → Prop}

theorem ConfigEntry.All.append {a b : ConfigEntry} (ha : a.All P)
    (hb : b.All P) : (a.append b).All P := by
  induction a with
  | null => exact hb
  | entry info items next _ ih => exact ⟨ha.1, ha.2.1, ih ha.2.2⟩

theorem ConfigEntry.All.imp {ce : ConfigEntry} (h : ce.All P)
    (himp : ∀ conditions start, P conditions start → Q conditions start) :
    ce.All Q := by
  induction ce with
  | null => exact trivial
  | entry info items next ihitems ihnext =>
    exact ⟨himp _ _ h.1, ihitems h.2.1, ihnext h.2.2⟩

theorem Entries.All.imp {entries : Entries} (h : entries.All P)
    (himp : ∀ conditions start, P conditions start → Q conditions start) :
    entries.All Q := by
  refine ⟨?_, ?_, h.items.imp himp⟩
  · intro ce hce
    exact (h.curce ce hce).imp (himp _ _) fun hitems => hitems.imp himp
  · intro ce hce
    exact (h.sections ce hce).imp (himp _ _) fun hitems => hitems.imp himp

/-- The innermost open section, and those around it. -/
theorem Entries.All.of_open {s : ParseState} {ce : EntryInfo × ConfigEntry}
    {sections : List (EntryInfo × ConfigEntry)} (h : s.entries.All P)
    (hopen : s.sections = ce :: sections) :
    AllOf P ce ∧ ∀ ce ∈ sections, AllOf P ce := by
  have hsections := h.sections
  rw [show s.entries.2.1 = ce :: sections from hopen] at hsections
  exact forall_mem_cons.mp hsections

theorem Entries.All.link {s : ParseState} {ce : EntryInfo × ConfigEntry}
    (h : s.entries.All P) (hce : AllOf P ce) : (s.link ce).entries.All P := by
  have hentry : (ConfigEntry.entry ce.1 ce.2 .null).All P :=
    ⟨hce.1, hce.2, trivial⟩
  unfold ParseState.link
  split
  · refine ⟨fun _ h => (by cases h), h.sections, ?_⟩
    exact ConfigEntry.All.append h.items hentry
  · next info items sections hopen =>
      obtain ⟨hhead, hsections⟩ := h.of_open hopen
      refine ⟨fun _ h => (by cases h), forall_mem_cons.mpr ⟨?_, hsections⟩,
        h.items⟩
      exact ⟨hhead.1, hhead.2.append hentry⟩

/-- An iteration moves entries around and starts at most one, with a copy of
the list of conditions. -/
theorem EntryChange.all {size : ℕ} {s : ParseState} {entries : Entries}
    (h : EntryChange size s entries) (hs : s.entries.All P)
    (hname : ∀ start, nestingAt s = none → s.position size ≤ start →
      start ≤ s.position size + 1 →
      P (preprocessorCcDuplicateList s.ccList) start) :
    entries.All P := by
  cases h with
  | quiet hbrace => exact hs
  | link info items stop hbrace hcurce =>
    exact hs.link (hs.curce (info, items) hcurce)
  | opening info line hbrace hcurce =>
    exact ⟨fun _ h => (by cases h), forall_mem_cons.mpr
      ⟨hs.curce (info, .null) hcurce, hs.sections⟩, hs.items⟩
  | closing info items stop sections hbrace hcurce hopen =>
    obtain ⟨hhead, hsections⟩ := hs.of_open hopen
    refine ⟨?_, hsections, hs.items⟩
    rintro _ ⟨⟩
    exact hhead
  | closingLink info items stop sections hbrace hcurce hopen =>
    obtain ⟨hhead, hsections⟩ := hs.of_open hopen
    exact Entries.All.link ⟨hs.curce, hsections, hs.items⟩ hhead
  | name text start hbrace hnesting hstart hcurce =>
    refine ⟨?_, hs.sections, hs.items⟩
    rintro _ ⟨⟩
    exact ⟨hname start hnesting hstart.1 hstart.2, trivial⟩
  | value info info' items hbrace hcurce hconfig hstart =>
    refine ⟨?_, hs.sections, hs.items⟩
    rintro _ ⟨⟩
    obtain ⟨hinfo, hitems⟩ := hs.curce _ hcurce
    refine ⟨?_, hitems⟩
    rw [hconfig, hstart]
    exact hinfo

end All

/-! ## Runs -/

/-- An entry has the conditions that were in force before its position. -/
def Marked (size : ℕ) (past : List ParseState)
    (conditions : List ConditionalConfig) (start : ℕ) : Prop :=
  conditions.map ConditionalConfig.core =
    (inForce (past.filter fun t => decide (t.position size < start))).reverse

/-- Entries carry the conditions that were in force where they start. -/
structure Marks (size : ℕ) (past : List ParseState) (s : ParseState) :
    Prop where
  bound : s.ptr.length ≤ size
  before : ∀ t ∈ past, t.position size < s.position size
  tracks : Tracks past s
  marked : s.entries.All fun conditions start =>
    start ≤ s.position size ∧ Marked size past conditions start

section Marks

variable {srv : Server} {size : ℕ} {past : List ParseState}
  {s s' : ParseState}

/-- An entry that starts in an iteration has the conditions before it. -/
theorem marked_name (hs : Marks size past s) {start : ℕ}
    (hnesting : nestingAt s = none) (hstart : s.position size ≤ start) :
    Marked size (past ++ [s]) (preprocessorCcDuplicateList s.ccList)
      start := by
  have hpast : past.filter (fun t => decide (t.position size < start)) =
      past := by
    apply filter_eq_self.mpr
    intro t ht
    have hlt := hs.before t ht
    simp only [decide_eq_true_eq]
    omega
  have hforce : inForce ((past ++ [s]).filter fun t =>
      decide (t.position size < start)) = inForce past := by
    rw [filter_append, hpast, filter_cons, filter_nil]
    split
    · rw [inForce_concat, hnesting]
    · rw [append_nil]
  rw [Marked, hforce, preprocessorCcDuplicateList, map_reverse,
    hs.tracks.conditions]

theorem SoundStep.marked (hstep : SoundStep size s s')
    (hs : s.errors = 0 → Marks size past s) (herrors : s'.errors = 0) :
    s'.entries.All fun conditions start =>
      start ≤ s.position size + 1 ∧
        Marked size (past ++ [s]) conditions start := by
  obtain ⟨hzero, hentries, -⟩ := hstep herrors
  have hmarks := hs hzero
  apply hentries.all
  · apply hmarks.marked.imp
    intro conditions start hstart
    refine ⟨by omega, ?_⟩
    -- the iteration does not count for an entry that starts before it
    rw [Marked, filter_append, filter_cons_of_neg (by simpa using hstart.1),
      filter_nil, append_nil]
    exact hstart.2
  · intro start hnesting hle hle'
    exact ⟨hle', marked_name hmarks hnesting hle⟩

theorem Marks.step (hs : s.errors = 0 → Marks size past s)
    (hbody : parseStep srv size s = .inl s') (herrors : s'.errors = 0) :
    Marks size (past ++ [s]) s' := by
  have hstep := soundStep_of_inl hbody
  obtain ⟨hzero, -, hcc⟩ := hstep herrors
  obtain ⟨hbound, hbefore, htracks, -⟩ := hs hzero
  have hshrinks := parseStep_shrinks srv size hbody
  dsimp only at hshrinks
  have hposition : s.position size < s'.position size := by
    simp only [ParseState.position]
    omega
  obtain ⟨hlevels, hconditions⟩ := hcc.tracks htracks
  refine ⟨by omega, ?_, ⟨hlevels, hconditions⟩, ?_⟩
  · exact forall_mem_append.mpr ⟨fun t ht => (hbefore t ht).trans hposition,
      forall_mem_singleton.mpr hposition⟩
  · apply (hstep.marked hs herrors).imp
    intro conditions start hstart
    exact ⟨by omega, hstart.2⟩

end Marks

/-- The entries of a returned file carry the conditions that enclose them. -/
theorem conditionalConfig_eq_enclosing {srv : Server} {defines : Defines}
    {confdata : List Char} {lineOffset : ℕ} {r : ParseResult}
    {file : ConfigEntry}
    (h : configParseWithOffset srv defines confdata lineOffset = some r)
    (hfile : r.file = some file) :
    file.All fun conditions start =>
      conditions.map ConditionalConfig.core =
        (enclosing srv defines confdata lineOffset start).reverse := by
  obtain ⟨past, last, hpast, hlast⟩ := exists_visited_of_stepLoop h
  obtain ⟨-, herrors, -, -, hitems⟩ := parseStep_inr hlast hfile
  have hinv : last.errors = 0 → Marks confdata.length past last := by
    apply @iterations_invariant srv defines confdata lineOffset
      (fun past s => s.errors = 0 → Marks confdata.length past s) _ _ past []
      last hpast
    · intro _
      have hbound := length_initialState_lt defines lineOffset confdata
      refine ⟨by omega, fun t ht => (by cases ht), ⟨rfl, rfl⟩, ?_⟩
      exact ⟨fun _ h => (by cases h), fun ce hce => (by cases hce), trivial⟩
    · intro past s s' hs hbody hzero
      exact Marks.step hs hbody hzero
  have hall := ((soundStep_of_file hlast hfile).marked hinv herrors).items
  rw [show r.state.entries.2.2 = file from hitems] at hall
  apply hall.imp
  intro conditions start hmarked
  rw [enclosing, iterations, hpast]
  exact hmarked.2

end UnrealIrcd.Config
