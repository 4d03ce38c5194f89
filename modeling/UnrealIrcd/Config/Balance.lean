import UnrealIrcd.Config.ReadPosition
import UnrealIrcd.Support.Brackets

/-!
# Bounds and balance of the configuration parser

The parser stays in its text exactly if no quoted string runs into a backslash
right before the NUL.  A file it returns has all its blocks closed, but not
always all its `@if`: nothing looks at `preprocessor_level` at the end.
-/

namespace UnrealIrcd.Config

open Support DyckStep

/-! ## The brackets of a text -/

/-- A brace as a step of a Dyck path. -/
def braceStep (s : ParseState) : Option DyckStep :=
  match braceAt s with
  | some .opening => some U
  | some .closing => some D
  | none => none

/-- `@if` and `@endif` as steps of a Dyck path. -/
def ifStep (s : ParseState) : Option DyckStep :=
  match nestingAt s with
  | some (.if _) => some U
  | some .endif => some D
  | _ => none

/-- The states in which the loop of the parser starts a round. -/
def iterations (srv : Server) (defines : Defines) (confdata : List Char)
    (lineOffset : ℕ) : List ParseState :=
  visited (parseStep srv confdata.length) (confdata.length + 1)
    (initialState defines confdata lineOffset)

/-! ## Balance -/

/-- What is open now is what has been opened and not closed. -/
structure Balance (past : List ParseState) (s : ParseState) : Prop where
  braces : Depth (past.filterMap braceStep) s.sections.length
  ifs : ∃ n : ℕ, s.preprocessorLevel = n ∧ Depth (past.filterMap ifStep) n

section Balance

variable {size : ℕ} {past : List ParseState} {s s' : ParseState}

theorem link_sections_length (s : ParseState) (ce : EntryInfo × ConfigEntry) :
    (s.link ce).sections.length = s.sections.length := by
  unfold ParseState.link
  split
  · rfl
  · next hsections =>
      rw [hsections]
      rfl

theorem filterMap_concat {α β : Type} (f : α → Option β) (l : List α) (a : α) :
    (l ++ [a]).filterMap f = l.filterMap f ++ (f a).toList := by
  cases h : f a <;> simp [h]

theorem EntryChange.depth {entries : Entries} (h : EntryChange size s entries)
    (hdepth : Depth (past.filterMap braceStep) s.sections.length) :
    Depth ((past ++ [s]).filterMap braceStep) entries.2.1.length := by
  rw [filterMap_concat, braceStep]
  cases h with
  | quiet hbrace =>
    rw [hbrace]
    simpa [ParseState.entries] using hdepth
  | link info items stop hbrace hcurce =>
    rw [hbrace]
    simpa [ParseState.entries, link_sections_length] using hdepth
  | opening info line hbrace hcurce =>
    rw [hbrace]
    exact hdepth.opening
  | closing info items stop sections hbrace hcurce hopen =>
    rw [hbrace]
    rw [hopen] at hdepth
    exact hdepth.closing
  | closingLink info items stop sections hbrace hcurce hopen =>
    rw [hbrace, ParseState.entries, link_sections_length]
    rw [hopen] at hdepth
    exact hdepth.closing
  | name text start hbrace hnesting hstart hcurce
  | value info info' items hbrace hcurce hconfig hstart =>
    rw [hbrace]
    simpa using hdepth

theorem CcChange.depth {ccList : List ConditionalConfig} {level : ℤ}
    (h : CcChange s ccList level)
    (hdepth : ∃ n : ℕ, s.preprocessorLevel = n ∧
      Depth (past.filterMap ifStep) n) :
    ∃ n : ℕ, level = n ∧ Depth ((past ++ [s]).filterMap ifStep) n := by
  obtain ⟨n, hn, hdepth⟩ := hdepth
  rw [filterMap_concat, ifStep]
  cases h with
  | quiet hnesting | «else» _ hnesting hlevel hflip =>
    rw [hnesting]
    exact ⟨n, hn, by simpa using hdepth⟩
  | «if» cc hnesting =>
    rw [hnesting]
    exact ⟨n + 1, by simp [hn], hdepth.opening⟩
  | endif hnesting hlevel =>
    rw [hnesting]
    obtain ⟨m, rfl⟩ : ∃ m, n = m + 1 :=
      Nat.exists_eq_succ_of_ne_zero (by rintro rfl; exact hlevel hn)
    exact ⟨m, by simp [hn], hdepth.closing⟩

/-- An iteration to a state without an error keeps the balance. -/
theorem Balance.step (hs : s.errors = 0 → Balance past s)
    (hstep : SoundStep size s s') (herrors : s'.errors = 0) :
    Balance (past ++ [s]) s' := by
  obtain ⟨hzero, hentries, hcc⟩ := hstep herrors
  exact ⟨hentries.depth (hs hzero).braces, hcc.depth (hs hzero).ifs⟩

end Balance

/-! ## Runs -/

section Run

variable {srv : Server} {defines : Defines} {confdata : List Char}
  {lineOffset : ℕ}

theorem iterations_invariant {Inv : List ParseState → ParseState → Prop}
    (hinit : Inv [] (initialState defines confdata lineOffset))
    (hstep : ∀ past s s', Inv past s →
      parseStep srv confdata.length s = .inl s' → Inv (past ++ [s]) s')
    {past later : List ParseState} {s : ParseState}
    (h : iterations srv defines confdata lineOffset = past ++ s :: later) :
    Inv past s := by
  simpa using visited_invariant Inv hstep hinit h

theorem parseStep_inr {size : ℕ} {s : ParseState} {r : ParseResult}
    {file : ConfigEntry} (h : parseStep srv size s = .inr r)
    (hfile : r.file = some file) :
    r.crashed = false ∧ r.state.errors = 0 ∧ r.state.curce = none ∧
      r.state.sections = [] ∧ r.state.items = file := by
  cases parseStep_returned h with
  | null | crash => cases hfile
  | breakout s' =>
    obtain ⟨heq, hzero, hcurce, hsections⟩ :=
      breakout_of_errors (errors_of_breakout hfile)
    rw [heq] at hfile ⊢
    exact ⟨rfl, hzero, hcurce, hsections, Option.some.inj hfile⟩

/-- An iteration that goes on, or returns a file, is sound. -/
theorem soundStep_of_inl {size : ℕ} {s s' : ParseState}
    (h : parseStep srv size s = .inl s') : SoundStep size s s' := by
  have hsound := @parseStep_sound srv size s (by simp [h])
  rwa [h] at hsound

theorem soundStep_of_file {size : ℕ} {s : ParseState} {r : ParseResult}
    {file : ConfigEntry} (h : parseStep srv size s = .inr r)
    (hfile : r.file = some file) : SoundStep size s r.state := by
  have hsound := @parseStep_sound srv size s (by
    intro r' hr'
    rw [h] at hr'
    cases hr'
    exact (parseStep_inr h hfile).1)
  rwa [h] at hsound

theorem balance_of_file {r : ParseResult} {file : ConfigEntry}
    (h : configParseWithOffset srv defines confdata lineOffset = some r)
    (hfile : r.file = some file) :
    Balance (iterations srv defines confdata lineOffset) r.state := by
  obtain ⟨past, last, hpast, hlast⟩ := exists_visited_of_stepLoop h
  obtain ⟨-, herrors, -⟩ := parseStep_inr hlast hfile
  have hinv : last.errors = 0 → Balance past last := by
    apply @iterations_invariant srv defines confdata lineOffset
      (fun past s => s.errors = 0 → Balance past s) _ _ past [] last hpast
    · intro _
      exact ⟨depth_nil, 0, rfl, depth_nil⟩
    · intro past s s' hs hbody hzero
      exact Balance.step hs (soundStep_of_inl hbody) hzero
  rw [iterations, hpast]
  exact Balance.step hinv (soundStep_of_file hlast hfile) herrors

end Run

/-! ## Bounds -/

/-- After every iteration the read position is at most that of the NUL. -/
def StaysInText (srv : Server) (defines : Defines) (text after : List Char)
    (lineOffset : ℕ) : Prop :=
  ∀ s ∈ iterations srv defines (text ++ nul :: after) lineOffset,
    (stateOf (parseStep srv (text ++ nul :: after).length s)).position
      (text ++ nul :: after).length ≤ text.length

section Bounds

variable {srv : Server} {defines : Defines} {text after : List Char}
  {lineOffset : ℕ}

/-- As long as the iterations have a property that rules out a dangling
backslash, they start in the text. -/
theorem iterations_inText (htext : nul ∉ text) (P : ParseState → Prop)
    (hP : ∀ t, InText after t.ptr → P t →
      ¬ DanglingQuote (text ++ nul :: after).length t)
    {past later : List ParseState} {s : ParseState}
    (h : iterations srv defines (text ++ nul :: after) lineOffset =
      past ++ s :: later) (hpast : ∀ t ∈ past, P t) : InText after s.ptr := by
  revert hpast
  apply @iterations_invariant srv defines (text ++ nul :: after) lineOffset
    (fun past s => (∀ t ∈ past, P t) → InText after s.ptr) _ _ past later s h
  · intro _
    refine ⟨text.map fun c => if c = '\r' then ' ' else c, ?_,
      replaceCarriageReturns_append htext after⟩
    rw [List.mem_map]
    rintro ⟨c, hc, hnul⟩
    split at hnul
    · exact absurd hnul (by decide)
    · exact htext (hnul ▸ hc)
  · intro past s s' hs hbody hpast
    have hin : InText after s.ptr :=
      hs fun t ht => hpast t (List.mem_append_left _ ht)
    have hnext := @parseStep_inText srv _ s after hin (hP s hin
      (hpast s (List.mem_append_right _ (List.mem_singleton_self s))))
    rwa [hbody] at hnext

theorem staysInText_iff (htext : nul ∉ text) :
    StaysInText srv defines text after lineOffset ↔
      ∀ s ∈ iterations srv defines (text ++ nul :: after) lineOffset,
        ¬ DanglingQuote (text ++ nul :: after).length s := by
  constructor
  · intro hstays s hs
    -- an iteration with a dangling backslash leaves the text
    have hleaves : ∀ t, InText after t.ptr →
        (stateOf (parseStep srv (text ++ nul :: after).length t)).position
          (text ++ nul :: after).length ≤ text.length →
        ¬ DanglingQuote (text ++ nul :: after).length t := by
      intro t ht hle hdangling
      have hlands := @onQuote_lands (text ++ nul :: after).length t _
        (peek t.ptr) _ (ht.ahead
          (ahead_tail (ne_nul_of_switchCase hdangling.1 (by decide))))
      rw [Lands, if_pos hdangling.2] at hlands
      rw [parseStep_of_quote hdangling.1] at hle
      simp only [ParseState.position, List.length_append,
        List.length_cons] at hle hlands
      omega
    obtain ⟨past, later, heq⟩ := List.append_of_mem hs
    apply hleaves s _ (hstays s hs)
    apply iterations_inText htext _ hleaves heq
    intro t ht
    apply hstays
    rw [heq]
    exact List.mem_append_left _ ht
  · intro hnone s hs
    obtain ⟨past, later, heq⟩ := List.append_of_mem hs
    have hin : InText after s.ptr := by
      apply iterations_inText htext _ (fun _ _ h => h) heq
      intro t ht
      apply hnone
      rw [heq]
      exact List.mem_append_left _ ht
    obtain ⟨rest, -, hptr⟩ := @parseStep_inText srv _ s after hin (hnone s hs)
    rw [ParseState.position, hptr]
    simp only [List.length_append, List.length_cons]
    omega

end Bounds

/-! ## Bounds and balance -/

section Text

variable (srv : Server) (defines : Defines) (confdata : List Char)
  (lineOffset : ℕ)

def blocks : List DyckStep :=
  (iterations srv defines confdata lineOffset).filterMap braceStep

def ifs : List DyckStep :=
  (iterations srv defines confdata lineOffset).filterMap ifStep

def ReturnsFile : Prop :=
  ∃ r file, configParseWithOffset srv defines confdata lineOffset = some r ∧
    r.file = some file

end Text

/-- For every text: the read position never moves past the NUL, and a file is
returned only if every block is closed and every `@if` has its `@endif`,
exactly if no quoted string runs into a backslash right before the NUL, and a
file is returned only if there are as many `@if` lines as `@endif` lines. -/
theorem staysInText_and_balanced_iff (srv : Server) (defines : Defines)
    (text after : List Char) (lineOffset : ℕ) (htext : nul ∉ text) :
    (StaysInText srv defines text after lineOffset ∧
        (ReturnsFile srv defines (text ++ nul :: after) lineOffset →
          Balanced (blocks srv defines (text ++ nul :: after) lineOffset) ∧
            Balanced (ifs srv defines (text ++ nul :: after) lineOffset))) ↔
      (∀ s ∈ iterations srv defines (text ++ nul :: after) lineOffset,
          ¬ DanglingQuote (text ++ nul :: after).length s) ∧
        (ReturnsFile srv defines (text ++ nul :: after) lineOffset →
          (ifs srv defines (text ++ nul :: after) lineOffset).count U =
            (ifs srv defines (text ++ nul :: after) lineOffset).count D) := by
  rw [staysInText_iff htext]
  apply and_congr_right
  intro _
  apply imp_congr_right
  rintro ⟨r, file, hr, hfile⟩
  obtain ⟨hblocks, n, -, hifs⟩ := balance_of_file hr hfile
  have hclosed : r.state.sections = [] := by
    obtain ⟨past, last, -, hlast⟩ := exists_visited_of_stepLoop hr
    exact (parseStep_inr hlast hfile).2.2.2.1
  rw [hclosed] at hblocks
  rw [ifs, hifs.balanced_iff]
  exact and_iff_right hblocks.balanced

/-- The two sides hold of an entry behind a closed `@if`. -/
theorem staysInText_and_balanced_sample :
    nul ∉ "@if defined(X)\n@endif\nme;".toList ∧
      StaysInText bareServer [] "@if defined(X)\n@endif\nme;".toList [] 0 ∧
        (ReturnsFile bareServer []
            ("@if defined(X)\n@endif\nme;".toList ++ [nul]) 0 →
          Balanced (blocks bareServer []
            ("@if defined(X)\n@endif\nme;".toList ++ [nul]) 0) ∧
            Balanced (ifs bareServer []
              ("@if defined(X)\n@endif\nme;".toList ++ [nul]) 0)) := by
  have htext : nul ∉ "@if defined(X)\n@endif\nme;".toList := by decide +kernel
  refine ⟨htext, (staysInText_and_balanced_iff bareServer [] _ [] 0
    htext).mpr ⟨?_, ?_⟩⟩
  · unfold DanglingQuote
    decide +kernel
  · intro _
    decide +kernel

/-- A backslash at the end of the text in an open quote is read together with
the NUL, and an `@if` that is never closed is accepted. -/
theorem danglingQuote_and_openIf :
    ¬ StaysInText bareServer [] ['"', '\\'] [] 0 ∧
      ReturnsFile bareServer [] ("@if defined(X)\nme;".toList ++ [nul]) 0 ∧
      ¬ Balanced (ifs bareServer []
        ("@if defined(X)\nme;".toList ++ [nul]) 0) := by
  refine ⟨?_, ?_, ?_⟩
  · unfold StaysInText
    decide +kernel
  · have hfile : ((configParseWithOffset bareServer []
        ("@if defined(X)\nme;".toList ++ [nul]) 0).bind
          ParseResult.file).isSome = true := by
      decide +kernel
    obtain ⟨file, hfile⟩ := Option.isSome_iff_exists.mp hfile
    obtain ⟨r, hr, hfile⟩ := Option.bind_eq_some_iff.mp hfile
    exact ⟨r, file, hr, hfile⟩
  · rintro ⟨word, hword⟩
    have hcount := word.count_U_eq_count_D
    rw [hword] at hcount
    exact absurd hcount (by decide +kernel)

end UnrealIrcd.Config
