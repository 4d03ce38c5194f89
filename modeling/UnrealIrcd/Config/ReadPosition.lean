import UnrealIrcd.Config.Steps

/-!
# The read position of the parser

Every iteration goes forward, so the parser comes to an end
(`parseStep_shrinks`).  All inner loops stop at the NUL of the text, except
that over a quoted string: it takes a backslash and the character behind it
together, also when that character is the NUL.
-/

namespace UnrealIrcd.Config

open Support List

/-! ## Going forward -/

/-- The position `q` is ahead of `p` in the same text, at the latest at its NUL. -/
def Ahead (p q : List Char) : Prop :=
  ∃ passed, nul ∉ passed ∧ p = passed ++ q

section Ahead

variable {p q r : List Char}

theorem Ahead.refl (p : List Char) : Ahead p p :=
  ⟨[], not_mem_nil, rfl⟩

theorem Ahead.trans (h : Ahead p q) (h' : Ahead q r) : Ahead p r := by
  obtain ⟨passed, hnul, rfl⟩ := h
  obtain ⟨passed', hnul', rfl⟩ := h'
  exact ⟨passed ++ passed', by simp [hnul, hnul'],
    (append_assoc ..).symm⟩

theorem Ahead.suffix (h : Ahead p q) : q <:+ p := by
  obtain ⟨passed, -, rfl⟩ := h
  exact suffix_append passed q

theorem Ahead.cons {c : Char} (hc : c ≠ nul) (h : Ahead p q) :
    Ahead (c :: p) q := by
  obtain ⟨passed, hnul, rfl⟩ := h
  exact ⟨c :: passed, by simp [hnul, hc.symm], rfl⟩

theorem ahead_tail (h : peek p ≠ nul) : Ahead p p.tail := by
  cases p with
  | nil => exact absurd rfl h
  | cons c p => exact (Ahead.refl p).cons h

theorem Ahead.tail (h : Ahead p q) (hp : peek p ≠ nul) (hq : peek q ≠ nul) :
    Ahead p.tail q.tail := by
  obtain ⟨passed, hnul, rfl⟩ := h
  cases passed with
  | nil => exact .refl _
  | cons c passed =>
    have hpassed : nul ∉ passed := fun h => hnul (mem_cons_of_mem c h)
    exact (Ahead.trans ⟨passed, hpassed, rfl⟩ (ahead_tail hq))

theorem ahead_readTo (stopchars p : List Char) :
    Ahead p (readTo stopchars p) := by
  induction p with
  | nil => exact .refl _
  | cons c p ih =>
    rw [readTo, dropWhile_cons]
    split
    · next hc =>
        refine ih.cons ?_
        rintro rfl
        simp at hc
    · exact .refl _

theorem ahead_commentLoop (start : ℕ) (p : List Char) (line : ℕ)
    (messages : List ParseMessage) :
    Ahead p (commentLoop start p line messages).1 := by
  induction p generalizing line messages with
  | nil => exact .refl _
  | cons c p ih =>
    rw [commentLoop]
    split
    · exact .refl _
    · next hc =>
        split
        · exact (ih _ _).cons hc
        · split
          · exact (Ahead.refl p).cons hc
          · split
            · exact (ih _ _).cons hc
            · exact (ih _ _).cons hc

end Ahead

section Forward

variable {srv : Server} {size : ℕ} {s s' : ParseState} {ptr : List Char}

theorem quoteLoop_suffix (escaped : Bool) (ptr : List Char) :
    quoteLoop escaped ptr <:+ ptr := by
  fun_induction quoteLoop escaped ptr with
  | case1 | case2 c h | case6 c d ptr hc hends => exact suffix_refl _
  | case3 c h => exact nil_suffix
  | case4 d ptr hescapable ih =>
    exact ih.trans ((suffix_cons d ptr).trans (suffix_cons _ _))
  | case5 d ptr hescapable ih
  | case7 c d ptr hc hends ih => exact ih.trans (suffix_cons _ _)

theorem breakout_ptr : s.breakout.state.ptr = s.ptr := by
  obtain ⟨-, -, hptr⟩ | ⟨-, -, heq⟩ := @breakout_cases s
  · exact hptr
  · rw [heq]

theorem takeText_ptr (s : ParseState) (text : List Char) (start : ℕ) :
    (takeText s text start).1.ptr = s.ptr := by
  unfold takeText
  split
  · rfl
  · split
    · rfl
    · rfl

end Forward

/-! ## The cases of the switch -/

/-- The ways to return: `return NULL`, from `breakout` on, or by a crash over a
define without a value. -/
inductive Returned : ParseResult → Prop where
  | null (s : ParseState) (message : ParseMessage) :
      Returned ⟨none, s.fail message, false⟩
  | breakout (s : ParseState) : Returned s.breakout
  | crash (s : ParseState) (h : ∃ d ∈ s.defines, d.2 = none) :
      Returned ⟨none, s, true⟩

/-- An iteration stays in the text, and takes a character if it does not
return. -/
structure GoodMove (s : ParseState) (flow : Flow) : Prop where
  ahead : Ahead s.ptr (stateOf flow).ptr
  forward : ∀ s', flow = .inl s' → s'.ptr <:+ s.ptr.tail
  returned : ∀ r, flow = .inr r → Returned r

section GoodMove

variable {srv : Server} {size : ℕ} {s s' : ParseState} {ptr : List Char}

theorem goodMove_returnNull {message : ParseMessage}
    (hahead : Ahead s.ptr s'.ptr) : GoodMove s (s'.returnNull message) := by
  refine ⟨hahead, nofun, ?_⟩
  rintro _ ⟨⟩
  exact .null s' message

theorem goodMove_breakout (hahead : Ahead s.ptr s'.ptr) :
    GoodMove s (.inr s'.breakout) := by
  refine ⟨?_, nofun, ?_⟩
  · rw [stateOf, breakout_ptr]
    exact hahead
  · rintro _ ⟨⟩
    exact .breakout s'

section Moving

variable (hpeek : peek s.ptr ≠ nul)

include hpeek

theorem goodMove_inl (hahead : Ahead s.ptr.tail s'.ptr) :
    GoodMove s (.inl s') := by
  refine ⟨(ahead_tail hpeek).trans hahead, ?_, nofun⟩
  rintro _ ⟨⟩
  exact hahead.suffix

theorem goodMove_afterSwitch (hahead : Ahead s.ptr s'.ptr) :
    GoodMove s s'.afterSwitch := by
  unfold ParseState.afterSwitch
  split
  · exact goodMove_breakout hahead
  · next hnul => exact goodMove_inl hpeek (hahead.tail hpeek hnul)

theorem goodMove_tail (hptr : s'.ptr = s.ptr.tail) : GoodMove s (.inl s') :=
  goodMove_inl hpeek (hptr ▸ .refl _)

theorem goodMove_onSemicolon : GoodMove s (onSemicolon size s s.ptr.tail) := by
  unfold onSemicolon
  split
  · exact goodMove_tail hpeek rfl
  · exact goodMove_tail hpeek rfl

theorem goodMove_onOpenBrace : GoodMove s (onOpenBrace s s.ptr.tail) := by
  unfold onOpenBrace
  split
  · exact goodMove_tail hpeek rfl
  · split
    · exact goodMove_tail hpeek rfl
    · exact goodMove_tail hpeek rfl

theorem goodMove_onCloseBrace :
    GoodMove s (onCloseBrace size s s.ptr.tail) := by
  unfold onCloseBrace
  split
  · exact goodMove_returnNull (.refl _)
  · exact goodMove_tail hpeek rfl
  · dsimp only
    split
    · exact goodMove_tail hpeek rfl
    · exact goodMove_tail hpeek rfl

theorem goodMove_onLineComment (hahead : Ahead s.ptr.tail ptr) :
    GoodMove s (onLineComment s ptr) := by
  have hread := hahead.trans (ahead_readTo ['\n'] ptr)
  unfold onLineComment
  dsimp only
  split
  · exact goodMove_breakout ((ahead_tail hpeek).trans hread)
  · exact goodMove_inl hpeek hread

theorem goodMove_onComment (hahead : Ahead s.ptr ptr) :
    GoodMove s (onComment s ptr) := by
  have hread := hahead.trans
    (ahead_commentLoop s.linenumber ptr s.linenumber s.messages)
  unfold onComment
  dsimp only
  split
  · exact goodMove_returnNull hread
  · exact goodMove_afterSwitch hpeek hread

theorem readTo_eq_tail {stopchars : List Char}
    (hstop : peek s.ptr ∉ stopchars) :
    readTo stopchars s.ptr = readTo stopchars s.ptr.tail := by
  cases hptr : s.ptr with
  | nil =>
    rw [hptr] at hpeek
    exact absurd rfl hpeek
  | cons c ptr =>
    rw [hptr, peek] at hpeek hstop
    rw [readTo, dropWhile_cons_of_pos (by simp [hpeek, hstop])]
    rfl

theorem goodMove_onWord (hstop : peek s.ptr ∉ [' ', '\t', '\n', ';']) :
    GoodMove s (onWord size s s.ptr.tail) := by
  unfold onWord
  split
  · next hend =>
      refine goodMove_inl hpeek (ahead_tail ?_)
      rw [hend.2]
      decide
  · have hread : Ahead s.ptr.tail (readTo [' ', '\t', '\n', ';'] s.ptr) := by
      rw [readTo_eq_tail hpeek hstop]
      exact ahead_readTo _ _
    dsimp only
    split
    · exact goodMove_returnNull (ahead_readTo _ _)
    · next hnul =>
        split
        · exact goodMove_inl hpeek hread
        · exact goodMove_inl hpeek (hread.trans (ahead_tail hnul))

theorem goodMove_onPreprocessorItem {item : PreprocessorItem}
    (hahead : Ahead s.ptr s'.ptr) :
    GoodMove s (onPreprocessorItem s' item) := by
  cases item with
  | error message => exact goodMove_breakout hahead
  | define defines | «if» cc
  | userError text | userWarning text => exact goodMove_afterSwitch hpeek hahead
  | endif =>
    simp only [onPreprocessorItem]
    split
    · exact goodMove_afterSwitch hpeek hahead
    · exact goodMove_afterSwitch hpeek hahead
  | «else» =>
    simp only [onPreprocessorItem]
    split
    · exact goodMove_afterSwitch hpeek hahead
    · split
      · exact goodMove_breakout hahead
      · exact goodMove_afterSwitch hpeek hahead

theorem goodMove_onDirective : GoodMove s (onDirective srv s) := by
  unfold onDirective
  dsimp only
  split
  · next hcrash =>
      refine ⟨ahead_readTo _ _, nofun, ?_⟩
      rintro _ ⟨⟩
      exact .crash _ (exists_noValue_of_resolveIf hcrash)
  · split
    · exact goodMove_afterSwitch hpeek (ahead_readTo _ _)
    · exact goodMove_onPreprocessorItem hpeek (ahead_readTo _ _)

end Moving

theorem goodMove_onSlash (hslash : peek s.ptr = '/') :
    GoodMove s (onSlash size s s.ptr.tail) := by
  have hpeek : peek s.ptr ≠ nul := by
    rw [hslash]
    decide
  have hnext : ∀ {c}, peek s.ptr.tail = c → c ≠ nul →
      Ahead s.ptr.tail s.ptr.tail.tail := fun h hc => ahead_tail (h ▸ hc)
  unfold onSlash
  split
  · next h => exact goodMove_onLineComment hpeek (hnext h (by decide))
  · split
    · next h =>
        exact goodMove_onComment hpeek
          ((ahead_tail hpeek).trans (hnext h (by decide)))
    · apply goodMove_onWord hpeek
      rw [hslash]
      decide

end GoodMove

/-! ## Quoted strings -/

/-- A position in a text, at the latest at its NUL, behind which the memory
goes on with `after`. -/
def InText (after ptr : List Char) : Prop :=
  ∃ rest, nul ∉ rest ∧ ptr = rest ++ nul :: after

/-- The loop over a quoted string comes to a backslash right before the NUL. -/
def danglingBackslash (escaped : Bool) : List Char → Bool
  | [] => false
  | [_] => false
  | c :: d :: ptr =>
    if c = '\\' then
      if d = nul then true
      else if isEscapable d then danglingBackslash escaped ptr
      else danglingBackslash escaped (d :: ptr)
    else if endsQuote escaped c then false
    else danglingBackslash escaped (d :: ptr)

theorem inText_cons {after ptr : List Char} {c : Char}
    (h : InText after (c :: ptr)) :
    c = nul ∧ ptr = after ∨ c ≠ nul ∧ InText after ptr := by
  obtain ⟨rest, hnul, heq⟩ := h
  cases rest with
  | nil =>
    obtain ⟨rfl, rfl⟩ := List.cons.inj heq
    exact .inl ⟨rfl, rfl⟩
  | cons d rest =>
    obtain ⟨rfl, rfl⟩ := List.cons.inj heq
    simp only [mem_cons, not_or] at hnul
    exact .inr ⟨Ne.symm hnul.1, rest, hnul.2, rfl⟩

theorem InText.ahead {after p q : List Char} (h : InText after p)
    (hq : Ahead p q) : InText after q := by
  obtain ⟨passed, hnul, rfl⟩ := hq
  induction passed with
  | nil => exact h
  | cons c passed ih =>
    simp only [mem_cons, not_or] at hnul
    obtain ⟨hc, -⟩ | ⟨-, h⟩ := inText_cons h
    · exact absurd hc (Ne.symm hnul.1)
    · exact ih hnul.2 h

theorem endsQuote_nul (escaped : Bool) : endsQuote escaped nul = true := by
  simp [endsQuote]

/-- Where the loop stops: in the text, or past its NUL if a backslash is right
before the NUL. -/
def Lands (after : List Char) (dangling : Bool) (ptr : List Char) : Prop :=
  if dangling then ptr.length ≤ after.length else InText after ptr

section Quoted

variable {escaped : Bool} {after ptr : List Char}

theorem quoteLoop_lands (h : InText after ptr) :
    Lands after (danglingBackslash escaped ptr) (quoteLoop escaped ptr) := by
  fun_induction quoteLoop escaped ptr with
  | case1 | case2 c hends => exact h
  | case3 c hends =>
    -- the only character left is the NUL, at which the loop stops
    obtain ⟨rfl, -⟩ | ⟨-, hnil⟩ := inText_cons h
    · exact absurd ⟨by decide, endsQuote_nul escaped⟩ hends
    · obtain ⟨rest, -, h⟩ := hnil
      simp at h
  | case4 d ptr hescapable ih =>
    obtain ⟨hnul, -⟩ | ⟨-, hd⟩ := inText_cons h
    · exact absurd hnul (by decide)
    · rw [danglingBackslash, if_pos rfl]
      obtain ⟨rfl, rfl⟩ | ⟨hnul, hptr⟩ := inText_cons hd
      · exact (quoteLoop_suffix escaped ptr).length_le
      · rw [if_neg hnul, if_pos hescapable]
        exact ih hptr
  | case5 d ptr hescapable ih =>
    have hnul : d ≠ nul := by
      rintro rfl
      exact hescapable rfl
    obtain ⟨hslash, -⟩ | ⟨-, hd⟩ := inText_cons h
    · exact absurd hslash (by decide)
    · rw [danglingBackslash, if_pos rfl, if_neg hnul, if_neg hescapable]
      exact ih hd
  | case6 c d ptr hc hends =>
    rw [danglingBackslash, if_neg hc, if_pos hends]
    exact h
  | case7 c d ptr hc hends ih =>
    obtain ⟨rfl, -⟩ | ⟨-, hd⟩ := inText_cons h
    · exact absurd (endsQuote_nul escaped) hends
    · rw [danglingBackslash, if_neg hc, if_neg hends]
      exact ih hd

end Quoted

/-- The iteration reads a quoted string with a backslash right before the
NUL. -/
def DanglingQuote (size : ℕ) (s : ParseState) : Prop :=
  switchCase (peek s.ptr) = .quote ∧
    danglingBackslash (beforeQuote size s (peek s.ptr)).escaped s.ptr.tail =
      true

section OnQuote

variable {size : ℕ} {s : ParseState} {ptr : List Char} {c : Char}

def quoteStop (size : ℕ) (s : ParseState) (ptr : List Char) (c : Char) :
    List Char :=
  quoteLoop (beforeQuote size s c).escaped ptr

/-- The position after a quoted string: where its loop stops, if the parser
returns, or one further. -/
theorem onQuote_ptr :
    (∃ r, onQuote size s ptr c = .inr r ∧ Returned r ∧
        r.state.ptr = quoteStop size s ptr c) ∨
      ∃ s', onQuote size s ptr c = .inl s' ∧
        s'.ptr = (quoteStop size s ptr c).tail ∧
        peek (quoteStop size s ptr c) ≠ nul := by
  unfold onQuote
  dsimp only
  split
  · exact .inl ⟨_, rfl, .null _ _, rfl⟩
  · next hstop =>
      have hnul : peek (quoteStop size s ptr c) ≠ nul := fun h =>
        hstop (.inl h)
      have hafter (s' : ParseState) (hptr : s'.ptr = quoteStop size s ptr c) :
          ∃ s'', s'.afterSwitch = .inl s'' ∧
            s''.ptr = (quoteStop size s ptr c).tail ∧
            peek (quoteStop size s ptr c) ≠ nul := by
        rw [ParseState.afterSwitch, if_neg (hptr ▸ hnul), hptr]
        exact ⟨_, rfl, rfl, hnul⟩
      right
      split
      · exact hafter _ (takeText_ptr _ _ _)
      · exact hafter _ (takeText_ptr _ _ _)

theorem onQuote_forward {s' : ParseState}
    (h : onQuote size s s.ptr.tail c = .inl s') : s'.ptr <:+ s.ptr.tail := by
  obtain ⟨r, hr, -, -⟩ | ⟨s₁, hs₁, hptr, -⟩ := @onQuote_ptr size s s.ptr.tail c
  · rw [hr] at h
    cases h
  · rw [hs₁] at h
    cases h
    rw [hptr]
    exact (tail_suffix _).trans (quoteLoop_suffix _ _)

theorem onQuote_lands {after : List Char} (h : InText after ptr) :
    Lands after (danglingBackslash (beforeQuote size s c).escaped ptr)
      (stateOf (onQuote size s ptr c)).ptr := by
  have hstop : Lands after _ (quoteStop size s ptr c) := quoteLoop_lands h
  obtain ⟨r, hr, -, hptr⟩ | ⟨s', hs', hptr, hpeek⟩ := @onQuote_ptr size s ptr c
  · rw [hr, stateOf, hptr]
    exact hstop
  · rw [hs', stateOf, hptr]
    revert hstop
    cases danglingBackslash (beforeQuote size s c).escaped ptr with
    | false => exact fun h => InText.ahead h (ahead_tail hpeek)
    | true => exact (tail_suffix _).length_le.trans

end OnQuote

/-! ## An iteration -/

section Iteration

variable {srv : Server} {size : ℕ} {s s' : ParseState}

theorem ne_nul_of_switchCase {c : Char} {case : SwitchCase}
    (h : switchCase c = case) (hcase : case ≠ .nul) : c ≠ nul := by
  rintro rfl
  exact hcase h.symm

theorem eq_of_switchCase_slash {c : Char} (h : switchCase c = .slash) :
    c = '/' := by
  unfold switchCase at h
  repeat' split at h
  all_goals first | assumption | cases h

theorem not_mem_of_switchCase_default {c : Char} (h : switchCase c = .default) :
    c ∉ [' ', '\t', '\n', ';'] := by
  intro hmem
  simp only [mem_cons, not_mem_nil, or_false] at hmem
  obtain rfl | rfl | rfl | rfl := hmem
  all_goals exact absurd h (by decide)

/-- All cases but that of a quoted string. -/
theorem parseStep_goodMove (hquote : switchCase (peek s.ptr) ≠ .quote) :
    GoodMove s (parseStep srv size s) := by
  by_cases hpeek : peek s.ptr = nul
  · rw [parseStep, hpeek]
    exact goodMove_breakout (.refl _)
  · unfold parseStep
    cases hcase : switchCase (peek s.ptr) with
    | nul => exact goodMove_breakout (.refl _)
    | semicolon => exact goodMove_onSemicolon hpeek
    | openBrace => exact goodMove_onOpenBrace hpeek
    | closeBrace => exact goodMove_onCloseBrace hpeek
    | hash => exact goodMove_onLineComment hpeek (.refl _)
    | slash => exact goodMove_onSlash (eq_of_switchCase_slash hcase)
    | quote => exact absurd hcase hquote
    | newline | blank => exact goodMove_tail hpeek rfl
    | «at» => exact goodMove_onDirective hpeek
    | default =>
      exact goodMove_onWord hpeek (not_mem_of_switchCase_default hcase)

theorem parseStep_of_quote (h : switchCase (peek s.ptr) = .quote) :
    parseStep srv size s = onQuote size s s.ptr.tail (peek s.ptr) := by
  unfold parseStep
  rw [h]

theorem parseStep_forward (h : parseStep srv size s = .inl s') :
    s'.ptr <:+ s.ptr.tail := by
  by_cases hquote : switchCase (peek s.ptr) = .quote
  · rw [parseStep_of_quote hquote] at h
    exact onQuote_forward h
  · exact (parseStep_goodMove hquote).forward s' h

/-- The memory left gets shorter in every iteration. -/
theorem parseStep_shrinks (srv : Server) (size : ℕ) :
    Shrinks (parseStep srv size) fun s => s.ptr.length := by
  intro s s' h
  have hle := (parseStep_forward h).length_le
  have hne : s.ptr ≠ [] := by
    intro hnil
    rw [parseStep, hnil] at h
    cases h
  have hpos := length_pos_iff.mpr hne
  rw [length_tail] at hle
  dsimp only
  omega

/-- An iteration stays in the text unless it reads a quoted string with a
backslash right before the NUL. -/
theorem parseStep_inText {after : List Char} (h : InText after s.ptr)
    (hdangling : ¬ DanglingQuote size s) :
    InText after (stateOf (parseStep srv size s)).ptr := by
  by_cases hquote : switchCase (peek s.ptr) = .quote
  · have hlands := @onQuote_lands size s _ (peek s.ptr) _
      (h.ahead (ahead_tail (ne_nul_of_switchCase hquote (by decide))))
    rw [parseStep_of_quote hquote]
    rwa [Lands, if_neg fun hd => hdangling ⟨hquote, hd⟩] at hlands
  · exact h.ahead (parseStep_goodMove hquote).ahead

theorem parseStep_returned {r : ParseResult}
    (h : parseStep srv size s = .inr r) : Returned r := by
  by_cases hquote : switchCase (peek s.ptr) = .quote
  · rw [parseStep_of_quote hquote] at h
    obtain ⟨r', hr', hreturned, -⟩ | ⟨s', hs', -⟩ :=
      @onQuote_ptr size s s.ptr.tail (peek s.ptr)
    · rw [hr'] at h
      cases h
      exact hreturned
    · rw [hs'] at h
      cases h
  · exact (parseStep_goodMove hquote).returned r h

end Iteration

/-! ## The first iteration -/

section Initial

variable (defines : Defines) (lineOffset : ℕ)

theorem length_initialState_lt (confdata : List Char) :
    (initialState defines confdata lineOffset).ptr.length <
      confdata.length + 1 := by
  have hlen : confdata.length =
      (cstring confdata).length + (confdata.dropWhile (· != nul)).length := by
    rw [cstring, ← length_append]
    exact congrArg _ (takeWhile_append_dropWhile).symm
  simp only [initialState, replaceCarriageReturns, length_append, length_map]
  omega

theorem replaceCarriageReturns_append {text : List Char} (htext : nul ∉ text)
    (after : List Char) :
    replaceCarriageReturns (text ++ nul :: after) =
      (text.map fun c => if c = '\r' then ' ' else c) ++ nul :: after := by
  have hcstring : cstring (text ++ nul :: after) = text := by
    rw [cstring_append htext]
    exact append_nil text
  rw [replaceCarriageReturns, hcstring, dropWhile_bne_append htext]

end Initial

end UnrealIrcd.Config
