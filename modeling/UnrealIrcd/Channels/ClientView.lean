import UnrealIrcd.Channels.Sjoin

/-!
# What clients read in MODE lines

A client knows from the tokens `CHANMODES` and `PREFIX` of the server which
letters have a parameter, and reads the lines letter by letter.  This file has
such a reader, and what it makes of the lines that the buffers of `cmd_sjoin`
produce.
-/

namespace UnrealIrcd.Channels

open Support List

/-! ## Reading a line -/

/-- A letter with this sign has a parameter. -/
def takesParam (T : ModeTable) (what : What) (c : Char) : Bool :=
  (ListMode.ofLetter c).isSome ||
    match T.findChannelModeHandler c with
    | none => false
    | some cm => cm.paracountFor what != 0

def signAt (what : What) (c : Char) : What :=
  if c = '+' then .add else if c = '-' then .del else what

/-- The loop of a client over the letters. -/
def readChanges (T : ModeTable) :
    What → List Char → List (List Char) → List ModeChange
  | _, [], _ => []
  | what, c :: s, args =>
    if c = '+' ∨ c = '-' then readChanges T (signAt what c) s args
    else if takesParam T what c then
      ⟨what, c, args.headD []⟩ :: readChanges T what s args.tail
    else ⟨what, c, []⟩ :: readChanges T what s args

def ModeLine.changes (T : ModeTable) (line : ModeLine) : List ModeChange :=
  readChanges T .add line.modeline (strtokens (· == ' ') line.paramline)

def LocalMessage.changes (T : ModeTable) : LocalMessage → List ModeChange
  | .mode line => line.changes T
  | .join _ => []
  | .kick _ => []

/-- The changes that clients read in the messages. -/
def announced (T : ModeTable) (msgs : List LocalMessage) : List ModeChange :=
  msgs.flatMap (LocalMessage.changes T)

@[simp] theorem announced_append (T : ModeTable)
    (msgs msgs' : List LocalMessage) :
    announced T (msgs ++ msgs') = announced T msgs ++ announced T msgs' :=
  flatMap_append

/-- The sign in force behind the letters. -/
def signBehind (what : What) (s : List Char) : What := s.foldl signAt what

/-- How many parameters the letters take. -/
def paramCount (T : ModeTable) : What → List Char → ℕ
  | _, [] => 0
  | what, c :: s =>
    (if c ≠ '+' ∧ c ≠ '-' ∧ takesParam T what c = true then 1 else 0) +
      paramCount T (signAt what c) s

variable {T : ModeTable} {what : What} {c : Char}

theorem signAt_of_ne (hplus : c ≠ '+') (hminus : c ≠ '-') :
    signAt what c = what := by
  rw [signAt, if_neg hplus, if_neg hminus]

theorem readChanges_append {s t : List Char} {args args' : List (List Char)}
    (h : args.length = paramCount T what s) :
    readChanges T what (s ++ t) (args ++ args') =
      readChanges T what s args ++
        readChanges T (signBehind what s) t args' := by
  induction s generalizing what args with
  | nil =>
    rw [paramCount, length_eq_zero_iff] at h
    rw [h]
    rfl
  | cons c s ih =>
    rw [paramCount] at h
    rw [cons_append, readChanges, readChanges]
    by_cases hc : c = '+' ∨ c = '-'
    · rw [if_neg (by tauto), Nat.zero_add] at h
      rw [if_pos hc, if_pos hc]
      exact ih h
    · have hne := not_or.mp hc
      rw [signAt_of_ne hne.1 hne.2] at h
      have hsign : signBehind what (c :: s) = signBehind what s := by
        rw [signBehind, foldl_cons, signAt_of_ne hne.1 hne.2]
        rfl
      rw [if_neg hc, if_neg hc, hsign]
      by_cases hparam : takesParam T what c = true
      · rw [if_pos ⟨hne.1, hne.2, hparam⟩] at h
        rw [if_pos hparam, if_pos hparam]
        cases args with
        | nil =>
          rw [length_nil] at h
          omega
        | cons arg args =>
          rw [length_cons, Nat.add_comm, Nat.add_left_cancel_iff] at h
          simp only [cons_append, headD_cons, tail_cons, ih h]
      · rw [if_neg (by tauto), Nat.zero_add] at h
        rw [if_neg hparam, if_neg hparam, ih h, cons_append]

theorem paramCount_append (what : What) (s t : List Char) :
    paramCount T what (s ++ t) =
      paramCount T what s + paramCount T (signBehind what s) t := by
  induction s generalizing what with
  | nil => simp [paramCount, signBehind]
  | cons c s ih =>
    rw [cons_append, paramCount, paramCount, ih, Nat.add_assoc]
    rfl

theorem letter_of_mem_readChanges {s : List Char} {args : List (List Char)}
    {x : ModeChange} (hx : x ∈ readChanges T what s args) : x.letter ∈ s := by
  induction s generalizing what args with
  | nil => simp [readChanges] at hx
  | cons c s ih =>
    rw [readChanges] at hx
    split at hx
    · exact mem_cons_of_mem _ (ih hx)
    split at hx
    · rcases mem_cons.mp hx with rfl | hx
      · exact mem_cons_self
      · exact mem_cons_of_mem _ (ih hx)
    · rcases mem_cons.mp hx with rfl | hx
      · exact mem_cons_self
      · exact mem_cons_of_mem _ (ih hx)

/-- Without a plus, nothing is added behind a minus. -/
theorem what_of_mem_readChanges {s : List Char} (hs : '+' ∉ s)
    {args : List (List Char)} {x : ModeChange}
    (hx : x ∈ readChanges T .del s args) : x.what = .del := by
  induction s generalizing args with
  | nil => simp [readChanges] at hx
  | cons c s ih =>
    rw [mem_cons, not_or] at hs
    have hsign : signAt .del c = .del := by
      rw [signAt, if_neg (Ne.symm hs.1), ite_self]
    rw [readChanges, hsign] at hx
    split at hx
    · exact ih hs.2 hx
    split at hx
    · rcases mem_cons.mp hx with rfl | hx
      · rfl
      · exact ih hs.2 hx
    · rcases mem_cons.mp hx with rfl | hx
      · rfl
      · exact ih hs.2 hx

/-! ## Buffers -/

def What.char : What → Char
  | .add => '+'
  | .del => '-'

/-- The parameters in the buffers are words, one for each letter that has
one. -/
def ModeBuffer.Exact (T : ModeTable) (b : ModeBuffer) : Prop :=
  ∃ words, (∀ w ∈ words, IsWord w) ∧ b.parabuf = joinWords words ∧
    words.length = paramCount T .add b.modebuf

def ModeBuffer.changes (T : ModeTable) (b : ModeBuffer) : List ModeChange :=
  announced T b.sent ++ ModeLine.changes T ⟨b.modebuf, b.parabuf⟩

/-- There is no sign but the first one. -/
def ModeBuffer.OneSign (what : What) (b : ModeBuffer) : Prop :=
  ∃ letters, b.modebuf = what.char :: letters ∧
    ∀ c ∈ letters, c ≠ '+' ∧ c ≠ '-'

variable {b : ModeBuffer}

theorem announced_send : announced T b.send = b.changes T := by
  rw [ModeBuffer.send, announced_append, ModeBuffer.changes]
  simp [announced, LocalMessage.changes]

theorem announced_finish : announced T b.finish = b.changes T := by
  rw [ModeBuffer.finish]
  split
  · next hempty =>
      have hnone : ∀ args, readChanges T .add b.modebuf args = [] := by
        intro args
        simp only [emptyMode, Bool.or_eq_true, beq_iff_eq] at hempty
        rcases hempty with (h | h) | h
        all_goals
          rw [h]
          rfl
      rw [ModeBuffer.changes, ModeLine.changes, hnone, append_nil]
  · exact announced_send

theorem signBehind_eq {letters : List Char}
    (h : ∀ c ∈ letters, c ≠ '+' ∧ c ≠ '-') :
    signBehind what letters = what := by
  induction letters with
  | nil => rfl
  | cons c letters ih =>
    have hc := h c (by simp)
    rw [signBehind, foldl_cons, signAt_of_ne hc.1 hc.2]
    exact ih fun d hd => h d (by simp [hd])

theorem ModeBuffer.OneSign.signBehind (h : b.OneSign what) :
    signBehind .add b.modebuf = what := by
  obtain ⟨letters, hmodebuf, hletters⟩ := h
  have hsign : signAt .add what.char = what := by
    cases what with
    | add | del => rfl
  rw [hmodebuf, Channels.signBehind, foldl_cons, hsign]
  exact signBehind_eq hletters

section Letter

variable (hplus : c ≠ '+') (hminus : c ≠ '-')
  (hparam : takesParam T what c = true)

include hplus hminus hparam

theorem readChanges_letter (param : List Char) :
    readChanges T what [c] [param] = [⟨what, c, param⟩] := by
  rw [readChanges, if_neg (by tauto), if_pos hparam]
  rfl

variable {param : List Char}

theorem ModeBuffer.Exact.append (h : b.Exact T)
    (hsign : signBehind .add b.modebuf = what) (hword : IsWord param) :
    let b' : ModeBuffer := { b with
      modebuf := b.modebuf ++ [c]
      parabuf := if b.parabuf = [] then param else b.parabuf ++ ' ' :: param }
    b'.Exact T ∧ b'.changes T = b.changes T ++ [⟨what, c, param⟩] := by
  obtain ⟨words, hwords, hparabuf, hlen⟩ := h
  have hwords' : ∀ w ∈ words ++ [param], IsWord w :=
    forall_mem_append.mpr ⟨hwords, forall_mem_singleton.mpr hword⟩
  have hjoin := (joinWords_concat hwords param).symm
  rw [← hparabuf] at hjoin
  refine ⟨⟨words ++ [param], hwords', hjoin, ?_⟩, ?_⟩
  · rw [length_append, paramCount_append, hlen, hsign, paramCount,
      if_pos ⟨hplus, hminus, hparam⟩]
    rfl
  · simp only [changes, ModeLine.changes]
    rw [hjoin, strtokens_joinWords hwords', hparabuf,
      strtokens_joinWords hwords, readChanges_append hlen, hsign,
      readChanges_letter hplus hminus hparam, append_assoc]

theorem exact_restart (hword : IsWord param) (sent : List LocalMessage) :
    let b' : ModeBuffer := ⟨sent, [what.char, c], param⟩
    b'.Exact T ∧ b'.changes T = announced T sent ++ [⟨what, c, param⟩] := by
  have hempty : ModeBuffer.Exact T ⟨sent, [what.char], []⟩ := by
    refine ⟨[], by simp, rfl, ?_⟩
    cases what with
    | add | del => rfl
  have hsign : signBehind .add [what.char] = what := by
    cases what with
    | add | del => rfl
  obtain ⟨hexact, hchanges⟩ := hempty.append hplus hminus hparam hsign hword
  have hnone : ModeBuffer.changes T ⟨sent, [what.char], []⟩ =
      announced T sent := by
    rw [ModeBuffer.changes]
    cases what with
    | add | del => exact append_nil _
  rw [hnone] at hchanges
  exact ⟨hexact, hchanges⟩

theorem ModeBuffer.Exact.addit (h : b.Exact T) (hone : b.OneSign what)
    (hword : IsWord param) :
    (b.addit c param).Exact T ∧ (b.addit c param).OneSign what ∧
      (b.addit c param).changes T = b.changes T ++ [⟨what, c, param⟩] := by
  have hsign := hone.signBehind
  obtain ⟨letters, hmodebuf, hletters⟩ := hone
  unfold ModeBuffer.addit
  split
  · obtain ⟨hexact, hchanges⟩ := h.append hplus hminus hparam hsign hword
    refine ⟨hexact, ⟨letters ++ [c], by simp [hmodebuf], ?_⟩, hchanges⟩
    exact forall_mem_append.mpr
      ⟨hletters, forall_mem_singleton.mpr ⟨hplus, hminus⟩⟩
  · obtain ⟨hexact, hchanges⟩ := exact_restart hplus hminus hparam hword b.send
    have htake : b.modebuf.take 1 ++ [c] = [what.char, c] := by
      rw [hmodebuf]
      rfl
    rw [announced_send] at hchanges
    rw [htake]
    exact ⟨hexact, ⟨[c], rfl, by simpa using ⟨hplus, hminus⟩⟩, hchanges⟩

end Letter

end UnrealIrcd.Channels
