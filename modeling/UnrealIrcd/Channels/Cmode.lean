import UnrealIrcd.Support.CString
import Mathlib.Data.List.Nodup

/-!
# Channel modes

The table of channel modes that the modules of the server register, and the
status letters of channel members that are built from it.

A server loads any selection of the modules, so its table is any sublist of
the full one, which is sorted the way `channelmode_add_sorted` inserts: lower
case letters before upper case ones, and by character code otherwise.
-/

namespace UnrealIrcd.Channels

open Support

inductive CmodeType where
  | normal
  | member
  deriving DecidableEq, Repr

structure Cmode where
  letter : Char
  type : CmodeType
  sjoinPrefix : Option Char
  rank : ℤ
  paracount : ℕ
  unsetWithParam : Bool
  isLocal : Bool
  floodTypeAction : Option Char
  deriving DecidableEq, Repr

def Cmode.flag (letter : Char) : Cmode :=
  ⟨letter, .normal, none, 0, 0, false, false, none⟩

/-- A mode without a parameter that is not sent to other servers. -/
def Cmode.localFlag (letter : Char) : Cmode :=
  ⟨letter, .normal, none, 0, 0, false, true, none⟩

def Cmode.param (letter : Char) (unsetWithParam : Bool) : Cmode :=
  ⟨letter, .normal, none, 0, 1, unsetWithParam, false, none⟩

def Cmode.status (letter sjoinPrefix : Char) (rank : ℤ) : Cmode :=
  ⟨letter, .member, some sjoinPrefix, rank, 1, true, false, none⟩

/-- All channel modes of the source tree. -/
def allChannelmodes : List Cmode :=
  [.status 'a' '~' 3000, .flag 'c', .localFlag 'd', .param 'f' true,
    .status 'h' '%' 1000, .flag 'i', .param 'k' true, .param 'l' false,
    .flag 'm', .flag 'n', .status 'o' '@' 2000, .flag 'p',
    .status 'q' '*' 4000, .flag 'r', .flag 's', .flag 't',
    .status 'v' '+' (-1), .flag 'z',
    .flag 'C', .flag 'D', .param 'F' false, .flag 'G', .param 'H' false,
    .flag 'K', .param 'L' true, .flag 'M', .flag 'N', .flag 'O', .flag 'P',
    .flag 'Q', .flag 'R', .flag 'S', .flag 'T', .flag 'V', .localFlag 'Z']

/-- The list `channelmodes` of a server. -/
structure ModeTable where
  channelmodes : List Cmode
  sublist : channelmodes.Sublist allChannelmodes

/-- The table of a server that loads every module. -/
def ModeTable.full : ModeTable := ⟨allChannelmodes, List.Sublist.refl _⟩

namespace ModeTable

variable (T : ModeTable)

def findChannelModeHandler (letter : Char) : Option Cmode :=
  T.channelmodes.find? (·.letter == letter)

/-- `letter` is a loaded member mode. -/
def IsStatus (letter : Char) : Prop :=
  ∃ cm ∈ T.channelmodes, cm.letter = letter ∧ cm.type = .member

instance (letter : Char) : Decidable (T.IsStatus letter) :=
  inferInstanceAs (Decidable (∃ cm ∈ T.channelmodes, _))

def rankOf (letter : Char) : ℤ :=
  ((T.findChannelModeHandler letter).map Cmode.rank).getD 0

/-! ## Lookup in the table -/

theorem nodup_letters : (T.channelmodes.map Cmode.letter).Nodup :=
  ((T.sublist.map Cmode.letter).nodup
    (by decide : (allChannelmodes.map Cmode.letter).Nodup))

theorem eq_of_letter {cm cm' : Cmode} (h : cm ∈ T.channelmodes)
    (h' : cm' ∈ T.channelmodes) (heq : cm.letter = cm'.letter) : cm = cm' :=
  List.inj_on_of_nodup_map T.nodup_letters h h' heq

theorem mem_all {cm : Cmode} (h : cm ∈ T.channelmodes) : cm ∈ allChannelmodes :=
  T.sublist.subset h

theorem findChannelModeHandler_eq_some {letter : Char} {cm : Cmode} :
    T.findChannelModeHandler letter = some cm ↔
      cm ∈ T.channelmodes ∧ cm.letter = letter := by
  constructor
  · intro h
    exact ⟨List.mem_of_find?_eq_some h,
      by simpa using List.find?_some h⟩
  · rintro ⟨hmem, rfl⟩
    cases hfind : T.findChannelModeHandler cm.letter with
    | none =>
      have hnone := List.find?_eq_none.mp hfind cm hmem
      simp at hnone
    | some cm' =>
      have hmem' := List.mem_of_find?_eq_some hfind
      have hletter : cm'.letter = cm.letter := by
        simpa using List.find?_some hfind
      rw [T.eq_of_letter hmem' hmem hletter]

theorem rankOf_of_mem {cm : Cmode} (h : cm ∈ T.channelmodes) :
    T.rankOf cm.letter = cm.rank := by
  rw [rankOf, T.findChannelModeHandler_eq_some.mpr ⟨h, rfl⟩]
  rfl

theorem eq_of_rankOf_eq {a b : Char} (ha : T.IsStatus a) (hb : T.IsStatus b)
    (h : T.rankOf a = T.rankOf b) : a = b := by
  obtain ⟨cm, hcm, rfl, htype⟩ := ha
  obtain ⟨cm', hcm', rfl, htype'⟩ := hb
  rw [T.rankOf_of_mem hcm, T.rankOf_of_mem hcm'] at h
  have hdistinct : ∀ x ∈ allChannelmodes, ∀ y ∈ allChannelmodes,
      x.type = .member → y.type = .member → x.rank = y.rank →
        x.letter = y.letter := by
    decide
  exact hdistinct cm (T.mem_all hcm) cm' (T.mem_all hcm') htype htype' h

theorem mem_statusLetters {a : Char} (h : T.IsStatus a) :
    a ∈ ['a', 'h', 'o', 'q', 'v'] := by
  obtain ⟨cm, hcm, rfl, htype⟩ := h
  have hall : ∀ x ∈ allChannelmodes, x.type = .member →
      x.letter ∈ ['a', 'h', 'o', 'q', 'v'] := by
    decide
  exact hall cm (T.mem_all hcm) htype

end ModeTable

/-! ## Status letters of a member -/

/-- The size of the buffer of the status letters, with its NUL. -/
def membermodeslen : ℕ := 8

def strlcatLetter (buf : List Char) (c : Char) (size : ℕ) : List Char :=
  if size = 0 ∨ size - 1 ≤ buf.length then buf else buf ++ [c]

/-- The insertion loop of `addlettertomstring`: before the first letter of a
lower rank. -/
def insertByRank (T : ModeTable) (rank : ℤ) (letter : Char) :
    List Char → List Char
  | [] => [letter]
  | c :: str =>
    match T.findChannelModeHandler c with
    | none => c :: insertByRank T rank letter str
    | some cm =>
      if cm.rank < rank then letter :: c :: str
      else c :: insertByRank T rank letter str

def addlettertomstring (T : ModeTable) (str : List Char) (letter : Char) :
    List Char :=
  match T.findChannelModeHandler letter with
  | none => str
  | some cm =>
    if cm.type ≠ .member then str
    else if membermodeslen - 1 ≤ str.length then str
    else insertByRank T cm.rank letter str

/-- `delletterfromstring`: only the first occurrence is removed. -/
def delletterfromstring (s : List Char) (letter : Char) : List Char :=
  s.erase letter

def sjoinPrefixToMode (T : ModeTable) (s : Char) : Option Char :=
  if s = '\x00' then none
  else if s = '&' then some 'b'
  else if s = '"' then some 'e'
  else if s = '\x27' then some 'I'
  else
    (T.channelmodes.find? fun cm =>
      cm.sjoinPrefix == some s && cm.type == .member).map Cmode.letter

theorem sjoinPrefixToMode_eq_some
    {T : ModeTable} {s m : Char} (h : sjoinPrefixToMode T s = some m) :
    m ∈ ['b', 'e', 'I'] ∨ T.IsStatus m := by
  unfold sjoinPrefixToMode at h
  split at h
  · cases h
  split at h
  · cases h
    exact .inl (by simp)
  split at h
  · cases h
    exact .inl (by simp)
  split at h
  · cases h
    exact .inl (by simp)
  · obtain ⟨cm, hfind, rfl⟩ := Option.map_eq_some_iff.mp h
    have htype : cm.type = .member := by
      have hsome := List.find?_some hfind
      simp only [Bool.and_eq_true, beq_iff_eq] at hsome
      exact hsome.2
    exact .inr ⟨cm, List.mem_of_find?_eq_some hfind, rfl, htype⟩

def modeToSjoinPrefix (T : ModeTable) (s : Char) : Option Char :=
  if s = '\x00' then none
  else if s = 'b' then some '&'
  else if s = 'e' then some '"'
  else if s = 'I' then some '\x27'
  else
    (T.channelmodes.find? fun cm =>
      cm.letter == s && cm.type == .member).bind Cmode.sjoinPrefix

def modesToSjoinPrefix (T : ModeTable) (modes : List Char) : List Char :=
  modes.foldl (fun buf m =>
    match modeToSjoinPrefix T m with
    | none => buf
    | some f => strlcatLetter buf f membermodeslen) []

end UnrealIrcd.Channels
