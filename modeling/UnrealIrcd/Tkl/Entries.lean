import UnrealIrcd.Support.CString

/-!
# Server bans and where they are stored

The entries of `tkl.c` and their two tables.  An entry whose host mask is an IP
address is put in `tklines_ip_hash`, by a hash of this address; every other
entry goes to one of the lists of `tklines`.
-/

namespace UnrealIrcd.Tkl

open Support

/-! ## The hash of an address -/

def isXDigit (c : Char) : Bool :=
  c.isDigit || ('a' ≤ c && c ≤ 'f') || ('A' ≤ c && c ≤ 'F')

/-- `inet_pton` of the C library, with the characters that it accepts. -/
structure InetPton where
  inet : List Char → Option (List UInt8)
  inet6 : List Char → Option (List UInt8)
  inet_chars : ∀ {s b}, inet s = some b → ∀ c ∈ s, c.isDigit = true ∨ c = '.'
  inet6_colon : ∀ {s b}, inet6 s = some b → ':' ∈ s
  inet6_chars : ∀ {s b}, inet6 s = some b →
    ∀ c ∈ s, isXDigit c = true ∨ c = ':' ∨ c = '.'

def tklIpHashLen2 : ℕ := 1021

def fourBytes (b : List UInt8) (i : ℕ) : ℕ :=
  (b.getD i 0).toNat * 2 ^ 24 + (b.getD (i + 1) 0).toNat * 2 ^ 16 +
    (b.getD (i + 2) 0).toNat * 2 ^ 8 + (b.getD (i + 3) 0).toNat

/-- `tkl_ip_hash`, where none is the answer `-1`. -/
def tklIpHash (N : InetPton) (ip : List Char) : Option ℕ :=
  if ip.any fun c => c == '?' || c == '*' || c == '/' then none
  else
    match N.inet ip with
    | some b => some (fourBytes b 0 % tklIpHashLen2)
    | none =>
      match N.inet6 ip with
      | some b => some ((fourBytes b 0 ^^^ fourBytes b 4) % tklIpHashLen2)
      | none => none

/-! ## Types -/

/-- A row of `tkl_types`: the letter, the type, and whether there are entries
and exceptions of this type. -/
structure TypeRow where
  letter : Char
  type : ℕ
  tkltype : Bool
  exceptiontype : Bool

def tklKill : ℕ := 0x1
def tklZap : ℕ := 0x2
def tklGlobal : ℕ := 0x4
def tklShun : ℕ := 0x8
def tklSpamf : ℕ := 0x20
def tklName : ℕ := 0x40
def tklException : ℕ := 0x80

def tklTypes : List TypeRow :=
  [⟨'G', tklKill ||| tklGlobal, true, true⟩, ⟨'k', tklKill, true, true⟩,
    ⟨'Z', tklZap ||| tklGlobal, true, true⟩, ⟨'z', tklZap, true, true⟩,
    ⟨'F', tklSpamf ||| tklGlobal, true, true⟩,
    ⟨'Q', tklName ||| tklGlobal, true, true⟩,
    ⟨'E', tklException ||| tklGlobal, true, false⟩,
    ⟨'s', tklShun ||| tklGlobal, true, true⟩, ⟨'q', tklName, true, false⟩,
    ⟨'e', tklException, true, false⟩, ⟨'f', tklSpamf, true, false⟩,
    ⟨'b', 0x1000, false, true⟩, ⟨'c', 0x2000, false, true⟩,
    ⟨'m', 0x4000, false, true⟩, ⟨'d', 0x8000, false, true⟩,
    ⟨'r', 0x10000, false, true⟩, ⟨'8', 0x20000, false, true⟩,
    ⟨'v', 0x40000, false, true⟩]

def tklTypetochar (type : ℕ) : Char :=
  ((tklTypes.find? fun row => row.type == type && row.tkltype).map
    TypeRow.letter).getD '\x00'

def tklBanexceptionChartotype (c : Char) : ℕ :=
  ((tklTypes.find? fun row => row.letter == c && row.exceptiontype).map
    TypeRow.type).getD 0

inductive ServerBanType
  | gline
  | kline
  | gzline
  | zline
  | shun
  deriving DecidableEq, Repr

inductive ExceptionType
  | network
  | localOnly
  deriving DecidableEq, Repr

/-- Spamfilters and name bans, which share the lists. -/
inductive OtherType
  | spamfilter
  | localSpamfilter
  | qline
  | localQline
  deriving DecidableEq, Repr

def ServerBanType.type : ServerBanType → ℕ
  | gline => tklKill ||| tklGlobal
  | kline => tklKill
  | gzline => tklZap ||| tklGlobal
  | zline => tklZap
  | shun => tklShun ||| tklGlobal

def ExceptionType.type : ExceptionType → ℕ
  | network => tklException ||| tklGlobal
  | localOnly => tklException

def OtherType.type : OtherType → ℕ
  | spamfilter => tklSpamf ||| tklGlobal
  | localSpamfilter => tklSpamf
  | qline => tklName ||| tklGlobal
  | localQline => tklName

/-! ## Entries -/

/-- Whom a server ban is about: a security group, for a ban of the
configuration file, or a user mask and a host mask. -/
inductive Target (G : Type)
  | group (g : G)
  | mask (usermask hostmask : List Char)

structure ServerBan (G : Type) where
  soft : Bool
  target : Target G

/-- A ban exception, which has masks also beside a security group. -/
structure BanException (G : Type) where
  soft : Bool
  group : Option G
  usermask : List Char
  hostmask : List Char
  bantypes : List Char

inductive Entry (G : Type)
  | serverban (type : ServerBanType) (b : ServerBan G)
  | banexception (type : ExceptionType) (e : BanException G)
  | other (type : OtherType)

variable {G : Type}

def Entry.type : Entry G → ℕ
  | .serverban type _ => type.type
  | .banexception type _ => type.type
  | .other type => type.type

def tklHash (c : Char) : ℕ :=
  if c.isUpper then c.toNat - 'A'.toNat else c.toNat - 'a'.toNat

def tklIpHashType (c : Char) : Option (Fin 4) :=
  if c = 'Z' ∨ c = 'z' then some 0
  else if c = 'G' then some 1
  else if c = 'k' then some 2
  else if c = 'e' ∨ c = 'E' then some 3
  else none

/-! ## The tables -/

/-- `tklines_ip_hash` and `tklines`. -/
structure Tables (G : Type) where
  tklinesIpHash : Fin 4 → ℕ → List (Entry G)
  tklines : ℕ → List (Entry G)

def Entry.hostmask : Entry G → Option (List Char)
  | .serverban _ b =>
    match b.target with
    | .group _ => none
    | .mask _ hostmask => some hostmask
  | .banexception _ e => some e.hostmask
  | .other _ => none

/-- The place of an entry in `tklines_ip_hash`, if it is put there. -/
def Entry.slot (N : InetPton) (tkl : Entry G) : Option (Fin 4 × ℕ) :=
  match tklIpHashType (tklTypetochar tkl.type) with
  | none => none
  | some index =>
    (tkl.hostmask.bind (tklIpHash N)).map fun index2 => (index, index2)

/-- The end of `tkl_add_serverban`, `tkl_add_banexception` and the functions for
other entries. -/
def tklAdd (N : InetPton) (T : Tables G) (tkl : Entry G) : Tables G :=
  match tkl.slot N with
  | some (index, index2) =>
    { T with
      tklinesIpHash := Function.update T.tklinesIpHash index
        (Function.update (T.tklinesIpHash index) index2
          (tkl :: T.tklinesIpHash index index2)) }
  | none =>
    let index := tklHash (tklTypetochar tkl.type)
    { T with
      tklines := Function.update T.tklines index (tkl :: T.tklines index) }

def tablesOf (N : InetPton) (entries : List (Entry G)) : Tables G :=
  entries.foldl (tklAdd N) ⟨fun _ _ => [], fun _ => []⟩

/-! ## What the tables hold -/

abbrev Place := (Fin 4 × ℕ) ⊕ ℕ

def Tables.chain (T : Tables G) : Place → List (Entry G)
  | .inl (index, index2) => T.tklinesIpHash index index2
  | .inr index => T.tklines index

def Entry.place (N : InetPton) (tkl : Entry G) : Place :=
  match tkl.slot N with
  | some slot => .inl slot
  | none => .inr (tklHash (tklTypetochar tkl.type))

theorem chain_tklAdd (N : InetPton) (T : Tables G) (tkl : Entry G) (p : Place) :
    (tklAdd N T tkl).chain p =
      if p = tkl.place N then tkl :: T.chain p else T.chain p := by
  unfold tklAdd Entry.place
  cases tkl.slot N with
  | some slot =>
    obtain ⟨i, j⟩ := slot
    cases p with
    | inl p =>
      obtain ⟨i', j'⟩ := p
      simp only [Tables.chain, Sum.inl.injEq, Prod.mk.injEq]
      by_cases hi : i' = i
      · subst hi
        by_cases hj : j' = j
        · subst hj
          simp only [Function.update_self, and_self, if_true]
        · simp only [Function.update_self, Function.update_of_ne hj, hj,
            and_false, if_false]
      · simp only [Function.update_of_ne hi, hi, false_and, if_false]
    | inr k => simp only [Tables.chain, reduceCtorEq, if_false]
  | none =>
    cases p with
    | inl p =>
      simp only [Tables.chain, reduceCtorEq, if_false]
    | inr k =>
      simp only [Tables.chain, Sum.inr.injEq]
      by_cases hk : k = tklHash (tklTypetochar tkl.type)
      · rw [if_pos hk, hk, Function.update_self]
      · rw [if_neg hk, Function.update_of_ne hk]

theorem mem_chain_foldl {N : InetPton} {entries : List (Entry G)}
    {T : Tables G} {tkl : Entry G} {p : Place} :
    tkl ∈ (entries.foldl (tklAdd N) T).chain p ↔
      tkl ∈ T.chain p ∨ tkl ∈ entries ∧ tkl.place N = p := by
  induction entries generalizing T with
  | nil => simp
  | cons e entries ih =>
    have hadd : tkl ∈ (tklAdd N T e).chain p ↔
        tkl = e ∧ tkl.place N = p ∨ tkl ∈ T.chain p := by
      rw [chain_tklAdd]
      by_cases hp : p = e.place N
      · rw [if_pos hp, List.mem_cons]
        refine or_congr_left ⟨fun heq => ⟨heq, heq ▸ hp.symm⟩, And.left⟩
      · rw [if_neg hp]
        refine (or_iff_right ?_).symm
        rintro ⟨rfl, heq⟩
        exact hp heq.symm
    rw [List.foldl_cons, ih, hadd, List.mem_cons, or_and_right]
    tauto

theorem mem_chain_tablesOf {N : InetPton} {entries : List (Entry G)}
    {tkl : Entry G} {p : Place} :
    tkl ∈ (tablesOf N entries).chain p ↔ tkl ∈ entries ∧ tkl.place N = p := by
  rw [tablesOf, mem_chain_foldl]
  cases p with
  | inl p | inr k => exact or_iff_right List.not_mem_nil

end UnrealIrcd.Tkl
