import UnrealIrcd.Support.Decimal

/-!
# The names and the keys of a `JOIN`

`do_join` copies the names that a local user may join to `jbuf`, and then walks
through `jbuf` and the keys in step.  The key of a name that is left out goes to
the next channel.
-/

namespace UnrealIrcd.Channels

open Support List

structure JoinConfig where
  validChannelname : List Char → Bool
  maxtargets : ℕ

/-- The name in `JOIN 0`. -/
def isZero (name : List Char) : Bool :=
  name.head? == some '0' && atoi name == 0

/-- The first loop of `do_join`, from the name with the number `i`.  `jbuf` is
the list of the names in it; it is as large as the request. -/
def joinNames (J : JoinConfig) : ℕ → List (List Char) → List (List Char) →
    List (List Char)
  | _, jbuf, [] => jbuf
  | i, jbuf, name :: names =>
    if i + 1 > J.maxtargets then jbuf
    else if isZero name then
      joinNames J (i + 1) (if i ≠ 0 then jbuf else [['0']]) names
    else if !J.validChannelname name then joinNames J (i + 1) jbuf names
    else if name.head? ≠ some '#' then joinNames J (i + 1) jbuf names
    else joinNames J (i + 1) (jbuf ++ [name]) names

/-- The second loop: the channels that are tried, each with its key. -/
def joinChannels : List (List Char) → List (List Char) →
    List (List Char × Option (List Char))
  | [], _ => []
  | name :: jbuf, keys =>
    if isZero name then joinChannels jbuf keys.tail
    else (name, keys.head?) :: joinChannels jbuf keys.tail

/-- `do_join` for the names and the keys that `strtoken` finds. -/
def doJoin (J : JoinConfig) (names keys : List (List Char)) :
    List (List Char × Option (List Char)) :=
  joinChannels (joinNames J 0 [] names) keys

/-! ## Positions -/

/-- A name at its position is not left out. -/
def JoinConfig.keeps (J : JoinConfig) (p : List Char × ℕ) : Bool :=
  if isZero p.1 then p.2 == 0
  else J.validChannelname p.1 && p.1.head? == some '#'

/-- The names that are kept, each with its position. -/
def JoinConfig.kept (J : JoinConfig) (names : List (List Char)) :
    List (List Char × ℕ) :=
  (names.take J.maxtargets).zipIdx.filter J.keeps

/-- What is written to `jbuf`. -/
def shown (p : List Char × ℕ) : List Char := if isZero p.1 then ['0'] else p.1

theorem isZero_shown (p : List Char × ℕ) : isZero (shown p) = isZero p.1 := by
  unfold shown
  split
  case isTrue hzero =>
    rw [hzero]
    decide
  case isFalse => rfl

variable {J : JoinConfig}

theorem joinNames_eq {i : ℕ} {jbuf : List (List Char)} (hi : i = 0 → jbuf = [])
    (names : List (List Char)) :
    joinNames J i jbuf names = jbuf ++
      (((names.take (J.maxtargets - i)).zipIdx i).filter J.keeps).map shown := by
  induction names generalizing i jbuf with
  | nil => simp [joinNames]
  | cons name names ih =>
    rw [joinNames]
    by_cases hmax : i + 1 > J.maxtargets
    · rw [if_pos hmax, Nat.sub_eq_zero_of_le (Nat.le_of_lt_succ hmax)]
      exact (append_nil jbuf).symm
    · obtain ⟨n, hn⟩ : ∃ n, J.maxtargets - i = n + 1 :=
        ⟨J.maxtargets - (i + 1), by omega⟩
      have hrest : J.maxtargets - (i + 1) = n := by omega
      have hnext := fun jbuf => @ih (i + 1) jbuf (absurd · (Nat.succ_ne_zero i))
      simp only [if_neg hmax, hn, hnext, hrest, take_succ_cons,
        zipIdx_cons, filter_cons, JoinConfig.keeps]
      split_ifs <;> simp_all [shown]

theorem joinChannels_eq (jbuf keys : List (List Char)) (i : ℕ) :
    joinChannels jbuf (keys.drop i) =
      ((jbuf.zipIdx i).filter fun p => !isZero p.1).map
        fun p => (p.1, keys[p.2]?) := by
  induction jbuf generalizing i with
  | nil => rfl
  | cons name jbuf ih =>
    rw [joinChannels, tail_drop, ih, head?_drop, zipIdx_cons, filter_cons]
    split_ifs <;> simp_all

/-- The channels are tried with the keys at their positions in `jbuf`. -/
theorem doJoin_eq (names keys : List (List Char)) :
    doJoin J names keys =
      ((J.kept names).zipIdx.filter fun q => !isZero q.1.1).map
        fun q => (shown q.1, keys[q.2]?) := by
  have hjbuf := @joinNames_eq J 0 [] (fun _ => rfl) names
  rw [nil_append, Nat.sub_zero] at hjbuf
  have hchannels := joinChannels_eq ((J.kept names).map shown) keys 0
  rw [drop_zero, zipIdx_map, filter_map, map_map] at hchannels
  simp only [Function.comp_def, Prod.map_fst, isZero_shown] at hchannels
  rw [doJoin, hjbuf]
  exact hchannels

/-- Each channel is tried with the key at its position, whatever the keys are, if
and only if no name before a channel that is tried has been left out. -/
theorem doJoin_eq_iff (J : JoinConfig) (names : List (List Char)) :
    (∀ keys : List (List Char), [] ∉ keys → doJoin J names keys =
        ((J.kept names).filter fun p => !isZero p.1).map
          fun p => (p.1, keys[p.2]?)) ↔
      ∀ q ∈ (J.kept names).zipIdx, isZero q.1.1 = false → q.2 = q.1.2 := by
  have hwanted : ∀ keys : List (List Char),
      (((J.kept names).filter fun p => !isZero p.1).map
          fun p => (p.1, keys[p.2]?)) =
        ((J.kept names).zipIdx.filter fun q => !isZero q.1.1).map
          fun q => (q.1.1, keys[q.1.2]?) := by
    intro keys
    conv =>
      lhs
      rw [← zipIdx_map_fst 0 (J.kept names), filter_map, map_map]
    rfl
  simp only [doJoin_eq, hwanted, map_inj_left, mem_filter,
    Bool.not_eq_true', Prod.mk.injEq, and_imp]
  constructor
  · intro h q hq hzero
    by_contra hne
    have hkeys : [] ∉ List.replicate (max q.2 q.1.2) ['k'] := by simp
    have hkey := (h _ hkeys q hq hzero).2
    rw [getElem?_replicate, getElem?_replicate] at hkey
    split_ifs at hkey <;> omega
  · intro h keys _ q hq hzero
    rw [h q hq hzero, shown, hzero]
    exact ⟨rfl, rfl⟩

/-- The key of a name that is not valid goes to the next channel. -/
theorem doJoin_invalidName :
    doJoin ⟨fun name => !name.contains ':', 20⟩ ["#a:b".toList, "#c".toList]
      ["k".toList, "l".toList] = [("#c".toList, some "k".toList)] := by
  decide

end UnrealIrcd.Channels
