import UnrealIrcd.Tkl.MatchUser

/-!
# Looking up server bans

`find_tkline_match` and `find_tkl_exception` of `tkl.c`: of the IP hash table
only the lists of the client's address are searched, and of the other entries
every one.

A plain entry that matches the client is always found.  An entry that is none,
such as an extended server ban with an IP address for its value, can be in a
list that is not searched; `findTklineMatch_iff` says that this is all that can
go wrong.
-/

namespace UnrealIrcd.Tkl

open Support List

variable {G : Type}

/-! ## Exceptions -/

def tklBanexceptionMatchesType (bantypes : List Char) (bantype : ℕ) : Bool :=
  bantypes.any fun c =>
    let extype := tklBanexceptionChartotype c
    if extype &&& tklSpamf ≠ 0 ∨ extype &&& tklShun ≠ 0 ∨
        extype &&& tklName ≠ 0 then
      bantype &&& (extype &&& (0xFFFFFFFF ^^^ tklGlobal)) != 0
    else bantype == extype

def findTklExceptionMatcher (N : InetPton) (client : Client G) (bantype : ℕ) :
    Entry G → Bool
  | .banexception _ e =>
    if tklBanexceptionMatchesType e.bantypes bantype then
      match e.group with
      | some g => client.allowed g
      | none =>
        matchUser N (maskUhost e.usermask e.hostmask) client &&
          (!e.soft || client.loggedIn)
    else false
  | _ => false

/-- The list of the client's address in one of the hash tables. -/
def Tables.ofAddress (T : Tables G) (N : InetPton) (client : Client G)
    (index : Fin 4) : List (Entry G) :=
  match tklIpHash N client.getIP with
  | some index2 => T.tklinesIpHash index index2
  | none => []

/-- `find_tkl_exception`.  The type `e` has the last of the hash tables. -/
def findTklException (N : InetPton) (T : Tables G) (bantype : ℕ)
    (client : Client G) : Bool :=
  client.isServerOrMe ||
    ((T.ofAddress N client (Fin.last 3)).any (findTklExceptionMatcher N client bantype) ||
      (T.tklines (tklHash 'e')).any
        (findTklExceptionMatcher N client bantype) ||
      client.exceptHook bantype)

/-! ## Bans -/

/-- `tkl_uhost` for a server ban. -/
def ServerBan.uhost (b : ServerBan G) : List Char :=
  match b.target with
  | .group _ => groupUhost
  | .mask usermask hostmask => maskUhost usermask hostmask

/-- `find_tkline_match_matcher`, with the types that are exempt. -/
def findTklineMatchMatcher (N : InetPton) (client : Client G) (skipSoft : Bool)
    (exempt : ℕ → Bool) : Entry G → Bool
  | .serverban type b =>
    if type = .shun then false
    else if skipSoft && b.soft then false
    else
      let applies := !b.soft || !client.loggedIn
      match b.target, applies with
      | .group g, true => client.allowed g && !exempt type.type
      | _, _ => matchUser N b.uhost client && (applies && !exempt type.type)
  | _ => false

/-- The ban that `find_tkline_match` finds. -/
def findTklineMatch (N : InetPton) (T : Tables G) (client : Client G)
    (skipSoft : Bool) : Option (Entry G) :=
  if client.isServerOrMe then none
  else
    let hashed := (List.finRange 4).flatMap (T.ofAddress N client)
    let listed := (List.range 26).flatMap T.tklines
    (hashed ++ listed).find?
      (findTklineMatchMatcher N client skipSoft
        fun bantype => findTklException N T bantype client)

/-- What the lookup is for: some ban matches that no exception exempts from. -/
def scanTklines (N : InetPton) (entries : List (Entry G)) (client : Client G)
    (skipSoft : Bool) : Bool :=
  !client.isServerOrMe &&
    entries.any (findTklineMatchMatcher N client skipSoft fun bantype =>
      entries.any (findTklExceptionMatcher N client bantype) ||
        client.exceptHook bantype)

/-! ## What is searched -/

/-- The list of the entry is searched for this client. -/
def Reachable (N : InetPton) (client : Client G) (tkl : Entry G) : Prop :=
  ∀ slot, tkl.slot N = some slot → tklIpHash N client.getIP = some slot.2

section Searched

variable {N : InetPton} {client : Client G} {entries : List (Entry G)}
  {skipSoft : Bool} {exempt : ℕ → Bool} {bantype : ℕ} {tkl : Entry G}

/-- Whether a ban matches does not depend on the exceptions. -/
theorem findTklineMatchMatcher_iff :
    findTklineMatchMatcher N client skipSoft exempt tkl = true ↔
      findTklineMatchMatcher N client skipSoft (fun _ => false) tkl = true ∧
        exempt tkl.type = false := by
  cases tkl with
  | serverban type b =>
    unfold findTklineMatchMatcher
    dsimp only [Entry.type]
    split
    · simp
    · split
      · simp
      · split
        · simp
        · simp only [Bool.and_eq_true, Bool.not_eq_true', Bool.not_false,
            Bool.and_true]
          tauto
  | banexception type e | other type =>
    exact iff_of_false Bool.false_ne_true fun h => Bool.false_ne_true h.1

theorem exists_banexception
    (h : findTklExceptionMatcher N client bantype tkl = true) :
    ∃ type e, tkl = .banexception type e := by
  cases tkl with
  | serverban type b | other type => cases h
  | banexception type e => exact ⟨type, e, rfl⟩

theorem exists_serverban
    (h : findTklineMatchMatcher N client skipSoft exempt tkl = true) :
    ∃ type b, tkl = .serverban type b := by
  cases tkl with
  | serverban type b => exact ⟨type, b, rfl⟩
  | banexception type e | other type => cases h

theorem mem_ofAddress {index : Fin 4} :
    tkl ∈ (tablesOf N entries).ofAddress N client index ↔
      tkl ∈ entries ∧ ∃ index2, tkl.slot N = some (index, index2) ∧
        tklIpHash N client.getIP = some index2 := by
  have hplace : ∀ slot, tkl.place N = .inl slot ↔ tkl.slot N = some slot := by
    intro slot
    unfold Entry.place
    cases tkl.slot N with
    | none | some slot' => simp
  unfold Tables.ofAddress
  split
  · next index2 hhash =>
      have hmem := @mem_chain_tablesOf G N entries tkl (.inl (index, index2))
      rw [hplace] at hmem
      refine hmem.trans (and_congr_right fun _ => ?_)
      simp only [hhash, Option.some.injEq, exists_eq_right']
  · next hnone => simp [hnone]

theorem mem_tklines {index : ℕ} :
    tkl ∈ (tablesOf N entries).tklines index ↔
      tkl ∈ entries ∧ tkl.slot N = none ∧
        tklHash (tklTypetochar tkl.type) = index := by
  refine (@mem_chain_tablesOf G N entries tkl (.inr index)).trans
    (and_congr_right fun _ => ?_)
  unfold Entry.place
  cases tkl.slot N with
  | none | some slot' => simp

theorem findTklException_iff :
    findTklException N (tablesOf N entries) bantype client = true ↔
      client.isServerOrMe = true ∨
        (∃ tkl ∈ entries, Reachable N client tkl ∧
          findTklExceptionMatcher N client bantype tkl = true) ∨
        client.exceptHook bantype = true := by
  have hfound : (∃ tkl, (tkl ∈ (tablesOf N entries).ofAddress N client
      (Fin.last 3) ∨ tkl ∈ (tablesOf N entries).tklines (tklHash 'e')) ∧
        findTklExceptionMatcher N client bantype tkl = true) ↔
      ∃ tkl ∈ entries, Reachable N client tkl ∧
        findTklExceptionMatcher N client bantype tkl = true := by
    refine exists_congr fun tkl => ?_
    rw [← and_assoc]
    refine and_congr_left fun hmatch => ?_
    obtain ⟨type, e, htkl⟩ := exists_banexception hmatch
    -- exceptions have one of the hash tables and one of the lists
    obtain ⟨hindex, hlist⟩ : tklIpHashType (tklTypetochar tkl.type) = some 3 ∧
        tklHash (tklTypetochar tkl.type) = tklHash 'e' := by
      rw [htkl, Entry.type]
      cases type with
      | network | localOnly => decide
    rw [mem_ofAddress, mem_tklines, ← and_or_left]
    refine and_congr_right fun _ => ?_
    unfold Reachable
    cases hslot : tkl.slot N with
    | none => simp [hlist]
    | some slot =>
      rw [Entry.slot, hindex] at hslot
      obtain ⟨index2, -, rfl⟩ := Option.map_eq_some_iff.mp hslot
      simp
  unfold findTklException
  simp only [Bool.or_eq_true, any_eq_true]
  rw [← hfound]
  refine or_congr_right (or_congr_left ?_)
  simp only [or_and_right, exists_or]

theorem mem_searched_bans {type : ServerBanType} {b : ServerBan G}
    (htkl : tkl = .serverban type b) :
    tkl ∈ (List.finRange 4).flatMap ((tablesOf N entries).ofAddress N client) ++
        (List.range 26).flatMap (tablesOf N entries).tklines ↔
      tkl ∈ entries ∧ Reachable N client tkl := by
  have hlist : tklHash (tklTypetochar tkl.type) < 26 := by
    rw [htkl, Entry.type]
    cases type with
    | gline | kline | gzline | zline | shun => decide
  simp only [mem_append, mem_flatMap, mem_finRange, true_and,
    mem_range, mem_ofAddress, mem_tklines]
  unfold Reachable
  cases hslot : tkl.slot N with
  | none => simp [hlist]
  | some slot =>
    obtain ⟨i, j⟩ := slot
    simp

/-- What the lookup finds: a ban in a list that is searched, from which no
exception in such a list exempts. -/
theorem findTklineMatch_isSome_iff :
    (findTklineMatch N (tablesOf N entries) client skipSoft).isSome = true ↔
      client.isServerOrMe = false ∧
        ∃ tkl ∈ entries, Reachable N client tkl ∧
          findTklineMatchMatcher N client skipSoft client.exceptHook tkl =
            true ∧
          ∀ e ∈ entries, Reachable N client e →
            findTklExceptionMatcher N client tkl.type e = false := by
  unfold findTklineMatch
  split
  · next hserver => simp [hserver]
  · next hclient =>
      rw [find?_isSome]
      simp only [Bool.eq_false_iff.mpr hclient, true_and]
      refine exists_congr fun tkl => ?_
      have hexempt : findTklException N (tablesOf N entries) tkl.type client =
          false ↔ client.exceptHook tkl.type = false ∧
            ∀ e ∈ entries, Reachable N client e →
              findTklExceptionMatcher N client tkl.type e = false := by
        rw [Bool.eq_false_iff, ne_eq, findTklException_iff]
        simp [hclient, and_comm]
      rw [findTklineMatchMatcher_iff, @findTklineMatchMatcher_iff G N client
        skipSoft client.exceptHook, hexempt, and_assoc,
        ← @and_assoc (tkl ∈ entries)]
      refine and_congr_left fun hmatch => ?_
      obtain ⟨type, b, htkl⟩ := exists_serverban hmatch.1
      exact mem_searched_bans htkl

theorem scanTklines_iff :
    scanTklines N entries client skipSoft = true ↔
      client.isServerOrMe = false ∧
        ∃ tkl ∈ entries, findTklineMatchMatcher N client skipSoft
            client.exceptHook tkl = true ∧
          ∀ e ∈ entries,
            findTklExceptionMatcher N client tkl.type e = false := by
  unfold scanTklines
  rw [Bool.and_eq_true, Bool.not_eq_true', any_eq_true]
  refine and_congr_right fun _ => exists_congr fun tkl =>
    and_congr_right fun _ => ?_
  rw [findTklineMatchMatcher_iff, @findTklineMatchMatcher_iff G N client
    skipSoft client.exceptHook, Bool.or_eq_false_iff, any_eq_false]
  simp only [Bool.not_eq_true]
  tauto

/-! ## Plain entries -/

/-- The entry has a plain mask, if it is hashed at all. -/
def Entry.Plain : Entry G → Prop
  | .serverban _ b =>
    match b.target with
    | .group _ => True
    | .mask usermask hostmask => PlainMask usermask hostmask
  | .banexception _ e =>
    e.group.isNone ∧ PlainMask e.usermask e.hostmask
  | .other _ => True

theorem hostmask_of_slot {slot : Fin 4 × ℕ} (h : tkl.slot N = some slot) :
    ∃ hostmask, tkl.hostmask = some hostmask ∧
      tklIpHash N hostmask = some slot.2 := by
  unfold Entry.slot at h
  split at h
  · cases h
  · obtain ⟨index2, hbind, rfl⟩ := Option.map_eq_some_iff.mp h
    exact Option.bind_eq_some_iff.mp hbind

theorem reachable_of_ban (hok : client.RealHostOk N) (hplain : tkl.Plain)
    (h : findTklineMatchMatcher N client skipSoft exempt tkl = true) :
    Reachable N client tkl := by
  obtain ⟨type, ⟨soft, target⟩, rfl⟩ := exists_serverban h
  intro slot hslot
  obtain ⟨hostmask, hhostmask, hhash⟩ := hostmask_of_slot hslot
  cases target with
  | group g => cases hhostmask
  | mask usermask hmask =>
    cases hhostmask
    dsimp only [findTklineMatchMatcher] at h
    split at h
    · cases h
    · split at h
      · cases h
      · have hmatch := (Bool.and_eq_true_iff.mp h).1
        exact tklIpHash_of_matchUser hok hplain hhash hmatch

theorem reachable_of_exception (hok : client.RealHostOk N) (hplain : tkl.Plain)
    (h : findTklExceptionMatcher N client bantype tkl = true) :
    Reachable N client tkl := by
  obtain ⟨type, ⟨soft, group, usermask, hmask, bantypes⟩, rfl⟩ :=
    exists_banexception h
  intro slot hslot
  obtain ⟨hostmask, hhostmask, hhash⟩ := hostmask_of_slot hslot
  cases hhostmask
  obtain ⟨hgroup, hmask⟩ := hplain
  cases group with
  | some g => cases hgroup
  | none =>
    dsimp only [findTklExceptionMatcher] at h
    split at h
    · have hmatch := (Bool.and_eq_true_iff.mp h).1
      exact tklIpHash_of_matchUser hok hmask hhash hmatch
    · cases h

/-- The entry makes a difference for the client: it is a ban that matches, or
an exception from such a ban. -/
def Matters (N : InetPton) (client : Client G) (entries : List (Entry G))
    (skipSoft : Bool) (tkl : Entry G) : Prop :=
  findTklineMatchMatcher N client skipSoft client.exceptHook tkl = true ∨
    ∃ b ∈ entries,
      findTklineMatchMatcher N client skipSoft client.exceptHook b = true ∧
        findTklExceptionMatcher N client b.type tkl = true

/-- If whatever makes a difference is in a list that is searched, the lookup
gives the answer of the scan. -/
theorem findTklineMatch_eq_scan {sub : List (Entry G)}
    (hsub : ∀ tkl ∈ sub, tkl ∈ entries)
    (hreach : client.isServerOrMe = false → ∀ tkl ∈ entries,
      Matters N client entries skipSoft tkl → Reachable N client tkl) :
    (findTklineMatch N (tablesOf N sub) client skipSoft).isSome =
      scanTklines N sub client skipSoft := by
  rw [Bool.eq_iff_iff, findTklineMatch_isSome_iff, scanTklines_iff]
  refine and_congr_right fun hclient => exists_congr fun b =>
    and_congr_right fun hb => ?_
  have hreach := hreach hclient
  constructor
  · rintro ⟨-, hban, hnone⟩
    refine ⟨hban, fun e he => ?_⟩
    by_contra hexception
    rw [Bool.not_eq_false] at hexception
    have hfound := hreach e (hsub e he) (.inr ⟨b, hsub b hb, hban, hexception⟩)
    rw [hnone e he hfound] at hexception
    cases hexception
  · rintro ⟨hban, hnone⟩
    exact ⟨hreach b (hsub b hb) (.inl hban), hban, fun e he _ => hnone e he⟩

theorem reachable_of_eq_scan_singleton (hclient : client.isServerOrMe = false)
    (hban : findTklineMatchMatcher N client skipSoft client.exceptHook tkl =
      true)
    (h : (findTklineMatch N (tablesOf N [tkl]) client skipSoft).isSome =
      scanTklines N [tkl] client skipSoft) :
    Reachable N client tkl := by
  have hscan : scanTklines N [tkl] client skipSoft = true := by
    refine scanTklines_iff.mpr ⟨hclient, tkl, mem_singleton_self tkl, hban,
      fun e he => ?_⟩
    rw [mem_singleton.mp he]
    obtain ⟨type, b, rfl⟩ := exists_serverban hban
    rfl
  rw [hscan, findTklineMatch_isSome_iff] at h
  obtain ⟨-, tkl', htkl', hreach, -⟩ := h
  rw [mem_singleton.mp htkl'] at hreach
  exact hreach

theorem reachable_of_eq_scan_pair {sub : List (Entry G)} {b : Entry G}
    (hclient : client.isServerOrMe = false)
    (hsub : ∀ x, x ∈ sub ↔ x = b ∨ x = tkl)
    (hban : findTklineMatchMatcher N client skipSoft client.exceptHook b = true)
    (hb : Reachable N client b)
    (hexception : findTklExceptionMatcher N client b.type tkl = true)
    (h : (findTklineMatch N (tablesOf N sub) client skipSoft).isSome =
      scanTklines N sub client skipSoft) :
    Reachable N client tkl := by
  by_contra hlost
  have hscan : scanTklines N sub client skipSoft = false := by
    rw [Bool.eq_false_iff, ne_eq, scanTklines_iff]
    rintro ⟨-, x, hx, hmatch, hnone⟩
    obtain ⟨type, e, htkl⟩ := exists_banexception hexception
    rcases (hsub x).mp hx with rfl | rfl
    · rw [hnone tkl ((hsub tkl).mpr (.inr rfl))] at hexception
      cases hexception
    · rw [htkl] at hmatch
      cases hmatch
  rw [hscan, ← Bool.not_eq_true, findTklineMatch_isSome_iff] at h
  refine h ⟨hclient, b, (hsub b).mpr (.inl rfl), hb, hban, fun e he hreach => ?_⟩
  rcases (hsub e).mp he with rfl | rfl
  · obtain ⟨type, ban, rfl⟩ := exists_serverban hban
    rfl
  · exact absurd hreach hlost

end Searched

open Classical in
theorem exists_pair_sublist {α : Type} {l : List α} {x y : α} (hx : x ∈ l)
    (hy : y ∈ l) :
    ∃ sub : List α, sub.Sublist l ∧ ∀ z, z ∈ sub ↔ z = x ∨ z = y := by
  refine ⟨l.filter fun z => z = x ∨ z = y, List.filter_sublist, fun z => ?_⟩
  rw [List.mem_filter, decide_eq_true_eq, and_iff_right_iff_imp]
  rintro (rfl | rfl)
  · exact hx
  · exact hy

/-- The lookup through the hash tables gives the answer of a scan of the whole
list of entries, whichever of them are stored, if and only if every entry that
makes a difference for the client and is not plain is in a list that the lookup
searches. -/
theorem findTklineMatch_iff {G : Type} (N : InetPton) (client : Client G)
    (hok : client.RealHostOk N) (entries : List (Entry G)) (skipSoft : Bool) :
    (∀ sub : List (Entry G), sub.Sublist entries →
      (findTklineMatch N (tablesOf N sub) client skipSoft).isSome =
        scanTklines N sub client skipSoft) ↔
      (client.isServerOrMe = false → ∀ tkl ∈ entries,
        Matters N client entries skipSoft tkl → ¬ tkl.Plain →
          Reachable N client tkl) := by
  constructor
  · intro h hclient tkl htkl hmatters _
    have hbans : ∀ b ∈ entries,
        findTklineMatchMatcher N client skipSoft client.exceptHook b = true →
          Reachable N client b := fun b hb hban =>
      reachable_of_eq_scan_singleton hclient hban
        (h [b] (singleton_sublist.mpr hb))
    rcases hmatters with hban | ⟨b, hb, hban, hexception⟩
    · exact hbans tkl htkl hban
    · obtain ⟨sub, hsub, hmem⟩ := exists_pair_sublist hb htkl
      exact reachable_of_eq_scan_pair hclient hmem hban (hbans b hb hban)
        hexception (h sub hsub)
  · intro h sub hsub
    refine findTklineMatch_eq_scan (fun tkl htkl => hsub.subset htkl) ?_
    intro hclient tkl htkl hmatters
    by_cases hplain : tkl.Plain
    · rcases hmatters with hban | ⟨b, -, -, hexception⟩
      · exact reachable_of_ban hok hplain hban
      · exact reachable_of_exception hok hplain hexception
    · exact h hclient tkl htkl hmatters hplain

/-! ## An extended server ban that is lost -/

def noInet6 (_ : List Char) : Option (List UInt8) := none

/-- An `inet_pton` that knows the four numbers of an IPv4 address only. -/
def dottedQuad : InetPton where
  inet s :=
    if s.all fun c => c.isDigit || c == '.' then
      let numbers := s.splitOn '.'
      if numbers.length = 4 ∧ numbers.all fun n => n ≠ [] ∧ digitsValue n < 256
      then some (numbers.map fun n => (digitsValue n).toUInt8)
      else none
    else none
  inet6 := noInet6
  inet_chars := by
    intro s b h c hc
    split at h
    · next hall =>
        have hc' := List.all_eq_true.mp hall c hc
        rw [Bool.or_eq_true, beq_iff_eq] at hc'
        exact hc'
    · cases h
  inet6_colon h := nomatch h
  inet6_chars h := nomatch h

/-- A user on 5.6.7.8 with the real name `1.2.3.4`. -/
def oddlyNamed : Client Unit where
  isServerOrMe := false
  name := "nick".toList
  ident := []
  user := some ⟨"user".toList, "5.6.7.8".toList⟩
  sockhost := some "5.6.7.8".toList
  ip := some "5.6.7.8".toList
  loggedIn := false
  extendedBan mask := mask == "~realname:1.2.3.4".toList
  allowed _ := false
  exceptHook _ := false

/-- The entry of `GLINE usermask hostmask`. -/
def glineOn (usermask hostmask : String) : Entry Unit :=
  .serverban .gline ⟨false, .mask usermask.toList hostmask.toList⟩

theorem oddlyNamed_realHostOk : oddlyNamed.RealHostOk dottedQuad := by
  rintro _ ⟨⟩
  exact .inl rfl

/-- A ban on the user's own address is found. -/
theorem findTklineMatch_own_address :
    oddlyNamed.RealHostOk dottedQuad ∧
      ∀ sub : List (Entry Unit), sub.Sublist [glineOn "*" "5.6.7.8"] →
        (findTklineMatch dottedQuad (tablesOf dottedQuad sub) oddlyNamed
          false).isSome = scanTklines dottedQuad sub oddlyNamed false := by
  refine ⟨oddlyNamed_realHostOk, (findTklineMatch_iff dottedQuad oddlyNamed
    oddlyNamed_realHostOk [glineOn "*" "5.6.7.8"] false).mpr ?_⟩
  rintro - tkl htkl - -
  rw [mem_singleton.mp htkl]
  intro slot hslot
  have hhash : (glineOn "*" "5.6.7.8").slot dottedQuad =
      (tklIpHash dottedQuad oddlyNamed.getIP).map fun index2 =>
        ((1 : Fin 4), index2) := rfl
  rw [hhash, Option.map_eq_some_iff] at hslot
  obtain ⟨index2, hindex2, rfl⟩ := hslot
  exact hindex2

/-- The value of `~realname:1.2.3.4` is taken for an IP address, and the ban is
not found. -/
theorem not_findTklineMatch_realname :
    oddlyNamed.RealHostOk dottedQuad ∧
      (findTklineMatch dottedQuad
        (tablesOf dottedQuad [glineOn "~realname:" "1.2.3.4"]) oddlyNamed
        false).isSome = false ∧
      scanTklines dottedQuad [glineOn "~realname:" "1.2.3.4"] oddlyNamed false =
        true := by
  refine ⟨oddlyNamed_realHostOk, ?_, ?_⟩
  · decide +kernel
  · decide +kernel

end UnrealIrcd.Tkl
