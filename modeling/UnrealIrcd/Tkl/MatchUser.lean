import UnrealIrcd.Matching.MatchSimple
import UnrealIrcd.Support.Decimal
import UnrealIrcd.Tkl.Entries

/-!
# Matching a client against a mask

`match_user` of `tkl.c` with the options of server bans: an extended server ban
is left to its module, any other mask is compared with nick, user name, IP
address and real host.

A mask with an IP address for its host only matches a client whose address has
the same hash (`tklIpHash_of_hostMatches`).
-/

namespace UnrealIrcd.Tkl

open Support Matching

/-! ## Clients -/

structure User where
  username : List Char
  realhost : List Char

/-- What the lookups read of a client.  `sockhost` is that of a local client,
`extendedBan` the answer of the module of an extended server ban, `allowed` is
`user_allowed_by_security_group`, and `exceptHook` the answer of
`HOOKTYPE_TKL_EXCEPT`. -/
structure Client (G : Type) where
  isServerOrMe : Bool
  name : List Char
  ident : List Char
  user : Option User
  sockhost : Option (List Char)
  ip : Option (List Char)
  loggedIn : Bool
  extendedBan : List Char → Bool
  allowed : G → Bool
  exceptHook : ℕ → Bool

variable {G : Type}

def Client.getIP (client : Client G) : List Char :=
  client.ip.getD "255.255.255.255".toList

def Client.realHost (client : Client G) : Option (List Char) :=
  match client.user with
  | some user => some user.realhost
  | none => client.sockhost

/-- The user name, or the ident as long as there is none. -/
def Client.username (client : Client G) : List Char :=
  match client.user with
  | some user => if user.username = [] then client.ident else user.username
  | none => client.ident

/-! ## Masks -/

def isExtendedBan : List Char → Bool
  | '~' :: str => str.any fun c => !c.isAlphanum && c == ':'
  | _ => false

def isExtendedServerBan : List Char → Bool
  | '%' :: str => isExtendedBan str
  | str => isExtendedBan str

/-- The first `bits` bits are equal. -/
def compWithMask (addr dest : List UInt8) (bits : ℕ) : Bool :=
  addr.take (bits / 8) == dest.take (bits / 8) &&
    (bits % 8 == 0 ||
      addr.getD (bits / 8) 0 &&& (0xFF <<< (8 - bits % 8).toUInt8) ==
        dest.getD (bits / 8) 0 &&& (0xFF <<< (8 - bits % 8).toUInt8))

/-- The check of the host on the IP address: an answer, or none if the real host
is to be checked. -/
def ipMatches (N : InetPton) (client : Client G) (hmask : List Char)
    (cidr : Option ℕ) : Option Bool :=
  if '?' ∈ hmask ∨ '*' ∈ hmask then
    match client.ip with
    | some ip => if matchSimple hmask ip then some true else none
    | none => none
  else if ':' ∈ hmask then
    match client.ip with
    | some ip =>
      if ':' ∈ ip then
        match N.inet6 ip, N.inet6 hmask with
        | some clientip, some maskip =>
          match cidr with
          | none => some (compWithMask clientip maskip 128)
          | some cidr =>
            if 128 < cidr then some false
            else some (compWithMask clientip maskip cidr)
        | _, _ => some false
      else some false
    | none => some false
  else
    match client.ip.bind N.inet, N.inet hmask with
    | some clientip, some maskip =>
      match cidr with
      | none => if compWithMask clientip maskip 32 then some true else none
      | some cidr =>
        if 32 < cidr then some false
        else some (compWithMask clientip maskip cidr)
    | _, _ => none

/-- The check of the host: a CIDR length is cut off the mask first. -/
def hostMatches (N : InetPton) (client : Client G) (hmask : List Char) : Bool :=
  let cidr := (hmask.dropWhile (· != '/')).tail
  let host := hmask.takeWhile (· != '/')
  if '/' ∈ hmask ∧ atoi cidr ≤ 0 then false
  else
    let answer := ipMatches N client host
      (if '/' ∈ hmask then some (atoi cidr).toNat else none)
    match answer with
    | some answer => answer
    | none =>
      match client.realHost with
      | some hostname => matchSimple host hostname
      | none => false

/-- The part of the mask behind the nick: `user@host` or just a host.  `nick`
says whether there was a nick. -/
def userHostMatches (N : InetPton) (client : Client G) (nick : Bool)
    (mask : List Char) : Bool :=
  if '@' ∈ mask then
    let umask := mask.takeWhile (· != '@')
    let hmask := (mask.dropWhile (· != '@')).tail
    if hmask = [] ∨ (nick = false ∧ umask = []) then false
    else if matchSimple umask client.username then hostMatches N client hmask
    else false
  else if nick then false
  else hostMatches N client mask

/-- `match_user` with `MATCH_CHECK_REAL`. -/
def matchUser (N : InetPton) (rmask : List Char) (client : Client G) : Bool :=
  let mask := snprintf (30 + 10 + 63 + 8) rmask
  if isExtendedServerBan mask ∧ client.user.isSome then client.extendedBan rmask
  else if '!' ∈ mask then
    let nmask := mask.takeWhile (· != '!')
    if nmask = [] then false
    else if matchSimple nmask client.name then
      userHostMatches N client true (mask.dropWhile (· != '!')).tail
    else false
  else userHostMatches N client false mask

def uhostSize : ℕ := 30 + 63 + 1

/-- `tkl_uhost` for masks. -/
def maskUhost (usermask hostmask : List Char) : List Char :=
  snprintf uhostSize
    (if isExtendedServerBan usermask then usermask ++ hostmask
      else usermask ++ '@' :: hostmask)

/-- `tkl_uhost` for a security group. -/
def groupUhost : List Char := "<match-item>".toList

/-! ## Masks with an IP address for the host -/

section IpAddress

variable {N : InetPton}

/-- The real host is the IP address, or no IP address at all. -/
def Client.RealHostOk (N : InetPton) (client : Client G) : Prop :=
  ∀ hostname, client.realHost = some hostname →
    client.ip = some hostname ∨
      N.inet hostname = none ∧ N.inet6 hostname = none

theorem not_wild_of_tklIpHash {ip : List Char} {index : ℕ}
    (h : tklIpHash N ip = some index) : '?' ∉ ip ∧ '*' ∉ ip ∧ '/' ∉ ip := by
  unfold tklIpHash at h
  split at h
  · cases h
  · next hany =>
      simp only [List.any_eq_true, Bool.or_eq_true, beq_iff_eq, not_exists,
        not_and, not_or] at hany
      exact ⟨fun hmem => (hany _ hmem).1.1 rfl,
        fun hmem => (hany _ hmem).1.2 rfl, fun hmem => (hany _ hmem).2 rfl⟩

theorem not_wild_of_chars {ip : List Char}
    (h : ∀ c ∈ ip, isXDigit c = true ∨ c = ':' ∨ c = '.') :
    (ip.any fun c => c == '?' || c == '*' || c == '/') = false := by
  rw [List.any_eq_false]
  intro c hc hwild
  simp only [Bool.or_eq_true, beq_iff_eq] at hwild
  have hnot : ∀ d, d = '?' ∨ d = '*' ∨ d = '/' →
      ¬ (isXDigit d = true ∨ d = ':' ∨ d = '.') := by
    rintro d (rfl | rfl | rfl)
    · decide
    · decide
    · decide
  exact hnot c (or_assoc.mp hwild) (h c hc)

variable {s : List Char} {b : List UInt8}

theorem xdigit_of_inet (h : N.inet s = some b) :
    ∀ c ∈ s, isXDigit c = true ∨ c = ':' ∨ c = '.' := by
  intro c hc
  rcases N.inet_chars h c hc with hdigit | hdot
  · left
    rw [isXDigit, hdigit, Bool.true_or, Bool.true_or]
  · exact .inr (.inr hdot)

theorem colon_not_mem_of_inet (h : N.inet s = some b) : ':' ∉ s := by
  intro hmem
  rcases N.inet_chars h _ hmem with hdigit | hdot
  · exact absurd hdigit (by decide)
  · exact absurd hdot (by decide)

theorem tklIpHash_of_inet (h : N.inet s = some b) :
    tklIpHash N s = some (fourBytes b 0 % tklIpHashLen2) := by
  unfold tklIpHash
  rw [not_wild_of_chars (xdigit_of_inet h), h]
  rfl

theorem tklIpHash_of_inet6 (h : N.inet6 s = some b) :
    tklIpHash N s =
      some ((fourBytes b 0 ^^^ fourBytes b 4) % tklIpHashLen2) := by
  have hnone : N.inet s = none := by
    cases hinet : N.inet s with
    | none => rfl
    | some b' => exact absurd (N.inet6_colon h) (colon_not_mem_of_inet hinet)
  unfold tklIpHash
  rw [not_wild_of_chars (N.inet6_chars h), hnone, h]
  rfl

theorem tklIpHash_cases {index : ℕ} (h : tklIpHash N s = some index) :
    (∃ b, N.inet s = some b) ∨ ∃ b, N.inet6 s = some b := by
  unfold tklIpHash at h
  split at h
  · cases h
  · split at h
    · next b hb => exact .inl ⟨b, hb⟩
    · split at h
      · next b hb => exact .inr ⟨b, hb⟩
      · cases h

variable {b' : List UInt8} {n : ℕ}

theorem getD_eq_of_take_eq (h : b.take n = b'.take n) {j : ℕ} (hj : j < n) :
    b.getD j 0 = b'.getD j 0 := by
  have hbyte := congrArg (fun l => l.getD j 0) h
  simpa [List.getD_eq_getElem?_getD, List.getElem?_take, hj] using hbyte

theorem fourBytes_eq {i : ℕ} (h : b.take n = b'.take n) (hi : i + 4 ≤ n) :
    fourBytes b i = fourBytes b' i := by
  unfold fourBytes
  rw [getD_eq_of_take_eq h (by omega : i < n),
    getD_eq_of_take_eq h (by omega : i + 1 < n),
    getD_eq_of_take_eq h (by omega : i + 2 < n),
    getD_eq_of_take_eq h (by omega : i + 3 < n)]

theorem take_eq_of_compWithMask (h : compWithMask b b' (8 * n) = true) :
    b.take n = b'.take n := by
  rw [compWithMask, Bool.and_eq_true, beq_iff_eq,
    Nat.mul_div_cancel_left n (by decide)] at h
  exact h.1

variable {client : Client G} {hmask : List Char} {index : ℕ}

theorem tklIpHash_of_ipv6Matches (hcolon : ':' ∈ hmask)
    (hhash : tklIpHash N hmask = some index) :
    ∃ answer, ipMatches N client hmask none = some answer ∧
      (answer = true → tklIpHash N client.getIP = some index) := by
  obtain ⟨hquestion, hstar, -⟩ := not_wild_of_tklIpHash hhash
  rw [ipMatches, if_neg (not_or.mpr ⟨hquestion, hstar⟩), if_pos hcolon]
  split
  · next ip hip =>
      split
      · split
        · next clientip maskip hclient hmaskip =>
            refine ⟨_, rfl, fun hcomp => ?_⟩
            have hbytes := @take_eq_of_compWithMask clientip maskip 16 hcomp
            rw [tklIpHash_of_inet6 hmaskip] at hhash
            rw [Client.getIP, hip, Option.getD_some, tklIpHash_of_inet6 hclient,
              fourBytes_eq hbytes (by decide), fourBytes_eq hbytes (by decide)]
            exact hhash
        · exact ⟨false, rfl, (absurd · Bool.false_ne_true)⟩
      · exact ⟨false, rfl, (absurd · Bool.false_ne_true)⟩
  · exact ⟨false, rfl, (absurd · Bool.false_ne_true)⟩

theorem tklIpHash_of_ipv4Matches (hcolon : ':' ∉ hmask)
    (hhash : tklIpHash N hmask = some index) :
    ipMatches N client hmask none = none ∨
      tklIpHash N client.getIP = some index := by
  obtain ⟨hquestion, hstar, -⟩ := not_wild_of_tklIpHash hhash
  rw [ipMatches, if_neg (not_or.mpr ⟨hquestion, hstar⟩), if_neg hcolon]
  split
  · next clientip maskip hclient hmaskip =>
      dsimp only
      split
      · next hcomp =>
          right
          have hbytes := @take_eq_of_compWithMask clientip maskip 4 hcomp
          obtain ⟨ip, hip, hinet⟩ := Option.bind_eq_some_iff.mp hclient
          rw [tklIpHash_of_inet hmaskip] at hhash
          rw [Client.getIP, hip, Option.getD_some, tklIpHash_of_inet hinet,
            fourBytes_eq hbytes (by decide)]
          exact hhash
      · exact .inl rfl
  · exact .inl rfl

/-- A client that matches a literal address has an address of the same hash. -/
theorem tklIpHash_of_hostMatches (hok : client.RealHostOk N)
    (hhash : tklIpHash N hmask = some index)
    (h : hostMatches N client hmask = true) :
    tklIpHash N client.getIP = some index := by
  obtain ⟨-, -, hslash⟩ := not_wild_of_tklIpHash hhash
  have hhost : hmask.takeWhile (· != '/') = hmask :=
    List.takeWhile_eq_self_iff.mpr (bne_of_not_mem hslash)
  rw [hostMatches] at h
  simp only [hslash, false_and, if_false, hhost] at h
  by_cases hcolon : ':' ∈ hmask
  · obtain ⟨answer, hanswer, hsame⟩ :=
      @tklIpHash_of_ipv6Matches G N client hmask index hcolon hhash
    rw [hanswer] at h
    exact hsame h
  · rcases @tklIpHash_of_ipv4Matches G N client hmask index hcolon hhash with
      hnone | hsame
    · rw [hnone] at h
      dsimp only at h
      have hinet : ∃ b, N.inet hmask = some b :=
        (tklIpHash_cases hhash).resolve_right
          fun ⟨b, hb⟩ => hcolon (N.inet6_colon hb)
      obtain ⟨b, hinet⟩ := hinet
      split at h
      · next hostname hhostname =>
          have heq := eq_of_matchSimple (N.inet_chars hinet) h
          rcases hok hostname hhostname with hip | ⟨hnot, -⟩
          · rw [Client.getIP, hip, Option.getD_some, ← heq]
            exact hhash
          · rw [← heq, hinet] at hnot
            cases hnot
      · cases h
    · exact hsame

/-! ## Plain masks -/

/-- A mask that is no extended server ban, is not cut, and has its host behind
the only `@`. -/
structure PlainMask (usermask hostmask : List Char) : Prop where
  at_not_mem : '@' ∉ usermask
  fits : (usermask ++ '@' :: hostmask).length < uhostSize
  not_extended : isExtendedServerBan (usermask ++ '@' :: hostmask) = false

theorem isExtendedBan_append {str : List Char} (h : isExtendedBan str = true)
    (more : List Char) : isExtendedBan (str ++ more) = true := by
  unfold isExtendedBan at h
  split at h
  · next str =>
      rw [List.cons_append]
      simp only [isExtendedBan, List.any_append, h, Bool.true_or]
  · cases h

theorem isExtendedServerBan_append {str : List Char}
    (h : isExtendedServerBan str = true) (more : List Char) :
    isExtendedServerBan (str ++ more) = true := by
  unfold isExtendedServerBan at h
  split at h
  · next str => exact isExtendedBan_append h more
  · next hpercent =>
      have happend := isExtendedBan_append h more
      unfold isExtendedServerBan
      split
      · next str' heq =>
          rw [heq] at happend
          cases happend
      · exact happend

theorem PlainMask.maskUhost {usermask hostmask : List Char}
    (h : PlainMask usermask hostmask) :
    maskUhost usermask hostmask = usermask ++ '@' :: hostmask := by
  have husermask : isExtendedServerBan usermask = false := by
    cases hextended : isExtendedServerBan usermask with
    | false => rfl
    | true =>
      have hwhole := isExtendedServerBan_append hextended ('@' :: hostmask)
      rw [h.not_extended] at hwhole
      cases hwhole
  unfold Tkl.maskUhost
  rw [husermask, if_neg Bool.false_ne_true]
  exact snprintf_eq_self h.fits

theorem matches_of_userHostMatches {nick : Bool} {umask : List Char}
    (hat : '@' ∉ umask)
    (h : userHostMatches N client nick (umask ++ '@' :: hmask) = true) :
    matchSimple umask client.username = true ∧
      hostMatches N client hmask = true := by
  have hdrop : ((umask ++ '@' :: hmask).dropWhile (· != '@')).tail = hmask := by
    rw [dropWhile_bne_append hat, List.tail_cons]
  rw [userHostMatches, if_pos (by simp)] at h
  simp only [takeWhile_bne_append hat, hdrop] at h
  split at h
  · cases h
  · split at h
    · next huser => exact ⟨huser, h⟩
    · cases h

theorem hostMatches_of_matchUser {usermask : List Char}
    (hplain : PlainMask usermask hmask) (hbang : '!' ∉ hmask)
    (h : matchUser N (maskUhost usermask hmask) client = true) :
    hostMatches N client hmask = true := by
  rw [hplain.maskUhost, matchUser] at h
  have hsize : (usermask ++ '@' :: hmask).length < 30 + 10 + 63 + 8 :=
    hplain.fits.trans (by decide)
  simp only [snprintf_eq_self hsize, hplain.not_extended, Bool.false_eq_true,
    false_and, if_false] at h
  by_cases hnick : '!' ∈ usermask
  · obtain ⟨nick, umask, rfl, hfirst⟩ := List.eq_append_cons_of_mem hnick
    have hat : '@' ∉ umask := fun hmem =>
      hplain.at_not_mem (by simp [hmem])
    have hdrop : ((nick ++ '!' :: umask ++ '@' :: hmask).dropWhile
        (· != '!')).tail = umask ++ '@' :: hmask := by
      rw [List.append_assoc]
      exact congrArg List.tail (dropWhile_bne_append hfirst)
    rw [if_pos (by simp)] at h
    simp only [hdrop] at h
    split at h
    · cases h
    · split at h
      · exact (matches_of_userHostMatches hat h).2
      · cases h
  · have hnone : '!' ∉ usermask ++ '@' :: hmask := by
      simp [hnick, hbang]
    rw [if_neg hnone] at h
    exact (matches_of_userHostMatches hplain.at_not_mem h).2

theorem tklIpHash_of_matchUser {usermask : List Char}
    (hok : client.RealHostOk N) (hplain : PlainMask usermask hmask)
    (hhash : tklIpHash N hmask = some index)
    (h : matchUser N (maskUhost usermask hmask) client = true) :
    tklIpHash N client.getIP = some index := by
  have hchars : ∀ c ∈ hmask, isXDigit c = true ∨ c = ':' ∨ c = '.' := by
    rcases tklIpHash_cases hhash with ⟨b, hb⟩ | ⟨b, hb⟩
    · exact xdigit_of_inet hb
    · exact N.inet6_chars hb
  have hbang : '!' ∉ hmask := fun hmem =>
    absurd (hchars _ hmem) (by decide)
  exact tklIpHash_of_hostMatches hok hhash
    (hostMatches_of_matchUser hplain hbang h)

end IpAddress

end UnrealIrcd.Tkl
