import UnrealIrcd.Tkl.Lookup

/-!
# The two parts of a mask

`tkl_uhost` joins the masks of a server ban in a buffer of fixed size, and
`match_user` splits them again.  What does not fit is lost, and the ban then
matches more clients than it should (`findTklineMatchMatcher_parts_iff`).  What
is behind a `/` is lost too, unless an IP address is before it.
-/

namespace UnrealIrcd.Tkl

open Support Matching List

/-- The parts of a mask `user@host` that `server_ban_parse_mask` accepts.  Only a
mask that starts with a tilde may have a `!`. -/
structure AcceptedMask (usermask hostmask : List Char) : Prop where
  at_not_mem : '@' ∉ usermask
  bang : '!' ∈ usermask ++ '@' :: hostmask → usermask.head? = some '~'
  not_extended : isExtendedServerBan (usermask ++ '@' :: hostmask) = false

/-- No nick name starts with a tilde. -/
def Client.NoTilde {G : Type} (client : Client G) : Prop :=
  ∀ c ∈ client.name.head?, differ '~' c = true

/-- Two addresses of the same family whose first bits are equal, so many for IPv4
and so many for IPv6. -/
def SameNetwork (N : InetPton) (addr text : List Char) (bits bits6 : ℕ) : Prop :=
  (∃ a b, N.inet addr = some a ∧ N.inet text = some b ∧
    compWithMask b a bits = true) ∨
  ∃ a b, N.inet6 addr = some a ∧ N.inet6 text = some b ∧
    compWithMask b a bits6 = true

/-- The whole host mask matches a text: with its wildcards, as an IP address, or as
an address with a number of bits. -/
def HostMaskMatches (N : InetPton) (hostmask text : List Char) : Prop :=
  matchSimple hostmask text = true ∨ SameNetwork N hostmask text 32 128 ∨
    ∃ addr bits, hostmask = addr ++ '/' :: Nat.toDigits 10 bits ∧
      SameNetwork N addr text bits bits

/-- A `/` only stands between an IP address and a number of bits. -/
def CidrMask (N : InetPton) (hostmask : List Char) : Prop :=
  '/' ∈ hostmask → ∃ addr bits, hostmask = addr ++ '/' :: Nat.toDigits 10 bits ∧
    bits ≤ 128 ∧ ((∃ a, N.inet addr = some a) ∨ ∃ a, N.inet6 addr = some a)

variable {G : Type} {N : InetPton} {client : Client G}
  {usermask hostmask : List Char}

/-- What it takes for an IP address to match. -/
theorem sameNetwork_of_ipMatches {cidr : Option ℕ}
    (h : ipMatches N client hostmask cidr = some true) :
    ∃ ip, client.ip = some ip ∧
      (('?' ∈ hostmask ∨ '*' ∈ hostmask) ∧ matchSimple hostmask ip = true ∨
        SameNetwork N hostmask ip (cidr.getD 32) (cidr.getD 128)) := by
  unfold ipMatches at h
  split at h
  · next hwild =>
    split at h
    · next ip hip =>
      split at h
      · next hmatch => exact ⟨ip, hip, .inl ⟨hwild, hmatch⟩⟩
      · cases h
    · cases h
  · split at h
    · split at h
      · next ip hip =>
        split at h
        · split at h
          · next b a hb ha =>
            refine ⟨ip, hip, .inr (.inr ⟨a, b, ha, hb, ?_⟩)⟩
            cases cidr with
            | none => exact Option.some.inj h
            | some cidr =>
              dsimp only at h
              split at h
              · cases h
              · exact Option.some.inj h
          · cases h
        · cases h
      · cases h
    · split at h
      · next b a hb ha =>
        obtain ⟨ip, hip, hb⟩ := Option.bind_eq_some_iff.mp hb
        refine ⟨ip, hip, .inr (.inl ⟨a, b, ha, hb, ?_⟩)⟩
        cases cidr with
        | none =>
          dsimp only at h
          split at h
          · assumption
          · cases h
        | some cidr =>
          dsimp only at h
          split at h
          · cases h
          · exact Option.some.inj h
      · cases h

theorem ipMatches_ne_none (hquestion : '?' ∉ hostmask) (hstar : '*' ∉ hostmask)
    (hcolon : ':' ∈ hostmask) (cidr : Option ℕ) :
    ipMatches N client hostmask cidr ≠ none := by
  rw [ipMatches, if_neg (not_or.mpr ⟨hquestion, hstar⟩), if_pos hcolon]
  repeat' split
  all_goals exact Option.some_ne_none _

/-- The host matches by the IP address, or by the real host. -/
theorem hostMatches_cases {host : List Char} {cidr : Option ℕ}
    (hhost : hostmask.takeWhile (· != '/') = host)
    (hbits : (if '/' ∈ hostmask then
      some (atoi (hostmask.dropWhile (· != '/')).tail).toNat else none) = cidr)
    (h : hostMatches N client hostmask = true) :
    ipMatches N client host cidr = some true ∨
      ipMatches N client host cidr = none ∧ ∃ hostname,
        client.realHost = some hostname ∧ matchSimple host hostname = true := by
  rw [hostMatches] at h
  simp only [hhost, hbits] at h
  split at h
  · cases h
  · cases hip : ipMatches N client host cidr with
    | some answer =>
      rw [hip] at h
      exact .inl (congrArg some h)
    | none =>
      rw [hip] at h
      cases hreal : client.realHost with
      | some hostname =>
        rw [hreal] at h
        exact .inr ⟨rfl, hostname, rfl, h⟩
      | none =>
        rw [hreal] at h
        cases h

theorem hostMaskMatches_of_hostMatches (hcidr : CidrMask N hostmask)
    (h : hostMatches N client hostmask = true) :
    ∃ text, (client.ip = some text ∨ client.realHost = some text) ∧
      HostMaskMatches N hostmask text := by
  by_cases hslash : '/' ∈ hostmask
  · obtain ⟨addr, bits, rfl, hbits, haddr⟩ := hcidr hslash
    have hchars : ∀ c ∈ addr, isXDigit c = true ∨ c = ':' ∨ c = '.' := by
      rcases haddr with ⟨a, ha⟩ | ⟨a, ha⟩
      · exact xdigit_of_inet ha
      · exact N.inet6_chars ha
    have hnot : ∀ c, ¬ (isXDigit c = true ∨ c = ':' ∨ c = '.') → c ∉ addr :=
      fun c hc hmem => hc (hchars c hmem)
    have hslash' := hnot '/' (by decide)
    have hatoi : atoi (Nat.toDigits 10 bits) = bits :=
      atoi_decimal (n := bits) (by omega) (by omega)
    have hcut : (if '/' ∈ addr ++ '/' :: Nat.toDigits 10 bits then
        some (atoi ((addr ++ '/' :: Nat.toDigits 10 bits).dropWhile
          (· != '/')).tail).toNat else none) = some bits := by
      rw [if_pos hslash, dropWhile_bne_append hslash', tail_cons, hatoi,
        Int.toNat_natCast]
    rcases hostMatches_cases (takeWhile_bne_append hslash') hcut h with
      hip | ⟨hip, host, hreal, hmatch⟩
    · obtain ⟨ip, hclient, ⟨hwild, -⟩ | hsame⟩ := sameNetwork_of_ipMatches hip
      · exact absurd hwild (not_or.mpr ⟨hnot '?' (by decide), hnot '*' (by decide)⟩)
      · exact ⟨ip, .inl hclient, .inr (.inr ⟨addr, bits, rfl, hsame⟩)⟩
    · rcases haddr with ⟨a, ha⟩ | ⟨a, ha⟩
      · obtain rfl := eq_of_matchSimple (N.inet_chars ha) hmatch
        have hsame : SameNetwork N addr addr bits bits :=
          .inl ⟨a, a, ha, ha, by simp [compWithMask]⟩
        exact ⟨addr, .inr hreal, .inr (.inr ⟨addr, bits, rfl, hsame⟩)⟩
      · exact absurd hip (ipMatches_ne_none (hnot '?' (by decide))
          (hnot '*' (by decide)) (N.inet6_colon ha) _)
  · rcases hostMatches_cases
      (takeWhile_eq_self_iff.mpr (bne_of_not_mem hslash)) (if_neg hslash) h
      with hip | ⟨-, host, hreal, hmatch⟩
    · obtain ⟨ip, hclient, hmatch⟩ := sameNetwork_of_ipMatches hip
      exact ⟨ip, .inl hclient, hmatch.imp And.right .inl⟩
    · exact ⟨host, .inr hreal, .inl hmatch⟩

theorem matchSimple_tilde {name : List Char}
    (h : ∀ c ∈ name.head?, differ '~' c = true) (mask : List Char) :
    matchSimple ('~' :: mask) name = false := by
  have hstep : matchStep ('~' :: mask) ⟨'~' :: mask, name, none, name⟩ =
      .inr false := by
    cases name with
    | nil => rfl
    | cons c name => exact if_pos (h c rfl)
  rw [matchSimple, Nat.add_one_mul, ← Nat.add_assoc, stepLoop_inr hstep]
  rfl

/-- Masks that fit are matched as wholes. -/
theorem matches_of_matchUser (hmask : AcceptedMask usermask hostmask)
    (hfits : (usermask ++ '@' :: hostmask).length < uhostSize)
    (hname : client.NoTilde)
    (h : matchUser N (maskUhost usermask hostmask) client = true) :
    matchSimple usermask client.username = true ∧
      hostMatches N client hostmask = true := by
  have hplain : PlainMask usermask hostmask :=
    ⟨hmask.at_not_mem, hfits, hmask.not_extended⟩
  have hsize : (usermask ++ '@' :: hostmask).length < 30 + 10 + 63 + 8 :=
    hfits.trans (by decide)
  rw [hplain.maskUhost, matchUser] at h
  simp only [snprintf_eq_self hsize, hmask.not_extended, Bool.false_eq_true,
    false_and, if_false] at h
  split at h
  · next hbang =>
      obtain ⟨mask, rfl⟩ := head?_eq_some_iff.mp (hmask.bang hbang)
      rw [cons_append, takeWhile_cons_of_pos (by decide),
        matchSimple_tilde hname, if_neg (cons_ne_nil _ _)] at h
      cases h
  · exact matches_of_userHostMatches hmask.at_not_mem h

/-- A user whose real host has so many letters. -/
def longHost (n : ℕ) : Client Unit :=
  { oddlyNamed with ip := none, user := some ⟨['u'], replicate n 'a'⟩ }

/-- A user mask that leaves room for 32 bytes of the host mask. -/
def stars : List Char := replicate 60 '*'

theorem noTilde_longHost {n : ℕ} : (longHost n).NoTilde := by
  rintro _ ⟨⟩
  rfl

theorem eq_of_hostMaskMatches {k n : ℕ} (hk : 0 < k)
    (h : HostMaskMatches dottedQuad (replicate k 'a') (replicate n 'a')) :
    k = n := by
  have hout : ∀ c, c ≠ 'a' → c ∉ replicate k 'a' := fun c hc hmem =>
    hc (eq_of_mem_replicate hmem)
  rcases h with h | (⟨_, _, ha, -⟩ | ⟨_, _, ha, -⟩) | ⟨addr, bits, hmask, -⟩
  · have hlen := (fits_of_matchSimple (hout '*' (by decide))
      (hout '?' (by decide)) h).length_eq
    simpa using hlen
  · have hmem : 'a' ∈ replicate k 'a' := mem_replicate.mpr ⟨by omega, rfl⟩
    exact absurd (dottedQuad.inet_chars ha _ hmem) (by decide)
  · cases ha
  · exact absurd (hmask ▸ by simp) (hout '/' (by decide))

theorem eq_of_text_longHost {n : ℕ} {text : List Char}
    (h : (longHost n).ip = some text ∨ (longHost n).realHost = some text) :
    text = replicate n 'a' := by
  rcases h with h | h
  · cases h
  · exact (Option.some.inj h).symm

end UnrealIrcd.Tkl
