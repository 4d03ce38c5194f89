import UnrealIrcd.Channels.Bans

/-!
# The form of ban masks

`clean_ban_mask` takes a regular ban apart and puts it together again as
`nick!user@host`.  A mask of that form is not changed any more
(`cleanBanMask_regular`).
-/

namespace UnrealIrcd.Channels

open Support List

/-- A part as it is written. -/
def banPart (len : ℕ) (s : List Char) : List Char :=
  (checkString (trimStr s len)).take (len + 1)

def banMask (nick user host : List Char) : List Char :=
  banPart nicklen nick ++ '!' ::
    (banPart userlen user ++ '@' :: banPart hostlen host)

/-- A part that fits and has no white space. -/
def IsPart (len : ℕ) (s : List Char) : Prop :=
  s ≠ [] ∧ s.length ≤ len ∧ ∀ c ∈ s, 32 < c.toNat

/-- The form `nick!user@host`. -/
def RegularMask (out : List Char) : Prop :=
  ∃ nick user host, out = nick ++ '!' :: (user ++ '@' :: host) ∧
    IsPart nicklen nick ∧ IsPart userlen user ∧ IsPart hostlen host ∧
    '!' ∉ nick ∧ '@' ∉ host

variable {C : BanConfig} {ctx : BanContext} {len : ℕ} {c : Char}
  {mask nick user host out s : List Char}

/-! ## Taking a mask apart -/

theorem splitHost_append (h : '@' ∉ host) :
    splitHost (user ++ '@' :: host) = some (user, host) := by
  have hhost : '@' ∉ host.reverse := fun hmem => h (mem_reverse.mp hmem)
  rw [splitHost, if_pos (by simp), reverse_append, reverse_cons, append_assoc,
    singleton_append, takeWhile_bne_append hhost, dropWhile_bne_append hhost,
    tail_cons, reverse_reverse, reverse_reverse]

/-- The text has no `@`, or there is a last one. -/
theorem splitHost_cases (s : List Char) :
    splitHost s = none ∧ '@' ∉ s ∨
      ∃ user host, s = user ++ '@' :: host ∧ '@' ∉ host ∧
        splitHost s = some (user, host) := by
  by_cases h : '@' ∈ s
  · obtain ⟨as, bs, hs, has⟩ := eq_append_cons_of_mem (mem_reverse.mpr h)
    obtain rfl : s = bs.reverse ++ '@' :: as.reverse := by
      rw [← reverse_reverse s, hs]
      simp
    have hhost : '@' ∉ as.reverse := fun hmem => has (mem_reverse.mp hmem)
    exact .inr ⟨_, _, rfl, hhost, splitHost_append hhost⟩
  · exact .inl ⟨if_neg (by simpa using h), h⟩

theorem convertRegularBan_eq_some (h : convertRegularBan mask = some out) :
    ∃ nick user host, out = banMask nick user host ∧ nick <+: mask ∧
      user ⊆ mask ∧ host ⊆ mask ∧ '!' ∉ nick ∧ '@' ∉ host := by
  unfold convertRegularBan at h
  split at h
  · cases h
  split at h
  · cases h
  split at h
  · next hbang =>
      obtain ⟨nick, rest, rfl, hnick⟩ := eq_append_cons_of_mem hbang
      rw [takeWhile_bne_append hnick, dropWhile_bne_append hnick] at h
      rcases splitHost_cases rest with ⟨hsplit, -⟩ | ⟨user, host, rfl, hhost,
        hsplit⟩
      · simp only [drop_one, tail_cons, hsplit] at h
        cases h
        exact ⟨nick, rest, [], rfl, ⟨_, rfl⟩, by simp, by simp, hnick,
          not_mem_nil⟩
      · simp only [drop_one, tail_cons, hsplit] at h
        cases h
        exact ⟨nick, user, host, rfl, ⟨_, rfl⟩, fun c hc => by simp [hc],
          fun c hc => by simp [hc], hnick, hhost⟩
  · next hbang =>
      rcases splitHost_cases mask with ⟨hsplit, hat⟩ | ⟨user, host, rfl, hhost,
        hsplit⟩
      · rw [hsplit] at h
        dsimp only at h
        split at h
        · cases h
          exact ⟨[], [], mask, rfl, nil_prefix, by simp, by simp, not_mem_nil,
            hat⟩
        · cases h
          exact ⟨mask, [], [], rfl, prefix_rfl, by simp, by simp, hbang,
            not_mem_nil⟩
      · rw [hsplit] at h
        cases h
        exact ⟨[], user, host, rfl, nil_prefix, by simp, by simp, not_mem_nil,
          hhost⟩

/-! ## Parts -/

/-- A part is written as it is, or starts with an asterisk. -/
theorem banPart_cases (hlen : 0 < len) (s : List Char) :
    (banPart len s = s ∧ s ≠ [] ∧ s.length ≤ len) ∨
      ∃ tail, banPart len s = '*' :: tail ∧ tail ⊆ s ∧ tail.length < len := by
  unfold banPart trimStr
  split
  · refine .inr ⟨s.drop (s.length - len + 1), ?_, drop_subset _ _, ?_⟩
    · rw [checkString, if_neg (cons_ne_nil _ _), take_of_length_le]
      rw [length_cons, length_drop]
      omega
    · rw [length_drop]
      omega
  · unfold checkString
    split
    · exact .inr ⟨[], by simp, nil_subset _, hlen⟩
    · exact .inl ⟨take_of_length_le (by omega), ‹_›, by omega⟩

theorem isPart_banPart (hlen : 0 < len) (hs : ∀ c ∈ s, 32 < c.toNat) :
    IsPart len (banPart len s) := by
  rcases banPart_cases hlen s with ⟨heq, hne, hle⟩ | ⟨tail, heq, hsub, hlt⟩
  · rw [heq]
    exact ⟨hne, hle, hs⟩
  · rw [heq]
    refine ⟨cons_ne_nil _ _, hlt, forall_mem_cons.mpr ⟨by decide, ?_⟩⟩
    exact fun c hc => hs c (hsub hc)

theorem not_mem_banPart (hlen : 0 < len) (hc : c ≠ '*') (hs : c ∉ s) :
    c ∉ banPart len s := by
  rcases banPart_cases hlen s with ⟨heq, -⟩ | ⟨tail, heq, hsub, -⟩
  · rwa [heq]
  · rw [heq, mem_cons, not_or]
    exact ⟨hc, fun hmem => hs (hsub hmem)⟩

theorem IsPart.banPart_eq (h : IsPart len s) : banPart len s = s := by
  obtain ⟨hne, hle, -⟩ := h
  rw [banPart, trimStr, if_neg (by omega), checkString, if_neg hne,
    take_of_length_le (by omega)]

/-! ## Cleaning -/

theorem isExtendedBan_eq_false (h : s.head? ≠ some '~') :
    isExtendedBan s = false := by
  unfold isExtendedBan
  split
  · exact absurd rfl h
  · rfl

theorem RegularMask.clean (h : RegularMask out) (hcolon : out.head? ≠ some ':')
    (htilde : out.head? ≠ some '~') : cleanBanMask C ctx out = some out := by
  obtain ⟨nick, user, host, hout, hnick, huser, hhost, hbang, hat⟩ := h
  have hne : out ≠ [] := by simp [hout]
  have hgraph : ∀ c ∈ out, 32 < c.toNat := by
    simp only [hout, forall_mem_append, forall_mem_cons]
    exact ⟨hnick.2.2, by decide, huser.2.2, by decide, hhost.2.2⟩
  have hdrop : out.dropWhile (· == ':') = out := by
    obtain ⟨c, rest, rfl⟩ := exists_cons_of_ne_nil hne
    exact dropWhile_cons_of_neg (by simpa using hcolon)
  have hcut : (out.take 511).takeWhile (· != ' ') = out := by
    have hlen : out.length ≤ nicklen + userlen + hostlen + 2 := by
      have hlenNick := hnick.2.1
      have hlenUser := huser.2.1
      have hlenHost := hhost.2.1
      simp only [hout, length_append, length_cons]
      omega
    rw [take_of_length_le (hlen.trans (by decide)), takeWhile_eq_self_iff]
    intro c hc
    rw [bne_iff_ne]
    rintro rfl
    exact absurd (hgraph _ hc) (by decide)
  have hconvert : convertRegularBan out = some (banMask nick user host) := by
    rw [convertRegularBan, if_neg hne, if_neg fun h => htilde h.1,
      if_pos (by simp [hout]), hout, takeWhile_bne_append hbang,
      dropWhile_bne_append hbang]
    simp only [drop_one, tail_cons, splitHost_append hat]
    rfl
  have hany : out.any (fun c => decide (c.toNat ≤ 32)) = false := by
    simpa using hgraph
  simp only [cleanBanMask, hdrop, hne, if_false, hcut, hany,
    isExtendedBan_eq_false htilde, Bool.false_eq_true, hconvert, banMask,
    hnick.banPart_eq, huser.banPart_eq, hhost.banPart_eq, ← hout]

/-- A text that is accepted becomes `nick!user@host`, which is not changed by
cleaning it again.  Colons in front of the text do not count. -/
theorem cleanBanMask_regular {text : List Char}
    (htext : (text.dropWhile (· == ':')).head? ≠ some '~')
    (h : cleanBanMask C ctx text = some out) :
    RegularMask out ∧ cleanBanMask C ctx out = some out := by
  have hhead := head?_dropWhile_not (· == ':') text
  rw [cleanBanMask] at h
  dsimp only at h
  split at h
  · cases h
  rename_i hne
  obtain ⟨first, rest, hrest⟩ := exists_cons_of_ne_nil hne
  rw [hrest] at h htext hhead
  have htilde : first ≠ '~' := fun heq => htext (congrArg some heq)
  have hcolon : first ≠ ':' := by simpa using hhead
  generalize hmask : ((first :: rest).take 511).takeWhile (· != ' ') = mask
    at h
  have hhead : ∀ c ∈ mask.head?, c = first := by
    rw [← hmask, take_succ_cons, takeWhile_cons]
    split
    · simp
    · simp
  split at h
  · cases h
  rename_i hany
  rw [isExtendedBan_eq_false fun heq => htilde (hhead _ heq).symm] at h
  obtain ⟨nick, user, host, rfl, hnick, huser, hhost, hbang, hat⟩ :=
    convertRegularBan_eq_some h
  have hgraph : ∀ c ∈ mask, 32 < c.toNat := by simpa using hany
  have hregular : RegularMask (banMask nick user host) :=
    ⟨_, _, _, rfl, isPart_banPart (by decide) fun c hc =>
      hgraph c (hnick.subset hc), isPart_banPart (by decide) fun c hc =>
      hgraph c (huser hc), isPart_banPart (by decide) fun c hc =>
      hgraph c (hhost hc), not_mem_banPart (by decide) (by decide) hbang,
      not_mem_banPart (by decide) (by decide) hat⟩
  have hstart : ∀ c ∈ (banMask nick user host).head?, c = '*' ∨ c = first := by
    intro c hc
    rcases banPart_cases (show 0 < nicklen by decide) nick with
      ⟨heq, hne, -⟩ | ⟨tail, heq, -⟩
    · obtain ⟨d, nick, rfl⟩ := exists_cons_of_ne_nil hne
      obtain ⟨tail, rfl⟩ := hnick
      rw [banMask, heq] at hc
      exact .inr (hhead c hc)
    · rw [banMask, heq] at hc
      exact .inl (Option.some.inj hc).symm
  refine ⟨hregular, hregular.clean (fun heq => ?_) fun heq => ?_⟩
  · exact (hstart _ heq).elim (by decide) (hcolon ·.symm)
  · exact (hstart _ heq).elim (by decide) (htilde ·.symm)

/-- A user name of more than ten characters is cut, and the nick is added. -/
theorem cleanBanMask_userhost :
    RegularMask "*!*nistrator@irc.example.org".toList ∧
      cleanBanMask ⟨[], true, 1⟩ ⟨.add, .ban, false⟩
          "*!*nistrator@irc.example.org".toList =
        some "*!*nistrator@irc.example.org".toList := by
  have h : cleanBanMask ⟨[], true, 1⟩ ⟨.add, .ban, false⟩
      "administrator@irc.example.org".toList =
        some "*!*nistrator@irc.example.org".toList := by
    decide +kernel
  exact cleanBanMask_regular (by decide) h

/-- A colon hides the tilde of an extended ban. -/
theorem cleanBanMask_colon_tilde :
    cleanBanMask ⟨[], true, 1⟩ ⟨.del, .ban, false⟩ ":~a:b".toList =
      some "~a:b".toList ∧ ¬ RegularMask "~a:b".toList := by
  refine ⟨rfl, ?_⟩
  rintro ⟨nick, user, host, hout, -⟩
  have hmem : '!' ∈ "~a:b".toList := by simp [hout]
  exact absurd hmem (by decide)

end UnrealIrcd.Channels
