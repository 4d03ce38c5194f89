import UnrealIrcd.Channels.MemberStatus
import UnrealIrcd.Channels.SjoinMerge

/-!
# The items of an SJOIN line

The members and the list entries of a channel are written as items and read
back by the peer.
-/

namespace UnrealIrcd.Channels

open Support List

/-! ## Signs of member modes -/

/-- Every member mode has a sign of its own. -/
theorem sign_facts {cm : Cmode} (hcm : cm ∈ allChannelmodes)
    (htype : cm.type = .member) :
    cm.letter ∉ ['\x00', 'b', 'e', 'I'] ∧
      ∃ f ∈ cm.sjoinPrefix, f ∈ ['*', '~', '@', '%', '+'] ∧
        ∀ cm' ∈ allChannelmodes, cm'.type = .member →
          cm'.sjoinPrefix = some f → cm'.letter = cm.letter := by
  have hfacts : ∀ cm ∈ allChannelmodes, cm.type = .member →
      cm.letter ∉ ['\x00', 'b', 'e', 'I'] ∧
        cm.sjoinPrefix = some (cm.sjoinPrefix.getD '*') ∧
        cm.sjoinPrefix.getD '*' ∈ ['*', '~', '@', '%', '+'] ∧
        ∀ cm' ∈ allChannelmodes, cm'.type = .member →
          cm'.sjoinPrefix = cm.sjoinPrefix → cm'.letter = cm.letter := by
    decide
  obtain ⟨hletter, hsome, hsign, hunique⟩ := hfacts cm hcm htype
  refine ⟨hletter, _, hsome, hsign, fun cm' hcm' htype' heq => ?_⟩
  exact hunique cm' hcm' htype' (heq.trans hsome.symm)

variable {T : ModeTable}

theorem mem_signs_of_sjoinPrefixToMode {c m : Char}
    (h : sjoinPrefixToMode T c = some m) :
    c ∈ ['&', '"', '\x27', '*', '~', '@', '%', '+'] := by
  unfold sjoinPrefixToMode at h
  split at h
  · cases h
  split at h
  · simp_all
  split at h
  · simp_all
  split at h
  · simp_all
  · obtain ⟨cm, hfind, -⟩ := Option.map_eq_some_iff.mp h
    have hsome := find?_some hfind
    simp only [Bool.and_eq_true, beq_iff_eq] at hsome
    obtain ⟨-, f, hf, hmem, -⟩ := sign_facts
      (T.mem_all (mem_of_find?_eq_some hfind)) hsome.2
    rw [Option.mem_def, hsome.1] at hf
    cases hf
    simp only [mem_cons, not_mem_nil, or_false] at hmem ⊢
    tauto

theorem sign_of_isStatus {a : Char} (ha : T.IsStatus a) :
    ∃ f, modeToSjoinPrefix T a = some f ∧ sjoinPrefixToMode T f = some a ∧
      f ∈ ['*', '~', '@', '%', '+'] ∧ a ∉ ['b', 'e', 'I'] := by
  obtain ⟨cm, hcm, rfl, htype⟩ := ha
  obtain ⟨hletter, f, hf, hsign, hunique⟩ := sign_facts (T.mem_all hcm) htype
  simp only [mem_cons, not_mem_nil, or_false, not_or] at hletter
  have hfind : T.channelmodes.find?
      (fun cm' => cm'.letter == cm.letter && cm'.type == .member) =
        some cm := by
    cases hfind : T.channelmodes.find?
        (fun cm' => cm'.letter == cm.letter && cm'.type == .member) with
    | none =>
      have hnone := find?_eq_none.mp hfind cm hcm
      simp [htype] at hnone
    | some cm' =>
      have hsome := find?_some hfind
      simp only [Bool.and_eq_true, beq_iff_eq] at hsome
      rw [T.eq_of_letter (mem_of_find?_eq_some hfind) hcm hsome.1]
  have hback : ∃ cm', T.channelmodes.find?
      (fun cm' => cm'.sjoinPrefix == some f && cm'.type == .member) =
        some cm' ∧ cm'.letter = cm.letter := by
    cases hback : T.channelmodes.find?
        (fun cm' => cm'.sjoinPrefix == some f && cm'.type == .member) with
    | none =>
      have hnone := find?_eq_none.mp hback cm hcm
      simp [htype, Option.mem_def.mp hf] at hnone
    | some cm' =>
      have hsome := find?_some hback
      simp only [Bool.and_eq_true, beq_iff_eq] at hsome
      exact ⟨cm', rfl, hunique cm'
        (T.mem_all (mem_of_find?_eq_some hback)) hsome.2 hsome.1⟩
  refine ⟨f, ?_, ?_, hsign, by simp [hletter]⟩
  · simp [modeToSjoinPrefix, hletter, hfind, Option.mem_def.mp hf]
  · obtain ⟨cm', hcm', heq⟩ := hback
    have hne : ∀ f ∈ ['*', '~', '@', '%', '+'],
        f ≠ '\x00' ∧ f ≠ '&' ∧ f ≠ '"' ∧ f ≠ '\x27' := by
      simp only [forall_mem_cons, not_mem_nil, false_imp_iff,
        implies_true, and_true]
      decide
    simp [sjoinPrefixToMode, hne f hsign, hcm', heq]

/-- The sign of a member mode. -/
def signOf (T : ModeTable) (a : Char) : Char :=
  (modeToSjoinPrefix T a).getD ' '

variable {c : Char}

section Signs

variable {T : ModeTable}

theorem signOf_spec {a : Char} (ha : T.IsStatus a) :
    modeToSjoinPrefix T a = some (signOf T a) ∧
      sjoinPrefixToMode T (signOf T a) = some a ∧
      signOf T a ∈ ['*', '~', '@', '%', '+'] ∧ a ∉ ['b', 'e', 'I'] := by
  obtain ⟨f, hf, hback, hsign, hletter⟩ := sign_of_isStatus ha
  have hsignOf : signOf T a = f := by rw [signOf, hf, Option.getD_some]
  rw [hsignOf]
  exact ⟨hf, hback, hsign, hletter⟩

theorem strlcatLetter_eq {buf : List Char}
    (h : buf.length < membermodeslen - 1) :
    strlcatLetter buf c membermodeslen = buf ++ [c] := by
  rw [strlcatLetter, if_neg]
  rintro (h0 | hlen)
  · exact absurd h0 (by decide)
  · omega

/-- The signs of a member are written in the order of its letters. -/
theorem modesToSjoinPrefix_eq
    {modes : List Char} (hmodes : ∀ a ∈ modes, T.IsStatus a)
    (hlen : modes.length ≤ membermodeslen - 1) :
    modesToSjoinPrefix T modes = modes.map (signOf T) := by
  rw [← Nat.zero_add modes.length, ← @List.length_nil Char] at hlen
  rw [modesToSjoinPrefix, ← nil_append (modes.map (signOf T))]
  generalize ([] : List Char) = buf at hlen ⊢
  induction modes generalizing buf with
  | nil => simp
  | cons a modes ih =>
    rw [length_cons] at hlen
    have hsign := (signOf_spec (hmodes a (by simp))).1
    rw [foldl_cons]
    simp only [hsign]
    rw [strlcatLetter_eq (by omega),
      ih (fun b hb => hmodes b (by simp [hb])) _ (by
        rw [length_append, length_singleton]
        omega)]
    simp

theorem parseSigns_signs {modes : List Char}
    (hmodes : ∀ a ∈ modes, T.IsStatus a) (rest : List Char)
    (hrest : ∀ c ∈ rest.head?, sjoinPrefixToMode T c = none) (buf : List Char)
    (hlen : buf.length + modes.length ≤ membermodeslen - 1) :
    parseSigns T buf (modes.map (signOf T) ++ rest) =
      (buf ++ modes, rest) := by
  induction modes generalizing buf with
  | nil =>
    cases rest with
    | nil => simp [parseSigns]
    | cons c rest => simp [parseSigns, hrest c (by simp)]
  | cons a modes ih =>
    rw [length_cons] at hlen
    obtain ⟨-, hback, -, hletter⟩ := signOf_spec (hmodes a (by simp))
    rw [map_cons, cons_append, parseSigns]
    simp only [hback, if_neg hletter]
    rw [strlcatLetter_eq (by omega),
      ih (fun b hb => hmodes b (by simp [hb])) _ (by
        rw [length_append, length_singleton]
        omega)]
    simp

end Signs

/-! ## Items of members -/

theorem validUid_spec {id : List Char} (h : validUid id = true) :
    ∃ c cs, id = c :: cs ∧ c.isDigit = true ∧ id.length ≤ idlen ∧
      ∀ d ∈ id, d.isDigit = true ∨ d.isUpper = true := by
  simp only [validUid, Bool.and_eq_true, decide_eq_true_eq] at h
  obtain ⟨⟨-, hlen⟩, h⟩ := h
  cases id with
  | nil => cases h
  | cons c cs =>
    simp only [Bool.and_eq_true, all_eq_true, Bool.or_eq_true] at h
    exact ⟨c, cs, rfl, h.1, hlen, forall_mem_cons.mpr ⟨.inl h.1, h.2⟩⟩

theorem not_sign_of_isDigit (h : c.isDigit = true) :
    sjoinPrefixToMode T c = none := by
  cases hmode : sjoinPrefixToMode T c with
  | none => rfl
  | some m =>
    have hmem := mem_signs_of_sjoinPrefixToMode hmode
    simp only [mem_cons, not_mem_nil, or_false] at hmem
    rcases hmem with rfl | rfl | rfl | rfl | rfl | rfl | rfl | rfl
    all_goals exact absurd h (by decide)

variable {m : Member}

theorem parseItem_memberItem (hm : StatusOrdered T m.memberModes)
    (hid : validUid m.client = true) (sjsby : Bool) :
    parseItem T sjsby (memberItem T m) =
      some ⟨none, m.memberModes, m.client⟩ := by
  obtain ⟨c, cs, hc, hdigit, hlen, -⟩ := validUid_spec hid
  have hmodes := hm.length_le
  have htext : memberItem T m = m.memberModes.map (signOf T) ++ m.client := by
    rw [memberItem, modesToSjoinPrefix_eq hm.isStatus
      (hmodes.trans (by decide))]
  have hsigns := parseSigns_signs hm.isStatus m.client (by
    intro d hd
    rw [hc, head?_cons, Option.mem_some_iff] at hd
    exact hd ▸ not_sign_of_isDigit hdigit) []
    (by simpa using hmodes.trans (by decide))
  have hhead : (memberItem T m).head? ≠ some '<' := by
    rw [htext]
    cases hmode : m.memberModes with
    | nil =>
      rw [map_nil, nil_append, hc, head?_cons]
      rintro heq
      cases heq
      exact absurd hdigit (by decide)
    | cons a modes =>
      obtain ⟨-, -, hsign, -⟩ := signOf_spec (hm.isStatus a (by simp [hmode]))
      rw [map_cons, cons_append, head?_cons]
      intro heq
      rw [Option.some.inj heq] at hsign
      exact absurd hsign (by decide)
  have hsjsby : parseSjsby sjsby (memberItem T m) =
      some (none, memberItem T m) := by
    rw [parseSjsby, if_neg]
    simp [hhead]
  have hcut : m.client.take 1023 = m.client :=
    take_of_length_le (hlen.trans (by decide))
  rw [parseItem, hsjsby]
  simp only [htext, hsigns, nil_append, hcut]
  rw [if_neg (by simp [hc])]

/-! ## Items of list entries -/

/-- The sign of a list. -/
def ListMode.sign : ListMode → Char
  | .ban => '&'
  | .except => '"'
  | .invex => '\x27'

theorem ofLetter_letter (lm : ListMode) :
    ListMode.ofLetter lm.letter = some lm := by
  cases lm with
  | ban | except | invex => rfl

/-- An entry that a peer takes over as it is: the mask is in its proper form,
and the entry fits into its item. -/
structure LegalBan (C : BanConfig) (lm : ListMode) (ban : Ban) : Prop where
  clean : cleanBanMask C ⟨.add, lm, false⟩ ban.banstr = some ban.banstr
  valid : validListItem ban.banstr = true
  banstr_word : ' ' ∉ ban.banstr
  banstr_le : ban.banstr.length ≤ maxbanlen
  who_word : ' ' ∉ ban.who ∧ '>' ∉ ban.who
  who_le : ban.who.length ≤ wholen
  when_le : -2 ^ 63 ≤ ban.when ∧ ban.when < 2 ^ 63

variable {lm : ListMode} {ban : Ban}

theorem not_mem_decimal (n : ℤ) (hc : c ∈ [' ', ',', '>']) : c ∉ decimal n := by
  intro h
  simp only [mem_cons, not_mem_nil, or_false] at hc
  rcases mem_decimal h with rfl | hdigit
  · exact absurd hc (by decide)
  · rcases hc with rfl | rfl | rfl
    all_goals exact absurd hdigit (by decide)

theorem parseSjsby_addSjsby {C : BanConfig} (h : LegalBan C lm ban)
    (rest : List Char) :
    parseSjsby true (addSjsby ban ++ rest) =
      some (some (ban.who, ban.when), rest) := by
  have htext : addSjsby ban ++ rest =
      ('<' :: (decimal ban.when ++ ',' :: ban.who)) ++ '>' :: rest := by
    simp [addSjsby]
  have hend : '>' ∉ '<' :: (decimal ban.when ++ ',' :: ban.who) := by
    have hnumber := not_mem_decimal ban.when (show '>' ∈ _ by simp)
    simp [hnumber, h.who_word.2]
  have hcomma : ',' ∉ '<' :: decimal ban.when := by
    simpa using not_mem_decimal ban.when (show ',' ∈ _ by simp)
  have hwhen : strtol (decimal ban.when) = ban.when := by
    have hread := strtol_decimal_append h.when_le.1 h.when_le.2 noDigit_nil
    rwa [append_nil] at hread
  rw [parseSjsby, if_pos (by simp [addSjsby]), htext,
    dropWhile_bne_append hend, takeWhile_bne_append hend]
  dsimp only
  rw [← cons_append, dropWhile_bne_append hcomma, takeWhile_bne_append hcomma]
  simp only [drop_succ_cons, drop_zero, hwhen, take_of_length_le h.who_le]

theorem parseSigns_listSign (T : ModeTable) (lm : ListMode) (s : List Char) :
    parseSigns T [] (lm.sign :: s) = ([lm.letter], s) := by
  cases lm with
  | ban | except | invex => rfl

theorem parseItem_banItem {C : BanConfig} (h : LegalBan C lm ban)
    (T : ModeTable) :
    parseItem T true (banItem true lm.sign ban) =
      some ⟨some (ban.who, ban.when), [lm.letter], ban.banstr⟩ := by
  have hcut : ban.banstr.take 1023 = ban.banstr :=
    take_of_length_le (h.banstr_le.trans (by decide))
  have hne : ban.banstr ≠ [] := by
    intro hnil
    have hvalid := h.valid
    rw [hnil] at hvalid
    exact absurd hvalid (by decide)
  rw [parseItem, banItem, if_pos rfl, parseSjsby_addSjsby h]
  simp only [parseSigns_listSign, hcut]
  rw [if_neg hne]

/-! ## What an item adds to a channel -/

/-- What the items of a burst describe. -/
inductive Described where
  | member (m : Member)
  | entry (lm : ListMode) (ban : Ban)

/-- The item in the line. -/
def Described.text (T : ModeTable) : Described → List Char
  | .member m => memberItem T m
  | .entry lm ban => banItem true lm.sign ban

/-- What a burst says of a channel. -/
def Channel.described (ch : Channel) : List Described :=
  ch.members.map .member ++ ch.banlist.map (.entry .ban) ++
    ch.exlist.map (.entry .except) ++ ch.invexlist.map (.entry .invex)

theorem burstItems_eq (T : ModeTable) (ch : Channel) :
    burstItems T true ch = ch.described.map (Described.text T) := by
  simp [burstItems, Channel.described, Described.text, Function.comp_def,
    ListMode.sign]

/-- A member without status. -/
def Member.wiped (m : Member) : Member := ⟨m.client, [], []⟩

/-- What the item adds to a channel of the peer. -/
def Described.addTo (side : SjoinSide) (ch : Channel) : Described → Channel
  | .member m =>
    { ch with
      members :=
        (if side = .removeTheirs then m.wiped else m) :: ch.members }
  | .entry lm ban =>
    if side = .removeTheirs then ch else ch.setList lm (ban :: ch.list lm)

open Described (addTo text)

/-- The peer can make use of the item. -/
def Described.Usable (S : Server) (peer : Peer) : Described → Prop
  | .member m => m.WellFormed S.config.table ∧
      ∃ u ∈ S.users, u.id = m.client ∧ u.direction = peer.direction
  | .entry lm ban =>
    LegalBan S.config.bans lm ban ∧ 1 ≤ S.config.bans.maxbans

/-- The channel does not have the member or the entry yet, or the entry does
not count. -/
def Described.Fresh (side : SjoinSide) (ch : Channel) : Described → Prop
  | .member m => ch.isMember m.client = false
  | .entry lm ban => side ≠ .removeTheirs →
      ∀ b ∈ ch.list lm, identicalBan b.banstr ban.banstr = false

/-- Two items are about different members and entries. -/
def Described.Distinct : Described → Described → Prop
  | .member m, .member m' => m.client ≠ m'.client
  | .entry lm ban, .entry lm' ban' =>
    lm = lm' → identicalBan ban.banstr ban'.banstr = false
  | _, _ => True

theorem StatusOrdered.eq_of_mem_iff {s t : List Char} (hs : StatusOrdered T s)
    (ht : StatusOrdered T t) (h : ∀ a, a ∈ s ↔ a ∈ t) : s = t := by
  have hperm : s.Perm t := (perm_ext_iff_of_nodup hs.nodup ht.nodup).mpr h
  refine hperm.eq_of_pairwise ?_ hs.descending ht.descending
  intro a b _ _ hab hba
  exact absurd hab (lt_asymm hba)

/-- A member joins with its letters as they are. -/
theorem foldl_addMemberModeFast_eq (hm : m.WellFormed T) :
    m.memberModes.foldl (addMemberModeFast T) m.wiped = m := by
  obtain ⟨hwf, hmem⟩ := Member.WellFormed.foldl_add
    (.withoutStatus m.client) hm.ordered.isStatus hm.ordered.nodup (by simp)
  have hmodes := hwf.ordered.eq_of_mem_iff hm.ordered fun a => by simp [hmem]
  have hclient := client_foldl_addMemberModeFast T m.memberModes m.wiped
  have heq := hwf.eq.trans (hmodes.trans hm.eq.symm)
  exact congr (congr (congrArg Member.mk hclient) hmodes) heq

variable {ds : List Described}

section Effect

variable {S : Server} {peer : Peer}

variable {s : SjoinState}

theorem sjoinItem_member (hm : m.WellFormed S.table) {u : User}
    (hu : u ∈ S.users) (hid : u.id = m.client)
    (hdirection : u.direction = peer.direction) (side : SjoinSide)
    (hfresh : s.channel.isMember m.client = false) :
    (sjoinItem S peer side s ⟨none, m.memberModes, m.client⟩).channel =
      (Described.member m).addTo side s.channel := by
  have hlist : SjoinItem.isList ⟨none, m.memberModes, m.client⟩ = false := by
    have hletters : ∀ c ∈ ['b', 'e', 'I'], c ∉ m.memberModes := by
      intro c hc hmem
      exact (signOf_spec (hm.ordered.isStatus c hmem)).2.2.2 hc
    simp [SjoinItem.isList, hletters]
  have hfind : S.findUser m.client = some u := hid ▸ S.findUser_id hu
  rw [sjoinItem, if_neg (by rw [hlist]; decide), sjoinUser]
  simp only [hfind, hdirection, ne_eq, not_true, if_false, hid, hfresh,
    Bool.false_eq_true, addTo, addUserToChannel]
  split
  · rfl
  · have hjoin := foldl_addMemberModeFast_eq hm
    rw [Member.wiped] at hjoin
    rw [hjoin]

theorem Channel.list_setList (ch : Channel) (lm lm' : ListMode)
    (list : List Ban) :
    (ch.setList lm list).list lm' = if lm' = lm then list else ch.list lm' := by
  cases lm with
  | ban | except | invex => cases lm' <;> rfl

variable {side : SjoinSide}

theorem sjoinItem_entry (hban : LegalBan S.config.bans lm ban)
    (hmax : 1 ≤ S.config.bans.maxbans)
    (hfresh : (Described.entry lm ban).Fresh side s.channel) :
    (sjoinItem S peer side s
        ⟨some (ban.who, ban.when), [lm.letter], ban.banstr⟩).channel =
      (Described.entry lm ban).addTo side s.channel := by
  have hlist : SjoinItem.isList
      ⟨some (ban.who, ban.when), [lm.letter], ban.banstr⟩ = true := by
    cases lm with
    | ban | except | invex => rfl
  rw [sjoinItem, if_pos hlist, sjoinList, addTo]
  by_cases hside : side = .removeTheirs
  · rw [if_pos (.inl hside), if_pos hside]
  · have hany : (s.channel.list lm).any
        (fun b => identicalBan b.banstr ban.banstr) = false := by
      rw [any_eq_false]
      intro b hb
      rw [hfresh hside b hb]
      decide
    have hstored : storedBan ban.banstr ban.who ban.when = ban := by
      rw [storedBan, take_of_length_le hban.banstr_le,
        take_of_length_le hban.who_le]
    have hcut : ban.banstr.take 1023 = ban.banstr :=
      take_of_length_le (hban.banstr_le.trans (by decide))
    rw [if_neg (by simp [hside, hban.valid]), if_neg hside]
    simp only [head?_cons, Option.bind_some, ofLetter_letter, hban.clean,
      hcut, Option.getD_some, addListmodeEx, hany, Bool.false_eq_true,
      if_false, Int.not_lt.mpr hmax, and_false, false_and, or_self, hstored]

theorem sjoinItem_described {d : Described} (hd : d.Usable S peer)
    (hsjsby : peer.sjsby = true) (hfresh : d.Fresh side s.channel) :
    ∃ i, parseItem S.table peer.sjsby (d.text S.table) =
        some i ∧
      (sjoinItem S peer side s i).channel = d.addTo side s.channel := by
  rw [hsjsby]
  cases d with
  | member m =>
    obtain ⟨hm, u, hu, hclient, hdirection⟩ := hd
    have hvalid : validUid m.client = true := hclient ▸ S.valid_ids u hu
    exact ⟨_, parseItem_memberItem hm.ordered hvalid true,
      sjoinItem_member hm hu hclient hdirection side hfresh⟩
  | entry lm ban =>
    obtain ⟨hban, hmax⟩ := hd
    exact ⟨_, parseItem_banItem hban _, sjoinItem_entry hban hmax hfresh⟩

/-- An item leaves room for the others. -/
theorem Described.Fresh.addTo {d d' : Described} {ch : Channel}
    (h : d'.Fresh side ch) (hdistinct : d.Distinct d') :
    d'.Fresh side (d.addTo side ch) := by
  cases d with
  | member m =>
    cases d' with
    | member m' =>
      have hclient : (if side = .removeTheirs then m.wiped else m).client =
          m.client := by
        split
        · rfl
        · rfl
      rw [Fresh, Channel.isMember, Described.addTo, any_cons, hclient,
        Bool.or_eq_false_iff]
      exact ⟨beq_eq_false_iff_ne.mpr hdistinct, h⟩
    | entry lm' ban' => cases lm' <;> exact h
  | entry lm ban =>
    rw [Described.addTo]
    split
    · exact h
    cases d' with
    | member m' =>
      rw [Fresh, Channel.isMember, Channel.members_setList]
      exact h
    | entry lm' ban' =>
      intro hside b hb
      rw [Channel.list_setList] at hb
      split at hb
      · next heq =>
          subst heq
          rcases mem_cons.mp hb with rfl | hb
          · exact hdistinct rfl
          · exact h hside b hb
      · exact h hside b hb

theorem foldl_sjoinItem_described (hsjsby : peer.sjsby = true)
    (husable : ∀ d ∈ ds, d.Usable S peer)
    (hdistinct : ds.Pairwise Described.Distinct)
    (hfresh : ∀ d ∈ ds, d.Fresh side s.channel) :
    (((ds.map (text S.table)).filterMap
        (parseItem S.table peer.sjsby)).foldl
          (sjoinItem S peer side) s).channel =
      ds.foldl (addTo side) s.channel := by
  induction ds generalizing s with
  | nil => rfl
  | cons d ds ih =>
    obtain ⟨hhead, hdistinct⟩ := pairwise_cons.mp hdistinct
    obtain ⟨i, hparse, hitem⟩ := sjoinItem_described
      (husable d (by simp)) hsjsby (hfresh d (by simp))
    rw [map_cons, filterMap_cons_some hparse, foldl_cons, foldl_cons, ← hitem]
    apply ih (fun d' hd' => husable d' (by simp [hd'])) hdistinct
    intro d' hd'
    rw [hitem]
    exact (hfresh d' (by simp [hd'])).addTo (hhead d' hd')

end Effect

/-! ## What all items add to a channel -/

/-- The members among the items. -/
def membersOf (ds : List Described) : List Member :=
  ds.filterMap fun
    | .member m => some m
    | .entry _ _ => none

/-- The entries of a list among the items. -/
def entriesOf (lm : ListMode) (ds : List Described) : List Ban :=
  ds.filterMap fun
    | .member _ => none
    | .entry lm' ban => if lm' = lm then some ban else none

theorem membersOf_append (ds ds' : List Described) :
    membersOf (ds ++ ds') = membersOf ds ++ membersOf ds' :=
  filterMap_append

theorem entriesOf_append (lm : ListMode) (ds ds' : List Described) :
    entriesOf lm (ds ++ ds') = entriesOf lm ds ++ entriesOf lm ds' :=
  filterMap_append

theorem mem_membersOf : m ∈ membersOf ds ↔ .member m ∈ ds := by
  rw [membersOf, mem_filterMap]
  constructor
  · rintro ⟨d, hd, hm⟩
    cases d with
    | member m' =>
      cases hm
      exact hd
    | entry lm ban => cases hm
  · intro hm
    exact ⟨_, hm, rfl⟩

theorem mem_entriesOf : ban ∈ entriesOf lm ds ↔ .entry lm ban ∈ ds := by
  rw [entriesOf, mem_filterMap]
  constructor
  · rintro ⟨d, hd, hban⟩
    cases d with
    | member m' => cases hban
    | entry lm' ban' =>
      simp only [Option.ite_none_right_eq_some, Option.some.injEq] at hban
      obtain ⟨rfl, rfl⟩ := hban
      exact hd
  · intro hban
    exact ⟨_, hban, if_pos rfl⟩

theorem membersOf_described (ch : Channel) :
    membersOf ch.described = ch.members := by
  simp [membersOf, Channel.described, filterMap_append, filterMap_map]

theorem entriesOf_described (ch : Channel) (lm : ListMode) :
    entriesOf lm ch.described = ch.list lm := by
  cases lm with
  | ban | except | invex =>
    simp [entriesOf, Channel.described, filterMap_append,
      filterMap_map, Channel.list]

section Fold

variable (side : SjoinSide) (ds : List Described) (ch : Channel)

theorem members_foldl_addTo :
    (ds.foldl (addTo side) ch).members =
      ((membersOf ds).map fun m =>
        if side = .removeTheirs then m.wiped else m).reverse ++ ch.members := by
  induction ds generalizing ch with
  | nil => rfl
  | cons d ds ih =>
    rw [foldl_cons, ih]
    cases d with
    | member m => simp [membersOf, addTo]
    | entry lm ban =>
      have hmembers : (addTo side ch (.entry lm ban)).members =
          ch.members := by
        rw [addTo]
        split
        · rfl
        · exact ch.members_setList lm _
      rw [hmembers]
      rfl

theorem list_foldl_addTo (lm : ListMode) :
    (ds.foldl (addTo side) ch).list lm =
      if side = .removeTheirs then ch.list lm
      else (entriesOf lm ds).reverse ++ ch.list lm := by
  induction ds generalizing ch with
  | nil => simp [entriesOf]
  | cons d ds ih =>
    rw [foldl_cons, ih]
    cases d with
    | member m =>
      rfl
    | entry lm' ban =>
      rw [addTo]
      by_cases hside : side = .removeTheirs
      · simp only [if_pos hside]
      · simp only [if_neg hside, Channel.list_setList]
        by_cases hlm : lm = lm'
        · subst hlm
          simp [entriesOf]
        · simp [entriesOf, hlm, Ne.symm hlm]

theorem sameModes_foldl_addTo :
    SameModes ch (ds.foldl (addTo side) ch) := by
  induction ds generalizing ch with
  | nil => exact .refl ch
  | cons d ds ih =>
    refine SameModes.trans ?_ (ih _)
    cases d with
    | member m => exact ⟨rfl, rfl, rfl, rfl⟩
    | entry lm ban =>
      rw [addTo]
      split
      · exact .refl ch
      · exact .setList ch lm _

end Fold

end UnrealIrcd.Channels
