import UnrealIrcd.Channels.SjoinTakeover

/-!
# Convergence of channels with different timestamps

Two servers are linked that hold the same channel with different timestamps.
Each sends all of its channel to the other.  Afterwards both hold the channel
of the server with the lower timestamp, with the members of both.  One
difference is made on purpose: a server that takes over `+z` removes its own
users without TLS.
-/

namespace UnrealIrcd.Channels

open Support List
open SjoinMessage (timestamp tokens)
open Channel (described network getParam isMember_eq_false)

/-- A channel that can be described to a peer with the same settings. -/
structure Describable (C : Config) (ch : Channel) : Prop where
  modes : LegalModes C.toParamConfig (ch.network C.table)
  members : MembersOk C.table ch
  entries : ∀ lm, ∀ ban ∈ ch.list lm, LegalBan C.bans lm ban
  distinct : ∀ lm, (ch.list lm).Pairwise fun x y =>
    identicalBan x.banstr y.banstr = false
  maxbans : ∀ lm, ch.list lm ≠ [] → 1 ≤ C.bans.maxbans
  alive : ch.Alive

/-- The channel is that of the winner, with the members of the loser. -/
structure TakenOver (C : ParamConfig) (winner : Channel)
    (losers : List Member) (ch : Channel) : Prop where
  creationtime : ch.creationtime = winner.creationtime
  mode : (ch.network C.table).mode = (winner.network C.table).mode
  params : ∀ c ∈ (winner.network C.table).mode,
    ch.getParam C c = winner.getParam C c
  lists : ∀ lm, (ch.list lm).Perm (winner.list lm)
  members : ch.members.Perm (winner.members ++ losers.map Member.wiped)

section Described

variable {S : Server} {peer : Peer} {ch : Channel}

theorem Describable.usable (h : Describable S.config ch)
    (hreach : S.Reaches peer ch) : ∀ d ∈ ch.described, d.Usable S peer := by
  have hentry : ∀ lm, ∀ ban ∈ ch.list lm,
      (Described.entry lm ban).Usable S peer := fun lm ban hban =>
    ⟨h.entries lm ban hban, h.maxbans lm (ne_nil_of_mem hban)⟩
  intro d hd
  simp only [described, mem_append, mem_map] at hd
  rcases hd with ((⟨m, hm, rfl⟩ | ⟨ban, hban, rfl⟩) | ⟨ban, hban, rfl⟩) |
    ⟨ban, hban, rfl⟩
  · obtain ⟨u, hu, hid, hdirection, -⟩ := hreach m hm
    exact ⟨h.members.wellFormed m hm, u, hu, hid, hdirection⟩
  · exact hentry .ban ban hban
  · exact hentry .except ban hban
  · exact hentry .invex ban hban

theorem Describable.pairwise_described {C : Config} (h : Describable C ch) :
    ch.described.Pairwise Described.Distinct := by
  have hclients : ch.members.Pairwise fun m m' => m.client ≠ m'.client :=
    pairwise_map.mp h.members.nodup
  have hmembers : (ch.members.map Described.member).Pairwise
      Described.Distinct :=
    pairwise_map.mpr hclients
  have hentries : ∀ lm, ((ch.list lm).map (Described.entry lm)).Pairwise
      Described.Distinct := fun lm =>
    pairwise_map.mpr ((h.distinct lm).imp fun hne _ => hne)
  have hcross : ∀ lm lm', lm ≠ lm' → ∀ ban ban' : Ban,
      (Described.entry lm ban).Distinct (.entry lm' ban') :=
    fun lm lm' hne _ _ heq => absurd heq hne
  simp only [described, pairwise_append, mem_append, mem_map]
  refine ⟨⟨⟨hmembers, hentries .ban, ?_⟩, hentries .except, ?_⟩,
    hentries .invex, ?_⟩
  · rintro _ ⟨m, -, rfl⟩ _ ⟨ban, -, rfl⟩
    exact trivial
  · rintro _ (⟨m, -, rfl⟩ | ⟨ban, -, rfl⟩) _ ⟨ban', -, rfl⟩
    · exact trivial
    · exact hcross _ _ (by decide) _ _
  · rintro _ ((⟨m, -, rfl⟩ | ⟨ban, -, rfl⟩) | ⟨ban, -, rfl⟩) _ ⟨ban', -, rfl⟩
    · exact trivial
    · exact hcross _ _ (by decide) _ _
    · exact hcross _ _ (by decide) _ _

theorem membersOf_ne_nil_of_described
    {ds ds' : List Described} (h : ch.described = ds ++ ds') (hne : ds ≠ [])
    (hmembers : ch.members ≠ []) : membersOf ds ≠ [] := by
  obtain ⟨m, ms, hms⟩ := exists_cons_of_ne_nil hmembers
  obtain ⟨d, ds, rfl⟩ := exists_cons_of_ne_nil hne
  rw [described, hms] at h
  simp only [map_cons, cons_append, List.cons.injEq] at h
  rw [← h.1]
  simp [membersOf]

end Described

section Convergence

variable {S : Server} {peer : Peer} (hsjsby : peer.sjsby = true)
  (name : List Char) {winner loser : Channel} {msgs : List SjoinMessage}

include hsjsby

/-- The winner only adds the members of the loser. -/
theorem takenOver_of_lower (hloser : Describable S.config loser)
    (halive : winner.Alive) (hvalid : 1000000 < loser.creationtime)
    (hlt : winner.creationtime < loser.creationtime)
    (hreach : S.Reaches peer loser)
    (hdisjoint : ∀ m ∈ loser.members, winner.isMember m.client = false)
    (hmsgs : IsBurst S.params loser msgs) :
    ∃ ch, receiveBurst S peer name (some winner) msgs = some ch ∧
      TakenOver S.params winner loser.members ch := by
  have haccept : Acceptable S peer .removeTheirs winner loser.described := by
    refine ⟨hloser.usable hreach, hloser.pairwise_described, ?_⟩
    intro d hd
    cases d with
    | member m =>
      apply hdisjoint m
      rw [← membersOf_described]
      exact mem_membersOf.mpr hd
    | entry lm ban => exact fun hside => absurd rfl hside
  have hside : ∀ msg ∈ msgs, ∀ ch' : Channel,
      ch'.creationtime = winner.creationtime →
        sjoinSide false ch' (msg.timestamp ch') = .removeTheirs := by
    intro msg hmsg ch' htime
    have hts : msg.timestamp ch' = loser.creationtime := by
      rw [timestamp, hmsgs.ts msg hmsg,
        if_neg (by simp [isInvalidChannelTS, hvalid])]
    rw [hts, sjoinSide, htime, if_neg (by decide), if_neg (by omega),
      if_pos hlt]
  have hreceive := receiveBurst_items hsjsby name hside (.inl rfl)
    (hmsgs.items.trans (burstItems_eq _ loser)) haccept halive
  have hsame := sameModes_foldl_addTo .removeTheirs loser.described winner
  refine ⟨_, hreceive, hsame.creationtime, ?_, ?_, ?_, ?_⟩
  · rw [network, hsame.mode, network]
  · intro c _
    rw [getParam, hsame.params, getParam]
  · intro lm
    rw [list_foldl_addTo, if_pos rfl]
  · rw [members_foldl_addTo, membersOf_described]
    exact ((reverse_perm _).append_right _).trans perm_append_comm

end Convergence

/-! ## The server with the higher timestamp -/

section Higher

variable {S : Server} {peer : Peer} {winner loser ch : Channel}
  {ds ds' : List Described} (hsplit : winner.described = ds ++ ds')
  (hreach : S.Reaches peer winner) (h : AfterFirst S winner loser.members ds ch)

include hsplit

theorem members_of_split : membersOf ds ++ membersOf ds' = winner.members := by
  rw [← membersOf_append, ← hsplit, membersOf_described]

include hreach h

/-- Only members of the loser are removed. -/
theorem AfterFirst.members_eq :
    ch.members = (membersOf ds).reverse ++
      (loser.members.filter fun m =>
        !(decide ('z' ∈ (winner.network S.table).mode) &&
          S.insecure m.client)).map Member.wiped := by
  rw [h.members, filter_append, filter_map]
  congr 1
  apply filter_eq_self.mpr
  intro m hm
  have hmem : m ∈ winner.members := by
    rw [← members_of_split hsplit]
    simp [mem_reverse.mp hm]
  obtain ⟨u, hu, hid, -, hmy⟩ := hreach m hmem
  simp [← hid, S.not_insecure hu hmy]

theorem AfterFirst.alive (halive : winner.Alive)
    (hfirst : winner.members ≠ [] → ds ≠ []) : ch.Alive := by
  by_cases hnone : winner.members = []
  · have hP := halive.resolve_left (not_not.mpr hnone)
    right
    refine h.flags 'P' (Finset.mem_filter.mpr ⟨hP, ?_⟩)
    intro cm hcm heq
    by_contra hlocal
    exact (local_facts (S.table.mem_all hcm)
      (by simpa using hlocal)).2 (by simp [heq])
  · left
    rw [h.members_eq hsplit hreach]
    simp [membersOf_ne_nil_of_described hsplit (hfirst hnone) hnone]

/-- The other lines can be merged. -/
theorem AfterFirst.acceptable (hwinner : Describable S.config winner)
    (hdisjoint : ∀ m ∈ winner.members, loser.isMember m.client = false) :
    Acceptable S peer .merge ch ds' := by
  have husable := hwinner.usable hreach
  have hdistinct := hwinner.pairwise_described
  rw [hsplit] at husable hdistinct
  obtain ⟨-, hdistinct', hcross⟩ := pairwise_append.mp hdistinct
  refine ⟨fun d hd => husable d (by simp [hd]), hdistinct', ?_⟩
  intro d hd
  cases d with
  | member m =>
    have hmem : m ∈ winner.members := by
      rw [← members_of_split hsplit]
      simp [mem_membersOf.mpr hd]
    have hout := isMember_eq_false.mp (hdisjoint m hmem)
    rw [Described.Fresh, isMember_eq_false, h.members_eq hsplit hreach]
    intro m' hm'
    rcases mem_append.mp hm' with hm' | hm'
    · have hin := mem_membersOf.mp (mem_reverse.mp hm')
      exact hcross _ hin _ hd
    · obtain ⟨m'', hm'', rfl⟩ := mem_map.mp hm'
      exact hout m'' (mem_of_mem_filter hm'')
  | entry lm ban =>
    intro _ b hb
    rw [h.lists] at hb
    exact hcross _ (mem_entriesOf.mp (mem_reverse.mp hb)) _ hd rfl

/-- With the items of the other lines the channel is that of the winner. -/
theorem AfterFirst.takenOver
    (hmodes : LegalModes S.params (winner.network S.table)) :
    TakenOver S.params winner
      (loser.members.filter fun m =>
        !(decide ('z' ∈ (winner.network S.table).mode) &&
          S.insecure m.client))
      (ds'.foldl (Described.addTo .merge) ch) := by
  have hsame := sameModes_foldl_addTo .merge ds' ch
  refine ⟨hsame.creationtime.trans h.creationtime, ?_, ?_, ?_, ?_⟩
  · rw [network, hsame.mode]
    exact h.mode
  · intro c hc
    rw [getParam, hsame.params, getParam]
    rcases hmodes.isParam_of_mem hc with hparam | hnone
    · rw [h.params c hc hparam]
    · rw [hnone]
      rfl
  · intro lm
    rw [list_foldl_addTo, if_neg (by decide), h.lists, ← reverse_append,
      ← entriesOf_append, ← hsplit, entriesOf_described]
    exact reverse_perm _
  · have hmap : (membersOf ds').map (fun m => if SjoinSide.merge =
        .removeTheirs then m.wiped else m) = membersOf ds' := by
      simp
    rw [members_foldl_addTo, hmap, h.members_eq hsplit hreach, ← append_assoc,
      ← reverse_append, members_of_split hsplit]
    exact (reverse_perm _).append_right _

end Higher

/-- The loser takes over the channel of the winner. -/
theorem takenOver_of_higher {S : Server} {peer : Peer}
    (hsjsby : peer.sjsby = true) (name : List Char) {winner loser : Channel}
    {msgs : List SjoinMessage} (hwinner : Describable S.config winner)
    (hsecret : ¬ winner.PrivateAndSecret)
    (hloser : LegalModes S.params (loser.network S.table))
    (hname : winner.name.map Char.toLower = loser.name.map Char.toLower)
    (hvalid : 1000000 < winner.creationtime)
    (hlt : winner.creationtime < loser.creationtime)
    (hreach : S.Reaches peer winner)
    (hdisjoint : ∀ m ∈ winner.members, loser.isMember m.client = false)
    (hmsgs : IsBurst S.params winner msgs) :
    ∃ ch, receiveBurst S peer name (some loser) msgs = some ch ∧
      TakenOver S.params winner
        (loser.members.filter fun m =>
          !(decide ('z' ∈ (winner.network S.table).mode) &&
            S.insecure m.client)) ch := by
  have husable := hwinner.usable hreach
  have hdistinct := hwinner.pairwise_described
  obtain ⟨⟨⟨first, rest, rfl, hfirst, hrest⟩, hts⟩, hitems, hsome⟩ := hmsgs
  rw [flatMap_cons, burstItems_eq, eq_comm, map_eq_append_iff] at hitems
  obtain ⟨ds, ds', hsplit, hhead, htail⟩ := hitems
  rw [hsplit] at husable hdistinct
  obtain ⟨ch, hch, hafter⟩ :=
    cmdSjoin_removeOurs hwinner.modes hname hsjsby name hsecret hloser hvalid
      hlt (hts first (by simp)) hfirst hhead.symm
      (fun d hd => husable d (by simp [hd])) (pairwise_append.mp hdistinct).1
      (by
        intro m hm
        apply hdisjoint m
        rw [← members_of_split hsplit]
        simp [hm])
  have halive : ch.Alive := hafter.alive hsplit hreach hwinner.alive (by
    rintro hsome' rfl
    exact hsome hsome' first rfl hhead.symm)
  -- the other lines come with the timestamp that the channel has now
  have hside : ∀ msg ∈ rest, ∀ ch' : Channel,
      ch'.creationtime = ch.creationtime →
        sjoinSide false ch' (msg.timestamp ch') = .merge := by
    intro msg hmsg ch' htime
    have hts' : msg.timestamp ch' = ch'.creationtime := by
      rw [timestamp, hts msg (by simp [hmsg]), htime, hafter.creationtime,
        ite_self]
    simp [hts', sjoinSide]
  have hreceive := receiveBurst_items hsjsby name hside (.inr ⟨rfl, hrest⟩)
    htail.symm (hafter.acceptable hsplit hreach hwinner hdisjoint) halive
  refine ⟨_, ?_, hafter.takenOver hsplit hreach hwinner.modes⟩
  rw [receiveBurst, foldl_cons, hch, destroyIfEmpty_of_alive halive]
  exact hreceive

/-! ## The lines of the sender -/

/-- No item is lost between the lines, and the first line keeps its items. -/
theorem packItems_tokens {len' len : ℕ} {sent : Bool} {line : SjoinMessage}
    {done items : List (List Char)}
    (hline : line.items = done.flatMap (· ++ [' ']))
    (hdone : ∀ w ∈ done, IsWord w) (hitems : ∀ w ∈ items, IsWord w) :
    (packItems len' sent len line items).flatMap tokens =
        done ++ items ∧
      (done ≠ [] → ∀ msg ∈ (packItems len' sent len line items).head?,
        msg.tokens ≠ []) := by
  have htokens : line.tokens = done := by
    rw [tokens, hline, strtokens_words hdone]
  induction items generalizing len sent line done with
  | nil =>
    rw [packItems, append_nil]
    split
    · simp [htokens]
    · next hsent =>
        have hnil : done = [] := by
          by_contra hne
          obtain ⟨w, done, rfl⟩ := exists_cons_of_ne_nil hne
          exact hsent (.inl (by simp [hline]))
        simp [hnil]
  | cons item items ih =>
    obtain ⟨hitem, hrest⟩ := forall_mem_cons.mp hitems
    rw [packItems]
    split
    · have hsingle : ∀ w ∈ [item], IsWord w := by simpa using hitem
      obtain ⟨hlines, -⟩ := @ih len' true ⟨line.ts, none, item ++ [' ']⟩
        [item] (by simp) hsingle hrest
        (by
          rw [tokens]
          simpa using strtokens_words hsingle)
      rw [flatMap_cons, htokens, hlines]
      refine ⟨by simp, ?_⟩
      intro hne msg hmsg
      cases hmsg
      rwa [htokens]
    · have hmore : ∀ w ∈ done ++ [item], IsWord w :=
        forall_mem_append.mpr ⟨hdone, forall_mem_singleton.mpr hitem⟩
      have hline' : line.items ++ (item ++ [' ']) =
          (done ++ [item]).flatMap (· ++ [' ']) := by
        simp [hline]
      obtain ⟨hlines, hfirst⟩ := @ih len sent
        { line with items := line.items ++ (item ++ [' ']) }
        (done ++ [item]) hline' hmore hrest
        (by rw [tokens, hline', strtokens_words hmore])
      refine ⟨by rw [hlines]; simp, fun _ => hfirst (by simp)⟩

/-- The letters of a member come as signs, and the id has no space. -/
theorem memberItem_word {T : ModeTable} {m : Member}
    (hm : StatusOrdered T m.memberModes) (hid : validUid m.client = true) :
    memberItem T m ≠ [] ∧ ' ' ∉ memberItem T m ∧
      (memberItem T m).length ≤ 17 := by
  obtain ⟨c, cs, hc, -, hlen, hchars⟩ := validUid_spec hid
  have hmodes := hm.length_le
  rw [memberItem, modesToSjoinPrefix_eq hm.isStatus (hmodes.trans (by decide))]
  refine ⟨by simp [hc], ?_, ?_⟩
  · intro hspace
    rcases mem_append.mp hspace with hspace | hspace
    · obtain ⟨a, ha, heq⟩ := mem_map.mp hspace
      have hsign := (signOf_spec (hm.isStatus a ha)).2.2.1
      rw [heq] at hsign
      exact absurd hsign (by decide)
    · exact absurd (hchars ' ' hspace) (by decide)
  · rw [length_append, length_map]
    have hidlen : idlen = 12 := rfl
    omega

theorem banItem_word {C : BanConfig} {lm : ListMode} {ban : Ban}
    (h : LegalBan C lm ban) (sign : Char) (hsign : sign ≠ ' ') :
    banItem true sign ban ≠ [] ∧ ' ' ∉ banItem true sign ban := by
  have hnumber := not_mem_decimal ban.when (show ' ' ∈ _ by simp)
  refine ⟨by simp [banItem], ?_⟩
  simp [banItem, addSjsby, hnumber, h.who_word.1, h.banstr_word, Ne.symm hsign]

theorem Describable.burstItems_word {C : Config} {ch : Channel}
    (h : Describable C ch) (hids : ∀ m ∈ ch.members, validUid m.client = true) :
    ∀ w ∈ burstItems C.table true ch, IsWord w := by
  intro w hw
  simp only [burstItems, mem_append, mem_map] at hw
  rcases hw with ((⟨m, hm, rfl⟩ | ⟨ban, hban, rfl⟩) | ⟨ban, hban, rfl⟩) |
    ⟨ban, hban, rfl⟩
  · have hword := memberItem_word (h.members.wellFormed m hm).ordered
      (hids m hm)
    exact ⟨hword.1, hword.2.1⟩
  · exact banItem_word (h.entries .ban ban hban) _ (by decide)
  · exact banItem_word (h.entries .except ban hban) _ (by decide)
  · exact banItem_word (h.entries .invex ban hban) _ (by decide)

/-- The text in front of the items leaves room for a member. -/
theorem LegalModes.length_sjoinHead_le {C : ParamConfig} {ch : Channel}
    (h : LegalModes C (ch.network C.table)) {id : List Char}
    (hid : id.length ≤ idlen) (hname : ch.name.length ≤ 32)
    (hts : 0 ≤ ch.creationtime) (hts' : ch.creationtime < 2 ^ 63) :
    (sjoinHead id ch.name (burstStart C ch)).length ≤ 367 := by
  have hdecimal : (decimal ch.creationtime).length ≤ 19 := by
    obtain ⟨n, hn⟩ := Int.eq_ofNat_of_zero_le hts
    rw [hn] at hts' ⊢
    exact length_decimal_le (by decide) (by omega)
  have hsum := h.sum_shownTexts_le
  have hletters : (shownLetters C (ch.network C.table)).length ≤ 35 := by
    rw [shownLetters, length_map]
    exact (shownModes_sublist C _).length_le
  have hparams : ∀ texts : List (List Char),
      (texts.flatMap (' ' :: ·)).length =
        (texts.map fun p => p.length + 1).sum := by
    intro texts
    rw [length_flatMap]
    rfl
  have hidlen : idlen = 12 := rfl
  have hstart : (burstStart C ch).ts = ch.creationtime := rfl
  have hword : " SJOIN ".toList.length = 7 := rfl
  have hcolon : " :".toList.length = 2 := rfl
  have hmodes := h.burstStart_modes
  rw [burstStart_network] at hmodes
  split at hmodes
  · simp only [sjoinHead, hmodes, hstart, length_cons,
      length_append, length_nil, hword, hcolon]
    omega
  · simp only [sjoinHead, hmodes, hstart, cons_append, length_cons,
      length_append, hparams, hword, hcolon]
    omega

/-- The lines that the sender builds describe the channel. -/
theorem isBurst_sendChannelModesSjoin3 {C : Config} {ch : Channel}
    (h : Describable C ch) (hids : ∀ m ∈ ch.members, validUid m.client = true)
    (id : List Char) (hid : id.length ≤ idlen)
    (hhash : ch.name.head? = some '#') (hname : ch.name.length ≤ 32)
    (hts : 0 ≤ ch.creationtime) (hts' : ch.creationtime < 2 ^ 63) :
    IsBurst C.toParamConfig ch
      (sendChannelModesSjoin3 C.toParamConfig id true ch) := by
  have hwords := h.burstItems_word hids
  have hhead := h.modes.length_sjoinHead_le hid hname hts hts'
  have hmodes := describesModes_sendChannelModesSjoin3 C.toParamConfig id true
    hhash
  rw [sendChannelModesSjoin3, if_neg (not_not.mpr hhash)] at hmodes ⊢
  refine ⟨hmodes, ?_, ?_⟩
  · exact (packItems_tokens (show _ = [].flatMap _ from rfl) (by simp)
      hwords).1
  · intro hmembers
    obtain ⟨m, ms, hms⟩ := exists_cons_of_ne_nil hmembers
    have hm : m ∈ ch.members := by simp [hms]
    have hword := memberItem_word (h.members.wellFormed m hm).ordered
      (hids m hm)
    have hitems : ∃ items, burstItems C.table true ch =
        memberItem C.table m :: items := by
      rw [burstItems, hms]
      exact ⟨_, rfl⟩
    obtain ⟨items, hitems⟩ := hitems
    rw [hitems] at hwords ⊢
    -- The first member fits into the first line.
    have hline : (burstStart C.toParamConfig ch).items ++
        (memberItem C.table m ++ [' ']) =
          [memberItem C.table m].flatMap (· ++ [' ']) := by
      simp [burstStart]
    have hfirst : ∀ len' len, ∀ msg ∈ (packItems len' false len
        { burstStart C.toParamConfig ch with
          items := (burstStart C.toParamConfig ch).items ++
            (memberItem C.table m ++ [' ']) } items).head?,
        msg.tokens ≠ [] := fun len' len =>
      (packItems_tokens hline (by simpa using ⟨hword.1, hword.2.1⟩)
        (fun w hw => hwords w (by simp [hw]))).2 (by simp)
    rw [packItems, if_neg]
    · exact hfirst _ _
    · have hlen := hword.2.2
      have hbufsize : bufsize = 512 := rfl
      simp only [burstStart, length_append, length_cons, length_nil] at hhead ⊢
      omega

/-! ## Both servers -/

/-- Two servers with the same configuration hold the same channel with
different timestamps.  After each has processed the lines of the other, both
hold the channel of the lower timestamp with the members of both, except that
the server with the higher timestamp removes its users without TLS if it takes
over `+z`. -/
theorem takenOver_receiveBurst
    (A B : Server) (hconfig : B.config = A.config) (peerA peerB : Peer)
    (hsjsbyA : peerA.sjsby = true) (hsjsbyB : peerB.sjsby = true)
    (name : List Char) (a b : Channel)
    (hname : a.name.map Char.toLower = b.name.map Char.toLower)
    (hvalid : isInvalidChannelTS a.creationtime = false)
    (hlt : a.creationtime < b.creationtime)
    (ha : Describable A.config a) (hb : Describable A.config b)
    (hsecret : ¬ a.PrivateAndSecret)
    (hreachA : A.Reaches peerB b) (hreachB : B.Reaches peerA a)
    (hdisjoint : ∀ m ∈ a.members, ∀ m' ∈ b.members, m.client ≠ m'.client)
    (msgsA msgsB : List SjoinMessage)
    (hmsgsA : IsBurst A.config.toParamConfig a msgsA)
    (hmsgsB : IsBurst A.config.toParamConfig b msgsB) :
    ∃ a' b', receiveBurst A peerB name (some a) msgsB = some a' ∧
      receiveBurst B peerA name (some b) msgsA = some b' ∧
      TakenOver A.config.toParamConfig a b.members a' ∧
      TakenOver A.config.toParamConfig a
        (b.members.filter fun m =>
          !(decide ('z' ∈ (a.network A.config.table).mode) &&
            B.insecure m.client)) b' := by
  have hvalid' : 1000000 < a.creationtime := by
    simpa [isInvalidChannelTS] using hvalid
  obtain ⟨a', hreceive, htaken⟩ := takenOver_of_lower hsjsbyB name hb ha.alive
    (hvalid'.trans hlt) hlt hreachA (by
      intro m hm
      rw [isMember_eq_false]
      exact fun m' hm' => hdisjoint m' hm' m hm) hmsgsB
  rw [← hconfig] at ha hb hmsgsA ⊢
  obtain ⟨b', hreceive', htaken'⟩ := takenOver_of_higher hsjsbyA name ha
    hsecret hb.modes hname hvalid' hlt hreachB (by
      intro m hm
      rw [isMember_eq_false]
      exact fun m' hm' => (hdisjoint m hm m' hm').symm) hmsgsA
  exact ⟨a', b', hreceive, hreceive', hconfig ▸ htaken, htaken'⟩

def sampleBan (c : Char) : Ban :=
  ⟨"*!*@".toList ++ replicate 60 c, "local".toList, 1600000100⟩

def sampleHosts : List Char := ['a', 'b', 'c', 'd', 'e', 'f']

theorem legalBan_sampleBan (lm : ListMode) {c : Char} (hc : c ∈ sampleHosts) :
    LegalBan sampleConfig.bans lm (sampleBan c) := by
  have hall : (sampleHosts.all fun c =>
      (cleanBanMask sampleConfig.bans ⟨.add, lm, false⟩ (sampleBan c).banstr ==
        some (sampleBan c).banstr) && validListItem (sampleBan c).banstr &&
      decide (' ' ∉ (sampleBan c).banstr) &&
      decide ((sampleBan c).banstr.length ≤ maxbanlen)) = true := by
    cases lm <;> decide +kernel
  have hban := all_eq_true.mp hall c hc
  simp only [Bool.and_eq_true, beq_iff_eq, decide_eq_true_eq] at hban
  obtain ⟨⟨⟨hclean, hvalid⟩, hword⟩, hle⟩ := hban
  have hwho : (sampleBan c).who = "local".toList := rfl
  have hwhen : (sampleBan c).when = 1600000100 := rfl
  refine ⟨hclean, hvalid, hword, hle, ?_, ?_, ?_⟩
  · rw [hwho]
    decide
  · rw [hwho]
    decide
  · rw [hwhen]
    decide

/-- Channels with a key, members with letters, and some of these entries. -/
theorem describable_of_key {ch : Channel} {key : List Char}
    (hmode : ∀ c ∈ ch.mode, ∃ cm ∈ allChannelmodes, cm.letter = c ∧
      cm.isLocal = false ∧ cm.type ≠ .member ∧ (cm.paracount ≠ 0 → c = 'k'))
    (hkey : ch.params 'k' = some (.key key)) (hne : key ≠ [])
    (hvalid : isValidKey key = true)
    (hmembers : MembersOk ModeTable.full ch) (hsome : ch.members ≠ [])
    (hlists : ∀ lm, ∃ cs : List Char, cs <+ sampleHosts ∧
      ch.list lm = cs.map sampleBan) : Describable sampleConfig ch := by
  refine ⟨legalModes_of_key ?_ hkey hne hvalid, hmembers, ?_, ?_, ?_,
    .inl hsome⟩
  · exact fun c hc => hmode c (Finset.mem_filter.mp hc).1
  · intro lm ban hban
    obtain ⟨cs, hcs, hlist⟩ := hlists lm
    rw [hlist] at hban
    obtain ⟨c, hc, rfl⟩ := mem_map.mp hban
    exact legalBan_sampleBan lm (hcs.subset hc)
  · intro lm
    obtain ⟨cs, hcs, hlist⟩ := hlists lm
    have hdistinct : (sampleHosts.map sampleBan).Pairwise fun x y =>
        identicalBan x.banstr y.banstr = false := by
      decide +kernel
    rw [hlist]
    exact hdistinct.sublist (hcs.map sampleBan)
  · intro lm _
    decide

/-- A channel with a key, an operator and six bans. -/
def sampleWinner : Channel :=
  { sampleChannel "001AAA" {'k', 'n', 't'} (some ('k', .key "key".toList)) with
    members := [⟨"001AAA".toList, ['o'], ['o']⟩]
    banlist := sampleHosts.map sampleBan }

/-- A younger channel with another key, two members with letters and an
exception. -/
def sampleLoser : Channel :=
  { sampleChannel "002AAA" {'k', 's'} (some ('k', .key "other".toList)) with
    creationtime := 1650000000
    members := [⟨"002AAA".toList, ['o'], ['o']⟩, ⟨"002AAB".toList, ['v'], ['v']⟩]
    exlist := [sampleBan 'a'] }

theorem describable_sampleWinner : Describable sampleConfig sampleWinner := by
  refine describable_of_key ?_ rfl (by decide) (by decide) ⟨?_, ?_⟩
    (cons_ne_nil _ _) ?_
  · simp only [sampleWinner, sampleChannel, Finset.forall_mem_insert,
      Finset.mem_singleton, forall_eq]
    decide
  · exact nodup_singleton _
  · intro m hm
    rw [mem_singleton.mp hm]
    exact ⟨rfl, forall_mem_singleton.mpr (by decide), pairwise_singleton _ _⟩
  · intro lm
    cases lm with
    | ban => exact ⟨_, .refl _, rfl⟩
    | except | invex => exact ⟨[], nil_sublist _, rfl⟩

theorem describable_sampleLoser : Describable sampleConfig sampleLoser := by
  refine describable_of_key ?_ rfl (by decide) (by decide) ⟨by decide, ?_⟩
    (cons_ne_nil _ _) ?_
  · simp only [sampleLoser, sampleChannel, Finset.forall_mem_insert,
      Finset.mem_singleton, forall_eq]
    decide
  · intro m hm
    obtain rfl | hm := mem_cons.mp hm
    · exact ⟨rfl, forall_mem_singleton.mpr (by decide), pairwise_singleton _ _⟩
    · rw [mem_singleton.mp hm]
      exact ⟨rfl, forall_mem_singleton.mpr (by decide), pairwise_singleton _ _⟩
  · intro lm
    cases lm with
    | except => exact ⟨['a'], by decide, rfl⟩
    | ban | invex => exact ⟨[], nil_sublist _, rfl⟩

/-- The operator, the key and the bans of the older channel, which come in two
lines, are taken over. -/
theorem takenOver_sample :
    (sendChannelModesSjoin3 sampleConfig.toParamConfig "001".toList true
        sampleWinner).length = 2 ∧
      ∃ a' b', receiveBurst sampleServer (samplePeer "hub") "#test".toList
          (some sampleWinner)
          (sendChannelModesSjoin3 sampleConfig.toParamConfig "002".toList true
            sampleLoser) = some a' ∧
        receiveBurst sampleHub (samplePeer "leaf") "#test".toList
          (some sampleLoser)
          (sendChannelModesSjoin3 sampleConfig.toParamConfig "001".toList true
            sampleWinner) = some b' ∧
        TakenOver sampleConfig.toParamConfig sampleWinner sampleLoser.members
          a' ∧
        TakenOver sampleConfig.toParamConfig sampleWinner sampleLoser.members
          b' := by
  refine ⟨by decide +kernel, ?_⟩
  exact takenOver_receiveBurst sampleServer sampleHub rfl (samplePeer "leaf")
    (samplePeer "hub") rfl rfl "#test".toList sampleWinner sampleLoser rfl
    (by decide) (by decide) describable_sampleWinner describable_sampleLoser
    (by decide) (by decide) (by decide) (by decide) _ _
    (isBurst_sendChannelModesSjoin3 describable_sampleWinner (by decide)
      "001".toList (by decide) (by decide) (by decide) (by decide) (by decide))
    (isBurst_sendChannelModesSjoin3 describable_sampleLoser (by decide)
      "002".toList (by decide) (by decide) (by decide) (by decide) (by decide))

/-- A server that takes over `+z` removes its user without TLS, and its peer
does not. -/
theorem receiveBurst_secureonly :
    (receiveBurst sampleServer (samplePeer "hub") "#test".toList
        (some (sampleChannel "001AAA" {'z'} none))
        (sendChannelModesSjoin3 sampleConfig.toParamConfig "002".toList true
          { sampleChannel "002AAB" ∅ none with
            creationtime := 1650000000 })).map Channel.members =
        some [⟨"002AAB".toList, [], []⟩, ⟨"001AAA".toList, [], []⟩] ∧
      (receiveBurst sampleHub (samplePeer "leaf") "#test".toList
        (some { sampleChannel "002AAB" ∅ none with
          creationtime := 1650000000 })
        (sendChannelModesSjoin3 sampleConfig.toParamConfig "001".toList true
          (sampleChannel "001AAA" {'z'} none))).map Channel.members =
        some [⟨"001AAA".toList, [], []⟩] := by
  decide +kernel

end UnrealIrcd.Channels
