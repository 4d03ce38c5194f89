import UnrealIrcd.Channels.SjoinItems

/-!
# Channels with different timestamps

Two servers hold the same channel with different timestamps.  The server with
the higher one takes its modes, list entries and status letters away and takes
over those of its peer, line by line.  Its peer only adds the members.
-/

namespace UnrealIrcd.Channels

open Support List
open Described (addTo text)

/-! ## Modes of the network -/

/-- The channel without the modes that are local to its server. -/
def Channel.network (T : ModeTable) (ch : Channel) : Channel :=
  { ch with
    mode := ch.mode.filter fun c =>
      ∀ cm ∈ T.channelmodes, cm.letter = c → cm.isLocal = false }

section Network

variable {C : ParamConfig} {ch : Channel}

theorem shownModes_network :
    shownModes C (ch.network C.table) = shownModes C ch := by
  apply filter_congr
  intro cm hcm
  have hiff : cm.letter ∈ (ch.network C.table).mode ∧ cm.isLocal = false ↔
      cm.letter ∈ ch.mode ∧ cm.isLocal = false := by
    rw [Channel.network, Finset.mem_filter]
    constructor
    · rintro ⟨⟨hletter, -⟩, hlocal⟩
      exact ⟨hletter, hlocal⟩
    · rintro ⟨hletter, hlocal⟩
      refine ⟨⟨hletter, ?_⟩, hlocal⟩
      intro cm' hcm' heq
      rwa [C.table.eq_of_letter hcm' hcm heq]
  rw [Bool.eq_iff_iff]
  simp only [Bool.and_eq_true, Bool.not_eq_true', decide_eq_true_eq]
  rw [and_comm, hiff, and_comm]

theorem shownLetters_network :
    shownLetters C (ch.network C.table) = shownLetters C ch := by
  rw [shownLetters, shownModes_network, shownLetters]

theorem channelModes_network :
    channelModes C (ch.network C.table) = channelModes C ch := by
  simp only [channelModes, shownModes_network]
  rfl

/-- Local modes are not sent. -/
theorem burstStart_network :
    burstStart C (ch.network C.table) = burstStart C ch := by
  simp only [burstStart, channelModes_network]
  rfl

end Network

/-- Flags that are local to the server. -/
def OnlyLocal (T : ModeTable) (mode : Finset Char) : Prop :=
  ∀ c ∈ mode, ∃ cm ∈ T.channelmodes, cm.letter = c ∧ cm.isLocal = true

/-! ## Taking our modes away -/

/-- The flags after `-letters`.  Without `+i` there is no `+K`. -/
def delFlags (mode : Finset Char) (letters : List Char) : Finset Char :=
  letters.foldl (fun mode c => modecharDel (mode.erase c) c) mode

variable {mode : Finset Char}

theorem mem_delFlags {letters : List Char} {c : Char} :
    c ∈ delFlags mode letters ↔
      c ∈ mode ∧ c ∉ letters ∧ ¬ (c = 'K' ∧ 'i' ∈ letters) := by
  induction letters generalizing mode with
  | nil => simp [delFlags]
  | cons d letters ih =>
    have hcons : delFlags mode (d :: letters) =
        delFlags (modecharDel (mode.erase d) d) letters := rfl
    have hstep : c ∈ modecharDel (mode.erase d) d ↔
        c ∈ mode ∧ c ≠ d ∧ ¬ (c = 'K' ∧ 'i' = d) := by
      unfold modecharDel
      split
      · next hd => simp [hd]; tauto
      · next hd => simp [Ne.symm hd]; tauto
    rw [hcons, ih, hstep]
    simp only [mem_cons, not_or]
    tauto

section Removal

variable (S : Server) (peer : Peer)

theorem delParamMode_spec {cm : Cmode} (hi : cm.letter ≠ 'i') (ch : Channel)
    (pvar : List ModeChange) :
    ∃ params, (delParamMode S cm ch pvar).1 =
        { ch with
          mode := modecharDel (ch.mode.erase cm.letter) cm.letter
          params := params } ∧
      (delParamMode S cm ch pvar).2.length ≤
        pvar.length + cm.paracountFor .del := by
  unfold delParamMode
  split
  · next hmem =>
      refine ⟨ch.params, ?_, Nat.le_add_right _ _⟩
      rw [modecharDel, if_neg hi, Finset.erase_eq_of_notMem hmem]
  · obtain ⟨params, hfree⟩ := freeParam_eq S.params
      (ch.delFlag cm.letter) cm.letter
    refine ⟨params, hfree, ?_⟩
    split
    · next hunset =>
        have hcount : cm.paracountFor .del = 1 := by
          simp [Cmode.paracountFor, hunset]
        rw [hcount]
        exact length_doModeCharWrite_le ..
    · exact Nat.le_add_right _ _

theorem doExtmodeChar_del {cm : Cmode} (hcm : cm ∈ allChannelmodes)
    (hlocal : cm.isLocal = false) (htype : cm.type ≠ .member) (ch : Channel)
    {pvar : List ModeChange} {args : List (List Char)}
    (hargs : cm.unsetWithParam = true → args ≠ [] ∧ pvar.length < maxmodeparams)
    (hpvar : ∀ change ∈ pvar, change.letter ≠ cm.letter) :
    ∃ params pvar', doExtmodeChar S peer.requester cm .del ⟨ch, pvar, args⟩ =
        ⟨{ ch with
            mode := modecharDel (ch.mode.erase cm.letter) cm.letter
            params := params }, pvar', args.drop (cm.paracountFor .del)⟩ ∧
      pvar'.length ≤ pvar.length + cm.paracountFor .del := by
  have hany : pvar.any (·.letter == cm.letter) = false := by
    simpa using hpvar
  have hguard : ¬ (cm.paracountFor .del ≠ 0 ∧
      (args = [] ∨ maxmodeparams ≤ pvar.length)) := by
    rintro ⟨hpara, hfull⟩
    have hunset : cm.unsetWithParam = true := by
      by_contra hunset
      exact hpara (by simp [Cmode.paracountFor, hunset])
    obtain ⟨hne, hlt⟩ := hargs hunset
    rcases hfull with hnil | hle
    · exact hne hnil
    · omega
  rw [doExtmodeChar]
  simp only [if_neg hguard, hlocal, Bool.false_eq_true, false_and, if_false,
    htype, hany]
  by_cases hpara : cm.paracount = 0
  · refine ⟨ch.params, pvar, ?_, Nat.le_add_right _ _⟩
    simp only [hpara, ne_eq, not_true, if_false]
    rfl
  · obtain ⟨hp, hs, hr, hi⟩ := param_letter_facts hcm hpara
    obtain ⟨params, hchannel, hlen⟩ := delParamMode_spec S hi ch pvar
    refine ⟨params, _, ?_, hlen⟩
    simp only [hpara, ne_eq, not_false_eq_true, if_true, ← hchannel]
    rfl

/-- The loop over the modes that are unset.  Each of them that takes a
parameter finds one. -/
theorem setModeLoop_del {cms : List Cmode}
    (hsub : cms.Sublist S.table.channelmodes)
    (hnormal : ∀ cm ∈ cms, cm.isLocal = false ∧ cm.type ≠ .member)
    {ch : Channel} {pvar : List ModeChange} {args : List (List Char)}
    (hargs : (cms.filter (·.unsetWithParam)).length ≤ args.length)
    (hroom : pvar.length + (cms.filter (·.unsetWithParam)).length ≤
      maxmodeparams)
    (hfresh : ∀ change ∈ pvar, ∀ cm ∈ cms, change.letter ≠ cm.letter) :
    ∃ params, (setModeLoop S peer.requester .del (cms.map Cmode.letter)
        ⟨ch, pvar, args⟩).channel =
      { ch with
        mode := delFlags ch.mode (cms.map Cmode.letter)
        params := params } := by
  induction cms generalizing ch pvar args with
  | nil => exact ⟨ch.params, rfl⟩
  | cons cm cms ih =>
    have hmem : cm ∈ S.table.channelmodes := hsub.subset (by simp)
    obtain ⟨hlocal, htype⟩ := hnormal cm (by simp)
    obtain ⟨-, hplus, hminus, -⟩ := letter_facts (S.table.mem_all hmem)
    have hne : ∀ cm' ∈ cms, cm.letter ≠ cm'.letter := by
      have hnodup := (hsub.map Cmode.letter).nodup
        S.table.nodup_letters
      rw [map_cons, nodup_cons] at hnodup
      intro cm' hcm' heq
      exact hnodup.1 (mem_map.mpr ⟨cm', hcm', heq.symm⟩)
    have hcount : (List.filter (·.unsetWithParam) (cm :: cms)).length =
        cm.paracountFor .del + (cms.filter (·.unsetWithParam)).length := by
      rw [filter_cons, Cmode.paracountFor]
      split
      · rw [length_cons, Nat.add_comm]
      · rw [Nat.zero_add]
    rw [hcount] at hargs hroom
    have hchange := (doExtmodeChar_step S peer.requester hmem .del
      ⟨ch, pvar, args⟩).pvar
    obtain ⟨params, pvar', hstep, hlen⟩ := doExtmodeChar_del S peer
      (S.table.mem_all hmem) hlocal htype ch
      (show cm.unsetWithParam = true → args ≠ [] ∧ _ by
        intro hunset
        have hone : cm.paracountFor .del = 1 := by
          simp [Cmode.paracountFor, hunset]
        refine ⟨?_, by omega⟩
        rintro rfl
        rw [length_nil] at hargs
        omega)
      (fun change hmem => hfresh change hmem cm (by simp))
    rw [hstep] at hchange
    obtain ⟨params', hrest⟩ := @ih
      ((sublist_cons_self cm cms).trans hsub)
      (fun cm' hcm' => hnormal cm' (by simp [hcm']))
      { ch with
        mode := modecharDel (ch.mode.erase cm.letter) cm.letter
        params := params }
      pvar' (args.drop (cm.paracountFor .del))
      (by rw [length_drop]; omega) (by omega)
      (by
        intro change hmem cm' hcm'
        rcases hchange change hmem with hold | hnew
        · exact hfresh change hold cm' (by simp [hcm'])
        · rw [hnew]
          exact hne cm' hcm')
    refine ⟨params', ?_⟩
    rw [map_cons, setModeLoop, if_neg hplus, if_neg hminus,
      setModeChar_of_mem S peer hmem, hstep, hrest]
    rfl

/-- A channel whose modes are taken away keeps the local ones. -/
theorem removeOurModes_eq {ch : Channel}
    (hch : LegalModes S.params (ch.network S.table)) :
    ∃ mode params, (removeOurModes S peer ch).1 =
        { ch with mode := mode, params := params } ∧
      OnlyLocal S.table mode := by
  have hlocal : ∀ mode : Finset Char, mode ⊆ ch.mode →
      (∀ c ∈ mode, c ∉ shownLetters S.params ch) →
      OnlyLocal S.table mode := by
    intro mode hsub hhidden c hc
    by_contra hnone
    apply hhidden c hc
    rw [← shownLetters_network, hch.mem_shownLetters, Channel.network, Finset.mem_filter]
    refine ⟨hsub hc, ?_⟩
    intro cm hcm heq
    by_contra hlocal
    exact hnone ⟨cm, hcm, heq, by simpa using hlocal⟩
  have hline : (channelModes S.params ch).modeline.drop 1 =
      shownLetters S.params ch := rfl
  unfold removeOurModes
  simp only [hline]
  split
  · next hempty =>
      refine ⟨ch.mode, ch.params, rfl, hlocal _ (Finset.Subset.refl _) ?_⟩
      have hnil : shownLetters S.params ch = [] := by
        simpa [emptyMode] using hempty
      simp [hnil]
  · have hshown := @shownModes_network S.params ch
    have hargs : ((shownModes S.params ch).filter (·.unsetWithParam)).length ≤
        (mp2parv (channelModes S.params ch).paramline).length := by
      have hparams := hch.mp2parv_paramline
      rw [channelModes_network] at hparams
      have hpara : ∀ cm ∈ allChannelmodes, cm.unsetWithParam = true →
          cm.paracount ≠ 0 := by
        decide
      have hfilter : (shownModes S.params ch).filter
          (·.unsetWithParam) = ((shownModes S.params ch).filter
            (·.paracount ≠ 0)).filter (·.unsetWithParam) := by
        rw [filter_filter]
        apply filter_congr
        intro cm hcm
        have hcm' := hpara cm ((shownModes_sublist _ ch).subset hcm)
        cases hunset : cm.unsetWithParam with
        | false => rfl
        | true => simp [hcm' hunset]
      rw [hparams, shownTexts, length_map, shownParams, hshown, hfilter]
      exact length_filter_le _ _
    obtain ⟨params, hloop⟩ := @setModeLoop_del S peer
      (shownModes S.params ch) filter_sublist
      (by
        intro cm hcm
        refine ⟨(mem_shownModes.mp hcm).2.1, ?_⟩
        rw [← hshown] at hcm
        exact hch.type_of_mem_shownModes hcm)
      ch [] _ hargs (by
        have hcount : (allChannelmodes.filter (·.unsetWithParam)).length ≤
            maxmodeparams := by
          decide
        rw [length_nil, Nat.zero_add]
        exact ((shownModes_sublist _ ch).filter _).length_le.trans hcount)
      (by simp)
    refine ⟨_, params, hloop, hlocal _ ?_ ?_⟩
    · intro c hc
      exact (mem_delFlags.mp hc).1
    · intro c hc
      exact (mem_delFlags.mp hc).2.1

end Removal

/-! ## The lines of a burst -/

/-- The items of the line as texts. -/
def SjoinMessage.tokens (msg : SjoinMessage) : List (List Char) :=
  strtokens (· == ' ') msg.items

/-- The lines describe the channel.  They may be cut anywhere, but the first one
has a member, if there is one. -/
structure IsBurst (C : ParamConfig) (src : Channel)
    (msgs : List SjoinMessage) : Prop extends DescribesModes C src msgs where
  items : msgs.flatMap SjoinMessage.tokens = burstItems C.table true src
  first : src.members ≠ [] → ∀ msg ∈ msgs.head?, msg.tokens ≠ []

/-- The receiver can act on the items. -/
structure Acceptable (S : Server) (peer : Peer) (side : SjoinSide)
    (ch : Channel) (ds : List Described) : Prop where
  usable : ∀ d ∈ ds, d.Usable S peer
  distinct : ds.Pairwise Described.Distinct
  fresh : ∀ d ∈ ds, d.Fresh side ch

variable {ch : Channel} {ds : List Described}

section Lines

variable {S : Server} {peer : Peer} {side : SjoinSide}

/-- The items that come first are acceptable, and the others are afterwards. -/
theorem Acceptable.append {ds' : List Described}
    (h : Acceptable S peer side ch (ds ++ ds')) :
    Acceptable S peer side ch ds ∧
      Acceptable S peer side (ds.foldl (addTo side) ch) ds' := by
  obtain ⟨hdistinct, hdistinct', hcross⟩ := pairwise_append.mp h.distinct
  refine ⟨⟨fun d hd => h.usable d (by simp [hd]), hdistinct,
    fun d hd => h.fresh d (by simp [hd])⟩,
    fun d hd => h.usable d (by simp [hd]), hdistinct', ?_⟩
  intro d' hd'
  have hfresh := h.fresh d' (by simp [hd'])
  have hall : ∀ d ∈ ds, d.Distinct d' := fun d hd => hcross d hd d' hd'
  clear h hdistinct hcross
  induction ds generalizing ch with
  | nil => exact hfresh
  | cons d ds ih =>
    exact ih (hfresh.addTo (hall d (by simp)))
      (fun d hd => hall d (by simp [hd]))

section Line

variable (hsjsby : peer.sjsby = true) {msg : SjoinMessage}
  (htokens : msg.tokens = ds.map (Described.text S.table))

include hsjsby htokens

theorem foldl_parseItems {s : SjoinState} (h : Acceptable S peer side s.channel ds) :
    ((parseItems S.table peer.sjsby msg.items).foldl
        (sjoinItem S peer side) s).channel =
      ds.foldl (addTo side) s.channel := by
  rw [parseItems, ← SjoinMessage.tokens, htokens]
  exact foldl_sjoinItem_described hsjsby h.usable h.distinct h.fresh

/-- A line that changes no modes adds its items. -/
theorem cmdSjoin_items (name : List Char)
    (hside : sjoinSide false ch (msg.timestamp ch) = side)
    (hmodes : side = .removeTheirs ∨ side = .merge ∧ msg.modes = none)
    (h : Acceptable S peer side ch ds) :
    (cmdSjoin S peer name (some ch) msg).1 =
      destroyIfEmpty (ds.foldl (addTo side) ch) := by
  have hstart : sjoinStart S peer side (msg.timestamp ch) ch = (ch, []) := by
    rcases hmodes with rfl | ⟨rfl, -⟩
    · rfl
    · rfl
  have hitems := @foldl_parseItems ds S peer side hsjsby msg htokens
    ⟨ch, .start [] '+'⟩ h
  have hset : ∀ ch' : Channel, sjoinModes S peer side ch' msg.modes =
      (ch', []) := by
    intro ch'
    rcases hmodes with rfl | ⟨rfl, hnone⟩
    · rfl
    · rw [hnone]
      rfl
  have hsync : ∀ nomode (ch' : Channel),
      secureonlyChannelSync S side nomode ch' = (ch', []) := by
    intro nomode ch'
    rcases hmodes with rfl | ⟨rfl, -⟩
    · simp [secureonlyChannelSync]
    · simp [secureonlyChannelSync]
  simp only [cmdSjoin, Option.getD_some, Option.isNone_some, hside,
    sjoinChannel, hstart, hset, hsync, hitems]

end Line

/-- Lines that change no modes add the items of all of them. -/
theorem receiveBurst_items (hsjsby : peer.sjsby = true) (name : List Char)
    {msgs : List SjoinMessage}
    (hside : ∀ msg ∈ msgs, ∀ ch' : Channel,
      ch'.creationtime = ch.creationtime →
      sjoinSide false ch' (msg.timestamp ch') = side)
    (hmodes : side = .removeTheirs ∨
      side = .merge ∧ ∀ msg ∈ msgs, msg.modes = none)
    (htokens : msgs.flatMap SjoinMessage.tokens =
      ds.map (text S.table))
    (h : Acceptable S peer side ch ds) (halive : ch.Alive) :
    receiveBurst S peer name (some ch) msgs =
      some (ds.foldl (addTo side) ch) := by
  induction msgs generalizing ch ds with
  | nil =>
    rw [flatMap_nil, eq_comm, map_eq_nil_iff] at htokens
    rw [htokens]
    rfl
  | cons msg msgs ih =>
    rw [flatMap_cons, eq_comm, map_eq_append_iff] at htokens
    obtain ⟨ds, ds', rfl, hhead, htail⟩ := htokens
    obtain ⟨hfirst, hrest⟩ := h.append
    have hmodes' : side = .removeTheirs ∨ side = .merge ∧
        msg.modes = none := by
      rcases hmodes with hside | ⟨hside, hnone⟩
      · exact .inl hside
      · exact .inr ⟨hside, hnone msg (by simp)⟩
    have hmsg := cmdSjoin_items hsjsby hhead.symm name
      (hside msg (by simp) ch rfl) hmodes' hfirst
    have hsame := sameModes_foldl_addTo side ds ch
    have halive' : (ds.foldl (addTo side) ch).Alive := by
      rcases halive with hmembers | hP
      · left
        rw [members_foldl_addTo]
        simp [hmembers]
      · right
        rwa [hsame.mode]
    rw [receiveBurst, foldl_cons, hmsg,
      destroyIfEmpty_of_alive halive', foldl_append]
    apply ih
    · intro msg' hmsg' ch' htime
      exact hside msg' (by simp [hmsg']) ch'
        (htime.trans hsame.creationtime)
    · rcases hmodes with hside | ⟨hside, hnone⟩
      · exact .inl hside
      · exact .inr ⟨hside, fun msg' hmsg' => hnone msg' (by simp [hmsg'])⟩
    · exact htail.symm
    · exact hrest
    · exact halive'

end Lines

/-! ## The first line at the server with the higher timestamp -/

/-- A local user without TLS, who may not be on a channel with `+z`. -/
def Server.insecure (S : Server) (client : List Char) : Bool :=
  S.users.any fun u =>
    u.id == client && u.myUser && !u.secureConnect && !u.uline

theorem foldl_removeUserFromChannel (ch : Channel)
    (clients : List (List Char)) :
    clients.foldl removeUserFromChannel ch =
      { ch with
        members := ch.members.filter fun m => decide (m.client ∉ clients) } := by
  induction clients generalizing ch with
  | nil => simp
  | cons client clients ih =>
    rw [foldl_cons, ih, removeUserFromChannel]
    simp only [filter_filter, mem_cons, not_or, Bool.decide_and, Bool.and_comm]

/-- With `+z`, local users without TLS are removed. -/
theorem secureonlyChannelSync_removeOurs (S : Server) (nomode : Bool)
    (ch : Channel) :
    (secureonlyChannelSync S .removeOurs nomode ch).1 =
      { ch with
        members := ch.members.filter fun m =>
          !(!nomode && decide ('z' ∈ ch.mode) && S.insecure m.client) } := by
  cases nomode with
  | true => simp [secureonlyChannelSync]
  | false =>
    by_cases hz : 'z' ∈ ch.mode
    · have hkicked : insecureMembers S ch =
          (ch.members.map Member.client).filter S.insecure := if_pos hz
      simp only [secureonlyChannelSync, or_true, and_self, if_true,
        foldl_removeUserFromChannel, hkicked]
      congr 1
      apply filter_congr
      intro m hm
      have hmem : m.client ∈ ch.members.map Member.client :=
        mem_map.mpr ⟨m, hm, rfl⟩
      simp only [mem_filter, hmem, hz]
      cases S.insecure m.client with
      | false | true => decide
    · simp [secureonlyChannelSync, insecureMembers, hz]

/-- The members of the channel are reached over the link. -/
def Server.Reaches (S : Server) (peer : Peer) (ch : Channel) : Prop :=
  ∀ m ∈ ch.members, ∃ u ∈ S.users,
    u.id = m.client ∧ u.direction = peer.direction ∧ u.myUser = false

instance (S : Server) (peer : Peer) (ch : Channel) :
    Decidable (S.Reaches peer ch) :=
  inferInstanceAs (Decidable (∀ m ∈ ch.members, _))

theorem Server.not_insecure (S : Server) {u : User} (hu : u ∈ S.users)
    (hmy : u.myUser = false) : S.insecure u.id = false := by
  rw [insecure, any_eq_false]
  intro u' hu' hall
  simp only [Bool.and_eq_true, beq_iff_eq] at hall
  obtain ⟨⟨⟨hid, hmy'⟩, -⟩, -⟩ := hall
  rw [inj_on_of_nodup_map S.nodup_ids hu' hu hid, hmy] at hmy'
  cases hmy'

/-- Local modes are flags other than these. -/
theorem local_facts {cm : Cmode} (hcm : cm ∈ allChannelmodes)
    (hlocal : cm.isLocal = true) :
    cm.paracount = 0 ∧ cm.letter ∉ ['p', 's', 'z', 'P'] := by
  revert cm
  decide

variable {src : Channel}

section Flags

variable {C : ParamConfig} (hsrc : LegalModes C (src.network C.table))
  (hsecret : ¬ src.PrivateAndSecret) (hmode : OnlyLocal C.table mode)

include hsrc hsecret hmode

/-- The flags of the peer, on top of local ones. -/
theorem mem_addFlags_shown (c : Char) :
    c ∈ addFlags mode (shownLetters C src) ↔
      c ∈ (src.network C.table).mode ∨ c ∈ mode := by
  have hshown : ∀ c, c ∈ shownLetters C src ↔
      c ∈ (src.network C.table).mode := by
    intro c
    rw [← shownLetters_network]
    exact hsrc.mem_shownLetters
  have hfacts : ∀ c ∈ mode, c ∉ ['p', 's', 'z', 'P'] := by
    intro c hc
    obtain ⟨cm, hcm, rfl, hlocal⟩ := hmode c hc
    exact (local_facts (C.table.mem_all hcm) hlocal).2
  have hps : ¬ ('p' ∈ (src.network C.table).mode ∧
      's' ∈ (src.network C.table).mode) := by
    rintro ⟨hp, hs⟩
    exact hsecret ⟨(Finset.mem_filter.mp hp).1, (Finset.mem_filter.mp hs).1⟩
  obtain ⟨hmems, hmemp⟩ := @mem_addFlags_secret mode _
    (shownLetters_order C src)
  simp only [hshown] at hmems hmemp
  by_cases hcp : c = 'p'
  · subst hcp
    tauto
  by_cases hcs : c = 's'
  · subst hcs
    tauto
  · rw [mem_addFlags_of_ne hcp hcs, hshown]

/-- Only the flags of the peer are on the network. -/
theorem network_addFlags (hch : ch.mode = addFlags mode (shownLetters C src)) :
    (ch.network C.table).mode = (src.network C.table).mode := by
  ext c
  rw [Channel.network, Finset.mem_filter, hch,
    mem_addFlags_shown hsrc hsecret hmode]
  constructor
  · rintro ⟨hc | hc, hnetwork⟩
    · exact hc
    · obtain ⟨cm, hcm, heq, hlocal⟩ := hmode c hc
      rw [hnetwork cm hcm heq] at hlocal
      cases hlocal
  · intro hc
    exact ⟨.inl hc, (Finset.mem_filter.mp hc).2⟩

end Flags

/-- The channel of the server with the higher timestamp behind the first line,
which has the modes of its peer and the items `ds`. -/
structure AfterFirst (S : Server) (src : Channel) (old : List Member)
    (ds : List Described) (ch : Channel) : Prop where
  creationtime : ch.creationtime = src.creationtime
  flags : ∀ c ∈ (src.network S.table).mode, c ∈ ch.mode
  mode : (ch.network S.table).mode = (src.network S.table).mode
  params : ∀ c ∈ (src.network S.table).mode,
    S.table.IsParam c → ch.params c = src.params c
  lists : ∀ lm, ch.list lm = (entriesOf lm ds).reverse
  members : ch.members =
    ((membersOf ds).reverse ++ old.map Member.wiped).filter fun m =>
      !(decide ('z' ∈ (src.network S.table).mode) && S.insecure m.client)

section Takeover

variable (S : Server) (peer : Peer)

/-- What is left of a channel with the higher timestamp. -/
theorem sjoinStart_removeOurs
    (hch : LegalModes S.params (ch.network S.table)) (ts : ℤ) :
    ∃ ch', (sjoinStart S peer .removeOurs ts ch).1 = ch' ∧
      ch'.name = ch.name ∧ ch'.creationtime = ts ∧
      OnlyLocal S.table ch'.mode ∧
      (∀ lm, ch'.list lm = []) ∧
      ch'.members = ch.members.map Member.wiped := by
  obtain ⟨mode, params, hremove, hlocal⟩ := @removeOurModes_eq S peer
    { ch with creationtime := ts } ⟨hch.letters, hch.params⟩
  refine ⟨_, rfl, ?_⟩
  simp only [sjoinStart, removeOurs, hremove]
  refine ⟨trivial, trivial, hlocal, ?_, rfl⟩
  intro lm
  cases lm with
  | ban | except | invex => rfl

variable {S}
  (hsrc : LegalModes S.params (src.network S.table))
  (hname : src.name.map Char.toLower = ch.name.map Char.toLower)

include hsrc hname

/-- The modes of the line are taken over. -/
theorem sjoinModes_removeOurs (hmode : OnlyLocal S.table ch.mode) :
    (sjoinModes S peer .removeOurs ch (burstStart S.params src).modes).1 =
      { ch with
        mode := addFlags ch.mode (shownLetters S.params src)
        params := receiveParams src ch (shownModes S.params src) } := by
  have hshown := @shownModes_network S.params src
  rw [← burstStart_network, hsrc.burstStart_modes]
  split
  · next hempty =>
      have hnil : shownModes S.params src = [] := by
        rw [← hshown, eq_nil_iff_forall_not_mem]
        intro cm hcm
        have hletter := (mem_shownModes.mp hcm).2.2
        rw [hempty] at hletter
        simp at hletter
      rw [shownLetters, hnil, receiveParams_nil]
      rfl
  · have hset := setSjoinModes_eq S peer hsrc (receives_shownModes hsrc hname ?_)
    · rw [shownLetters_network] at hset ⊢
      rw [hshown] at hset
      exact hset
    · intro cm hcm hpara hletter
      obtain ⟨cm', hcm', heq, hlocal⟩ := hmode cm.letter hletter
      rw [S.table.eq_of_letter hcm' hcm heq] at hlocal
      exact absurd (local_facts (S.table.mem_all hcm) hlocal).1 hpara

/-- The first line of the peer with the lower timestamp. -/
theorem cmdSjoin_removeOurs {peer : Peer} (hsjsby : peer.sjsby = true)
    (name : List Char) (hsecret : ¬ src.PrivateAndSecret)
    (hch : LegalModes S.params (ch.network S.table))
    (hvalid : 1000000 < src.creationtime)
    (hlt : src.creationtime < ch.creationtime) {msg : SjoinMessage}
    (hts : msg.ts = src.creationtime)
    (hmodes : msg.modes = (burstStart S.params src).modes)
    (htokens : msg.tokens = ds.map (text S.table))
    (husable : ∀ d ∈ ds, d.Usable S peer)
    (hdistinct : ds.Pairwise Described.Distinct)
    (hnew : ∀ m ∈ membersOf ds, ch.isMember m.client = false) :
    ∃ ch', (cmdSjoin S peer name (some ch) msg).1 = destroyIfEmpty ch' ∧
      AfterFirst S src ch.members ds ch' := by
  have htime : msg.timestamp ch = src.creationtime := by
    rw [SjoinMessage.timestamp, if_neg (by simp [isInvalidChannelTS, hts,
      hvalid]), hts]
  have hside : sjoinSide false ch src.creationtime = .removeOurs := by
    simp [sjoinSide, hlt]
  obtain ⟨w, hstart, hwname, hwtime, hlocal, hlists, hmembers⟩ :=
    sjoinStart_removeOurs S peer hch src.creationtime
  have haccept : Acceptable S peer .removeOurs w ds := by
    refine ⟨husable, hdistinct, ?_⟩
    intro d hd
    cases d with
    | member m =>
      have hout := hnew m (mem_membersOf.mpr hd)
      rw [Described.Fresh, Channel.isMember, hmembers, any_map]
      exact hout
    | entry lm ban =>
      intro _ b hb
      rw [hlists] at hb
      simp at hb
  -- The channel after the items, and after the modes.
  have hitems := @foldl_parseItems ds S peer .removeOurs hsjsby msg htokens
    ⟨w, .start (sjoinStart S peer .removeOurs src.creationtime ch).2 '+'⟩
    haccept
  have hsame := sameModes_foldl_addTo .removeOurs ds w
  have hset := sjoinModes_removeOurs peer hsrc
    (hname.trans (by rw [hsame.name, hwname])) (hsame.mode ▸ hlocal)
  rw [← hmodes] at hset
  rw [hsame.mode] at hset
  have hflags := mem_addFlags_shown hsrc hsecret hlocal
  have hz : (!msg.modes.isNone && decide
      ('z' ∈ addFlags w.mode (shownLetters S.params src))) =
      decide ('z' ∈ (src.network S.table).mode) := by
    have hout : 'z' ∉ w.mode := by
      intro hmem
      obtain ⟨cm, hcm, heq, hl⟩ := hlocal 'z' hmem
      exact (local_facts (S.table.mem_all hcm) hl).2 (by simp [heq])
    rw [hmodes, ← burstStart_network, hsrc.burstStart_modes]
    simp only [hflags, hout, or_false]
    split
    · next hempty => simp [hempty]
    · simp
  refine ⟨{ ds.foldl (addTo .removeOurs) w with
      mode := addFlags w.mode (shownLetters S.params src)
      params := receiveParams src (ds.foldl (addTo .removeOurs) w)
        (shownModes S.params src)
      members := (ds.foldl (addTo .removeOurs) w).members.filter
        fun m => !(decide ('z' ∈ (src.network S.table).mode) &&
          S.insecure m.client) }, ?_, ?_, ?_, ?_, ?_, ?_, ?_⟩
  · simp only [cmdSjoin, Option.getD_some, Option.isNone_some, htime, hside,
      sjoinChannel, hstart, hitems, hset, secureonlyChannelSync_removeOurs, hz]
  · exact hsame.creationtime.trans hwtime
  · intro c hc
    exact (hflags c).mpr (.inl hc)
  · exact network_addFlags hsrc hsecret hlocal rfl
  · intro c hc hparam
    have hshown := (hsrc.exists_shown_iff c).mpr ⟨hparam, hc⟩
    rw [shownModes_network] at hshown
    exact if_pos hshown
  · intro lm
    have hlist := list_foldl_addTo .removeOurs ds w lm
    rw [if_neg (by decide), hlists, append_nil] at hlist
    exact hlist
  · simp [members_foldl_addTo, hmembers]

end Takeover

end UnrealIrcd.Channels
