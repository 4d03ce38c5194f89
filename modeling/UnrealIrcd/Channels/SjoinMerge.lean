import UnrealIrcd.Channels.ParamMerge
import UnrealIrcd.Channels.SjoinModes

/-!
# Merging channels with equal timestamps

Two servers hold the same channel with the same timestamp, each with modes of
its own.  Each processes the SJOIN lines of the other.
-/

namespace UnrealIrcd.Channels

open Support List

/-! ## What items leave alone -/

/-- The name, the timestamp, the flags and the parameters are the same. -/
structure SameModes (ch ch' : Channel) : Prop where
  name : ch'.name = ch.name
  creationtime : ch'.creationtime = ch.creationtime
  mode : ch'.mode = ch.mode
  params : ch'.params = ch.params

theorem SameModes.refl (ch : Channel) : SameModes ch ch := ⟨rfl, rfl, rfl, rfl⟩

theorem SameModes.trans {ch ch' ch'' : Channel} (h : SameModes ch ch')
    (h' : SameModes ch' ch'') : SameModes ch ch'' :=
  ⟨h'.name.trans h.name, h'.creationtime.trans h.creationtime,
    h'.mode.trans h.mode, h'.params.trans h.params⟩

theorem SameModes.setList (ch : Channel) (lm : ListMode) (list : List Ban) :
    SameModes ch (ch.setList lm list) := by
  cases lm with
  | ban | except | invex => exact ⟨rfl, rfl, rfl, rfl⟩

/-- The channel has a member or is permanent, so it is not destroyed. -/
def Channel.Alive (ch : Channel) : Prop := ch.members ≠ [] ∨ 'P' ∈ ch.mode

variable {ch : Channel}

theorem destroyIfEmpty_of_alive (h : ch.Alive) :
    destroyIfEmpty ch = some ch := by
  rw [destroyIfEmpty, if_neg]
  rintro ⟨hmembers, hmode⟩
  rcases h with h | h
  · exact h hmembers
  · exact hmode h

section Items

variable (S : Server) (peer : Peer)

/-- An item changes members and lists only, and removes no member. -/
theorem sjoinItem_sameModes (side : SjoinSide) (s : SjoinState)
    (i : SjoinItem) :
    SameModes s.channel (sjoinItem S peer side s i).channel ∧
      (s.channel.Alive → (sjoinItem S peer side s i).channel.Alive) := by
  refine sjoinItem_rule ?_ ?_ ?_ ?_
  · exact fun _ => ⟨.refl _, id⟩
  · intro lm _ list _ _ _ _
    refine ⟨.setList _ _ _, ?_⟩
    rintro (hmembers | hmode)
    · exact .inl (by rwa [Channel.members_setList])
    · exact .inr (by rwa [(SameModes.setList _ _ _).mode])
  · exact fun _ _ _ => ⟨.refl _, id⟩
  · exact fun _ _ _ =>
      ⟨⟨rfl, rfl, rfl, rfl⟩, fun _ => .inl (cons_ne_nil _ _)⟩

theorem foldl_sjoinItem_sameModes (side : SjoinSide) (items : List SjoinItem)
    (s : SjoinState) :
    SameModes s.channel
        (items.foldl (sjoinItem S peer side) s).channel ∧
      (s.channel.Alive →
        (items.foldl (sjoinItem S peer side) s).channel.Alive) := by
  induction items generalizing s with
  | nil => exact ⟨.refl _, id⟩
  | cons i items ih =>
    obtain ⟨hsame, halive⟩ := sjoinItem_sameModes S peer side s i
    obtain ⟨hsame', halive'⟩ := ih (sjoinItem S peer side s i)
    exact ⟨hsame.trans hsame', fun h => halive' (halive h)⟩

end Items

/-! ## The loop over the parameters -/

/-- The parameter that is kept when both sides have the mode. -/
def mergedAt (C : ParamConfig) (our their : Char → Option ModeParam)
    (c : Char) : Option ModeParam :=
  match paramHandler C c, our c, their c with
  | some h, some x, some y => mergedParam h x y
  | _, _, _ => their c

variable {c : Char}

theorem mergedAt_congr {C : ParamConfig}
    {our their their' : Char → Option ModeParam} (h : their c = their' c) :
    mergedAt C our their c = mergedAt C our their' c := by
  simp only [mergedAt, h]

/-- A letter of a mode with a parameter. -/
def ModeTable.IsParam (T : ModeTable) (c : Char) : Prop :=
  ∃ cm ∈ T.channelmodes, cm.paracount ≠ 0 ∧ cm.letter = c

instance (T : ModeTable) (c : Char) : Decidable (T.IsParam c) :=
  inferInstanceAs (Decidable (∃ cm ∈ T.channelmodes, _))

/-- One mode of the last loop of the merge. -/
def mergeStep (C : ParamConfig) (old new : Finset Char)
    (our their : Char → Option ModeParam) (cm : Cmode) :
    Char → Option ModeParam :=
  if cm.paracount ≠ 0 ∧ cm.letter ∈ old ∧ cm.letter ∈ new then
    Function.update their cm.letter (mergedAt C our their cm.letter)
  else their

theorem mergeParam_channel (C : ParamConfig) (old : Channel) (s : SjoinState)
    (cm : Cmode) :
    (mergeParam C old s cm).channel =
      { s.channel with
        params := mergeStep C old.mode s.channel.mode old.params
          s.channel.params cm } := by
  have hself : Function.update s.channel.params cm.letter
      (s.channel.params cm.letter) = s.channel.params :=
    Function.update_eq_self _ _
  unfold mergeParam mergeStep
  split
  · cases hh : paramHandler C cm.letter with
    | none => simp only [mergedAt, hh, hself]
    | some h =>
      cases hour : old.params cm.letter with
      | none => simp only [mergedAt, hh, hour, hself]
      | some our =>
        cases htheir : s.channel.params cm.letter with
        | none =>
          rw [htheir] at hself
          simp only [mergedAt, hh, hour, htheir, hself]
        | some their =>
          rw [htheir] at hself
          simp only [mergedAt, mergedParam, hh, hour, htheir]
          cases (h.sjoinCheck our their).1 with
          | same | theyWon => simp only [hself]
          | weWon | merge => simp only [Channel.putParam, hh, htheir]
  · rfl

theorem foldl_mergeParam (C : ParamConfig) (old : Channel)
    (cms : List Cmode) (s : SjoinState) :
    (cms.foldl (mergeParam C old) s).channel =
      { s.channel with
        params := cms.foldl (mergeStep C old.mode s.channel.mode old.params)
          s.channel.params } := by
  induction cms generalizing s with
  | nil => rfl
  | cons cm cms ih =>
    rw [foldl_cons, ih, mergeParam_channel]
    rfl

theorem foldl_mergeStep (C : ParamConfig) (old new : Finset Char)
    (our their : Char → Option ModeParam) {cms : List Cmode}
    (hnodup : (cms.map Cmode.letter).Nodup) (c : Char) :
    cms.foldl (mergeStep C old new our) their c =
      if (∃ cm ∈ cms, cm.paracount ≠ 0 ∧ cm.letter = c) ∧ c ∈ old ∧ c ∈ new
      then mergedAt C our their c else their c := by
  induction cms generalizing their with
  | nil => simp
  | cons cm cms ih =>
    rw [map_cons, nodup_cons] at hnodup
    rw [foldl_cons, ih _ hnodup.2]
    by_cases hc : cm.letter = c
    · subst hc
      -- The letter does not come again, so the step at the head decides.
      have hlater : ¬ ∃ cm' ∈ cms, cm'.paracount ≠ 0 ∧
          cm'.letter = cm.letter := by
        rintro ⟨cm', hcm', -, heq⟩
        exact hnodup.1 (mem_map.mpr ⟨cm', hcm', heq⟩)
      have hhead : (∃ cm' ∈ cm :: cms, cm'.paracount ≠ 0 ∧
          cm'.letter = cm.letter) ↔ cm.paracount ≠ 0 := by
        constructor
        · rintro ⟨cm', hcm', hpara, heq⟩
          rcases mem_cons.mp hcm' with rfl | hcm'
          · exact hpara
          · exact absurd ⟨cm', hcm', hpara, heq⟩ hlater
        · intro hpara
          exact ⟨cm, by simp, hpara, rfl⟩
      rw [if_neg (fun h => hlater h.1), mergeStep]
      simp only [hhead]
      split
      · rw [Function.update_self]
      · rfl
    · have hstep : mergeStep C old new our their cm c = their c := by
        rw [mergeStep]
        split
        · rw [Function.update_of_ne (Ne.symm hc)]
        · rfl
      have hmerged : mergedAt C our (mergeStep C old new our their cm) c =
          mergedAt C our their c := by
        simp only [mergedAt, hstep]
      have hlater : (∃ cm' ∈ cm :: cms, cm'.paracount ≠ 0 ∧
          cm'.letter = c) ↔ ∃ cm' ∈ cms, cm'.paracount ≠ 0 ∧
            cm'.letter = c := by
        simp [hc]
      simp only [hstep, hmerged, hlater]

/-! ## The merge of two channels -/

/-- The flags of both sides.  A channel that is secret for one side is not
private. -/
def mergedFlags (mode mode' : Finset Char) : Finset Char :=
  if 's' ∈ mode ∪ mode' then (mode ∪ mode').erase 'p' else mode ∪ mode'

/-- The parameters of our channel `ch` after the merge with `src`. -/
def mergedParams (C : ParamConfig) (ch src : Channel) :
    Char → Option ModeParam :=
  fun c =>
    if C.table.IsParam c ∧ c ∈ src.mode then
      if c ∈ ch.mode then mergedAt C ch.params src.params c
      else src.params c
    else ch.params c

section Merge

variable {C : ParamConfig} {src ch : Channel}

theorem shownLetters_order (C : ParamConfig) (ch : Channel) :
    (shownLetters C ch).Pairwise fun x y => ¬ (x = 's' ∧ y = 'p') := by
  rw [shownLetters, pairwise_map]
  exact ((table_order C.table).sublist filter_sublist).imp And.right

theorem keepSecret_addFlags (hsrc : LegalModes C src) (mode : Finset Char) :
    keepSecret mode (addFlags mode (shownLetters C src)) =
      mergedFlags mode src.mode := by
  obtain ⟨hs, hp⟩ := @mem_addFlags_secret mode _ (shownLetters_order C src)
  simp only [hsrc.mem_shownLetters] at hs hp
  have hkeep : ∀ new : Finset Char, keepSecret mode new =
      if 's' ∈ mode ∧ 'p' ∈ new then insert 's' (new.erase 'p') else new :=
    fun _ => rfl
  ext c
  by_cases hcp : c = 'p'
  · subst hcp
    rw [hkeep, mergedFlags]
    split_ifs <;> simp_all
    all_goals tauto
  by_cases hcs : c = 's'
  · subst hcs
    rw [hkeep, mergedFlags]
    split_ifs <;> simp_all
    tauto
  · have hc := @mem_addFlags_of_ne mode (shownLetters C src) c hcp hcs
    rw [hsrc.mem_shownLetters] at hc
    rw [hkeep, mergedFlags]
    split_ifs
    all_goals
      simp only [Finset.mem_insert, Finset.mem_erase, Finset.mem_union, hcs,
        hcp, hc, false_or, ne_eq, not_false_eq_true, true_and]
      exact Or.comm

theorem LegalModes.exists_shown_iff (hsrc : LegalModes C src) (c : Char) :
    (∃ cm ∈ shownModes C src, cm.paracount ≠ 0 ∧ cm.letter = c) ↔
      C.table.IsParam c ∧ c ∈ src.mode := by
  constructor
  · rintro ⟨cm, hcm, hpara, rfl⟩
    obtain ⟨hmem, -, hletter⟩ := mem_shownModes.mp hcm
    exact ⟨⟨cm, hmem, hpara, rfl⟩, hletter⟩
  · rintro ⟨⟨cm, hmem, hpara, rfl⟩, hletter⟩
    exact ⟨cm, mem_shownModes.mpr ⟨hmem, (hsrc.of_mem hmem hletter).1,
      hletter⟩, hpara, rfl⟩

theorem ModeTable.IsParam.ne {T : ModeTable} (h : T.IsParam c) :
    c ≠ 'p' ∧ c ≠ 's' := by
  obtain ⟨cm, hcm, hpara, rfl⟩ := h
  obtain ⟨hp, hs, -⟩ := param_letter_facts (T.mem_all hcm) hpara
  exact ⟨hp, hs⟩

theorem mem_mergedFlags_of_ne {mode mode' : Finset Char} {c : Char}
    (hp : c ≠ 'p') : c ∈ mergedFlags mode mode' ↔ c ∈ mode ∨ c ∈ mode' := by
  unfold mergedFlags
  split_ifs
  all_goals simp [hp]

/-- What the merge section makes of our channel. -/
theorem mergeModes_eq (S : Server) (peer : Peer) {src ch : Channel}
    (hsrc : LegalModes S.params src) (hch : LegalModes S.params ch)
    (hname : src.name.map Char.toLower = ch.name.map Char.toLower) :
    (mergeModes S peer ch
        ('+' :: shownLetters S.params src, shownTexts S.params src)).1 =
      { ch with
        mode := mergedFlags ch.mode src.mode
        params := mergedParams S.params ch src } := by
  have hreceive := receives_shownModes hsrc hname (by
    intro cm hcm hpara hletter
    obtain ⟨x, hx, hlegal⟩ := hch.params cm hcm hpara hletter
    exact ⟨x, _, _, hx, hlegal⟩)
  have hset := setSjoinModes_eq S peer hsrc hreceive
  have hparams : S.table.channelmodes.foldl
      (mergeStep S.params ch.mode (mergedFlags ch.mode src.mode) ch.params)
      (receiveParams src ch (shownModes S.params src)) =
      mergedParams S.params ch src := by
    funext c
    have hreceived : receiveParams src ch (shownModes S.params src) c =
        if S.table.IsParam c ∧ c ∈ src.mode then src.params c
        else ch.params c := by
      simp only [receiveParams, hsrc.exists_shown_iff]
    have hstep := foldl_mergeStep S.params ch.mode
      (mergedFlags ch.mode src.mode) ch.params (receiveParams src ch
        (shownModes S.params src))
      S.table.nodup_letters c
    rw [hstep]
    by_cases hparam : S.table.IsParam c
    · have hmem := @mem_mergedFlags_of_ne ch.mode src.mode c hparam.ne.1
      by_cases hc : c ∈ ch.mode
      · rw [if_pos ⟨hparam, hc, hmem.mpr (.inl hc)⟩]
        by_cases hs : c ∈ src.mode
        · rw [if_pos ⟨hparam, hs⟩] at hreceived
          rw [mergedParams, if_pos ⟨hparam, hs⟩, if_pos hc,
            mergedAt_congr hreceived]
        · rw [if_neg (fun h => hs h.2)] at hreceived
          rw [mergedParams, if_neg (fun h => hs h.2), mergedAt_congr hreceived]
          -- the record of a parameter that only our channel has is kept
          obtain ⟨cm, hcm, hpara, rfl⟩ := hparam
          obtain ⟨x, hx, hlegal⟩ := hch.params cm hcm hpara hc
          obtain ⟨h, -, hh, -⟩ := hlegal.roundTrips
          simp only [mergedAt, hh, hx, mergedParam_self hh hlegal]
      · rw [if_neg (fun h => hc h.2.1), hreceived, mergedParams]
        simp only [hc, if_false]
    · rw [if_neg (fun h => hparam h.1), hreceived, mergedParams,
        if_neg (fun h => hparam h.1), if_neg (fun h => hparam h.1)]
  simp only [mergeModes, hset, keepSecret_addFlags hsrc, foldl_mergeParam,
    hparams]

end Merge

/-! ## Lines with an equal timestamp -/

/-- A server processes the lines of its peer one after the other. -/
def receiveBurst (S : Server) (peer : Peer) (name : List Char)
    (channel : Option Channel) (msgs : List SjoinMessage) : Option Channel :=
  msgs.foldl (fun channel msg => (cmdSjoin S peer name channel msg).1) channel

/-- The first line has the modes of `src`, and the others have none.  The items
of the lines are arbitrary. -/
structure DescribesModes (C : ParamConfig) (src : Channel)
    (msgs : List SjoinMessage) : Prop where
  modes : ∃ first rest, msgs = first :: rest ∧
    first.modes = (burstStart C src).modes ∧ ∀ msg ∈ rest, msg.modes = none
  ts : ∀ msg ∈ msgs, msg.ts = src.creationtime

section Lines

variable (S : Server) (peer : Peer) (name : List Char)

variable {msg : SjoinMessage}

theorem cmdSjoin_of_ts_eq (halive : ch.Alive) (hts : msg.ts = ch.creationtime) :
    ∃ ch', SameModes ch ch' ∧ ch'.Alive ∧
      (cmdSjoin S peer name (some ch) msg).1 =
        destroyIfEmpty (sjoinModes S peer .merge ch' msg.modes).1 := by
  have hside : sjoinSide (some ch).isNone ch (msg.timestamp ch) = .merge := by
    have htime : msg.timestamp ch = ch.creationtime := by
      rw [SjoinMessage.timestamp, hts, ite_self]
    simp [sjoinSide, htime]
  obtain ⟨hsame, halive'⟩ := foldl_sjoinItem_sameModes S peer .merge
    (parseItems S.table peer.sjsby msg.items) ⟨ch, .start [] '+'⟩
  refine ⟨_, hsame, halive' halive, ?_⟩
  simp only [cmdSjoin, Option.getD_some, hside, sjoinChannel, sjoinStart,
    secureonlyChannelSync, reduceCtorEq, or_self, false_and, if_false]

theorem receiveBurst_without_modes (halive : ch.Alive)
    {msgs : List SjoinMessage}
    (h : ∀ msg ∈ msgs, msg.ts = ch.creationtime ∧ msg.modes = none) :
    ∃ ch', SameModes ch ch' ∧ ch'.Alive ∧
      receiveBurst S peer name (some ch) msgs = some ch' := by
  induction msgs generalizing ch with
  | nil => exact ⟨ch, .refl ch, halive, rfl⟩
  | cons msg msgs ih =>
    obtain ⟨hts, hmodes⟩ := h msg (by simp)
    obtain ⟨ch', hsame, halive', hsjoin⟩ :=
      cmdSjoin_of_ts_eq S peer name halive hts
    have hch' : (cmdSjoin S peer name (some ch) msg).1 = some ch' := by
      rw [hsjoin, hmodes, ← destroyIfEmpty_of_alive halive']
      rfl
    obtain ⟨ch'', hsame', halive'', hch''⟩ := ih halive' (by
      intro m hm
      rw [hsame.creationtime]
      exact h m (by simp [hm]))
    refine ⟨ch'', hsame.trans hsame', halive'', ?_⟩
    rw [receiveBurst, foldl_cons, hch']
    exact hch''

section Burst

variable {src ch : Channel} (hsrc : LegalModes S.params src)
  (hch : LegalModes S.params ch)
  (hname : src.name.map Char.toLower = ch.name.map Char.toLower)
  (halive : ch.Alive)

include hsrc hch hname halive

theorem cmdSjoin_with_modes (hts : msg.ts = ch.creationtime)
    (hmodes : msg.modes = some ('+' :: shownLetters S.params src,
      shownTexts S.params src)) :
    ∃ ch', (cmdSjoin S peer name (some ch) msg).1 = some ch' ∧ ch'.Alive ∧
      ch'.creationtime = ch.creationtime ∧
      ch'.mode = mergedFlags ch.mode src.mode ∧
      ch'.params = mergedParams S.params ch src := by
  obtain ⟨ch', hsame, halive', hch'⟩ := cmdSjoin_of_ts_eq S peer name halive hts
  have hlegal : LegalModes S.params ch' := by
    constructor
    · rw [hsame.mode]
      exact hch.letters
    · rw [hsame.mode, hsame.params, hsame.name]
      exact hch.params
  have hmerge := mergeModes_eq S peer hsrc hlegal
    (hname.trans (by rw [hsame.name]))
  have hmode : mergedFlags ch'.mode src.mode =
      mergedFlags ch.mode src.mode := by
    rw [hsame.mode]
  have hparams : mergedParams S.params ch' src =
      mergedParams S.params ch src := by
    funext c
    simp only [mergedParams, hsame.mode, hsame.params]
  rw [hmode, hparams] at hmerge
  have halive'' : (mergeModes S peer ch'
      ('+' :: shownLetters S.params src, shownTexts S.params src)).1.Alive := by
    rw [hmerge]
    rcases halive' with hmembers | hP
    · exact .inl hmembers
    · right
      rw [hsame.mode] at hP
      exact (mem_mergedFlags_of_ne (by decide)).mpr (.inl hP)
  refine ⟨_, ?_, halive'', ?_, ?_, ?_⟩
  · rw [hch', hmodes]
    exact destroyIfEmpty_of_alive halive''
  · rw [hmerge]
    exact hsame.creationtime
  · rw [hmerge]
  · rw [hmerge]

theorem receiveBurst_of_ts_eq (hts : src.creationtime = ch.creationtime)
    {msgs : List SjoinMessage} (hmsgs : DescribesModes S.params src msgs) :
    ∃ ch', receiveBurst S peer name (some ch) msgs = some ch' ∧
      ch'.mode = (if src.mode = ∅ then ch.mode
        else mergedFlags ch.mode src.mode) ∧
      ch'.params = (if src.mode = ∅ then ch.params
        else mergedParams S.params ch src) := by
  obtain ⟨⟨first, rest, rfl, hfirst, hrest⟩, hmsgts⟩ := hmsgs
  have hmsgts' : ∀ msg ∈ first :: rest, msg.ts = ch.creationtime :=
    fun msg hmsg => (hmsgts msg hmsg).trans hts
  rw [hsrc.burstStart_modes] at hfirst
  by_cases hempty : src.mode = ∅
  · simp only [hempty, if_true] at hfirst ⊢
    have hmodes : ∀ msg ∈ first :: rest, msg.modes = none :=
      forall_mem_cons.mpr ⟨hfirst, hrest⟩
    have hnone : ∀ msg ∈ first :: rest,
        msg.ts = ch.creationtime ∧ msg.modes = none :=
      fun msg hmsg => ⟨hmsgts' msg hmsg, hmodes msg hmsg⟩
    obtain ⟨ch', hsame, -, hch'⟩ :=
      receiveBurst_without_modes S peer name halive hnone
    exact ⟨ch', hch', hsame.mode, hsame.params⟩
  · simp only [hempty, if_false] at hfirst ⊢
    obtain ⟨ch', hch', halive', htime, hmode, hparams⟩ :=
      cmdSjoin_with_modes S peer name hsrc hch hname halive
        (hmsgts' first (by simp)) hfirst
    have hnone : ∀ msg ∈ rest, msg.ts = ch'.creationtime ∧ msg.modes = none :=
      fun msg hmsg => ⟨(hmsgts' msg (by simp [hmsg])).trans htime.symm,
        hrest msg hmsg⟩
    obtain ⟨ch'', hsame, -, hch''⟩ :=
      receiveBurst_without_modes S peer name halive' hnone
    refine ⟨ch'', ?_, hsame.mode.trans hmode, hsame.params.trans hparams⟩
    rw [receiveBurst, foldl_cons, hch']
    exact hch''

end Burst

end Lines

/-- The lines that the sender builds are of this form. -/
theorem packItems_modes {len' len : ℕ} {sent : Bool} {line : SjoinMessage}
    {items : List (List Char)} (hline : sent = false ∨ line.items ≠ []) :
    ∃ first rest, packItems len' sent len line items = first :: rest ∧
      first.modes = line.modes ∧ (∀ msg ∈ rest, msg.modes = none) ∧
      ∀ msg ∈ first :: rest, msg.ts = line.ts := by
  induction items generalizing sent len line with
  | nil =>
    refine ⟨line, [], ?_, rfl, by simp, by simp⟩
    rw [packItems, if_pos hline.symm]
  | cons item items ih =>
    rw [packItems]
    split
    · obtain ⟨first, rest, hpack, hfirst, hrest, hts⟩ := @ih len' true
        ⟨line.ts, none, item ++ [' ']⟩ (.inr (by simp))
      refine ⟨line, first :: rest, by rw [hpack], rfl, ?_, ?_⟩
      · exact forall_mem_cons.mpr ⟨hfirst, hrest⟩
      · exact forall_mem_cons.mpr ⟨rfl, hts⟩
    · exact @ih len sent { line with items := line.items ++ (item ++ [' ']) }
        (.inr (by simp))

theorem describesModes_sendChannelModesSjoin3 (C : ParamConfig) (id : List Char)
    (sjsby : Bool) (hname : ch.name.head? = some '#') :
    DescribesModes C ch (sendChannelModesSjoin3 C id sjsby ch) := by
  rw [sendChannelModesSjoin3, if_neg (not_not.mpr hname)]
  obtain ⟨first, rest, hpack, hfirst, hrest, hts⟩ := @packItems_modes
    (sjoinHead id ch.name { burstStart C ch with modes := none }).length
    (sjoinHead id ch.name (burstStart C ch)).length false (burstStart C ch)
    (burstItems C.table sjsby ch) (.inl rfl)
  exact ⟨⟨first, rest, hpack, hfirst, hrest⟩, hpack ▸ hts⟩

/-! ## Agreement -/

/-- Both channels have the same flags, and show the same parameters. -/
def AgreeOnModes (C : ParamConfig) (a b : Channel) : Prop :=
  a.mode = b.mode ∧ ∀ c ∈ a.mode, a.getParam C c = b.getParam C c

/-- Both channels have flood settings that differ only in their period. -/
def FloodPeriodOnly (a b : Channel) : Prop :=
  'f' ∈ a.mode ∧ 'f' ∈ b.mode ∧ ∃ x y, a.params 'f' = some x ∧
    b.params 'f' = some y ∧ x.PeriodOnly y

def Channel.PrivateAndSecret (ch : Channel) : Prop :=
  'p' ∈ ch.mode ∧ 's' ∈ ch.mode

instance (ch : Channel) : Decidable ch.PrivateAndSecret :=
  inferInstanceAs (Decidable (_ ∧ _))

section Agreement

variable {C : ParamConfig} {a b : Channel}

theorem mergedFlags_empty_eq_iff {mode : Finset Char} :
    mergedFlags ∅ mode = mode ↔ ¬ ('p' ∈ mode ∧ 's' ∈ mode) := by
  rw [mergedFlags, Finset.empty_union]
  split
  · next hs =>
      rw [Finset.erase_eq_self]
      simp [hs]
  · next hs => simp [hs]

theorem flags_eq_iff (a b : Channel) :
    (if b.mode = ∅ then a.mode else mergedFlags a.mode b.mode) =
        (if a.mode = ∅ then b.mode else mergedFlags b.mode a.mode) ↔
      ¬ (a.PrivateAndSecret ∧ b.mode = ∅) ∧
        ¬ (b.PrivateAndSecret ∧ a.mode = ∅) := by
  simp only [Channel.PrivateAndSecret]
  by_cases ha : a.mode = ∅
  · by_cases hb : b.mode = ∅
    · simp [ha, hb]
    · simp only [ha, hb, if_true, if_false, mergedFlags_empty_eq_iff]
      simp
  · by_cases hb : b.mode = ∅
    · simp only [ha, hb, if_true, if_false, and_true, and_false,
        not_false_eq_true]
      rw [eq_comm, mergedFlags_empty_eq_iff]
    · simp only [ha, hb, if_false, and_false, not_false_eq_true, and_true,
        iff_true]
      rw [mergedFlags, mergedFlags, Finset.union_comm]

theorem LegalModes.isParam_of_mem (ha : LegalModes C a) (hc : c ∈ a.mode) :
    C.table.IsParam c ∨ paramHandler C c = none := by
  obtain ⟨cm, hcm, rfl, -⟩ := ha.letters c hc
  by_cases hpara : cm.paracount = 0
  · have hletter : ∀ cm ∈ allChannelmodes, cm.paracount = 0 →
        cm.letter ∉ ['f', 'F', 'H', 'k', 'l', 'L'] := by
      decide
    have hletter := hletter cm (C.table.mem_all hcm) hpara
    simp only [mem_cons, not_mem_nil, or_false, not_or] at hletter
    simp [paramHandler, hletter]
  · exact .inl ⟨cm, hcm, hpara, rfl⟩

theorem params_eq (a b : Channel) (hparam : C.table.IsParam c) :
    (if b.mode = ∅ then a.params else mergedParams C a b) c =
      if c ∈ b.mode then
        if c ∈ a.mode then mergedAt C a.params b.params c else b.params c
      else a.params c := by
  by_cases hb : b.mode = ∅
  · simp [hb]
  · rw [if_neg hb, mergedParams]
    simp [hparam]

/-- The two sides store the same parameter, unless only periods differ. -/
theorem params_comm (ha : LegalModes C a) (hb : LegalModes C b)
    (hperiod : ¬ FloodPeriodOnly a b) (hparam : C.table.IsParam c)
    (hc : c ∈ a.mode ∨ c ∈ b.mode) :
    (if b.mode = ∅ then a.params else mergedParams C a b) c =
      (if a.mode = ∅ then b.params else mergedParams C b a) c := by
  rw [params_eq a b hparam, params_eq b a hparam]
  by_cases hca : c ∈ a.mode
  · by_cases hcb : c ∈ b.mode
    · rw [if_pos hcb, if_pos hca, if_pos hca, if_pos hcb]
      obtain ⟨cm, hcm, hpara, rfl⟩ := hparam
      obtain ⟨x, hx, hlegal⟩ := ha.params cm hcm hpara hca
      obtain ⟨y, hy, hlegal'⟩ := hb.params cm hcm hpara hcb
      obtain ⟨h, -, hh, -⟩ := hlegal.roundTrips
      simp only [mergedAt, hh, hx, hy]
      apply mergedParam_comm hh hlegal hlegal'
      intro hxy
      have hf : cm.letter = 'f' := by
        generalize cm.letter = letter at hlegal
        cases hlegal with
        | flood => rfl
        | profile | history | key | limit | link => exact hxy.elim
      rw [hf] at hca hcb hx hy
      exact hperiod ⟨hca, hcb, x, y, hx, hy, hxy⟩
    · rw [if_neg hcb, if_pos hca, if_neg hcb]
  · have hcb := hc.resolve_left hca
    rw [if_pos hcb, if_neg hca, if_neg hca]

/-- With periods that differ, each side shows the settings of the other. -/
theorem getParam_ne_of_periodOnly (ha : LegalModes C a) (hb : LegalModes C b)
    (hperiod : FloodPeriodOnly a b) {a' b' : Channel}
    (ha' : a'.params = if b.mode = ∅ then a.params else mergedParams C a b)
    (hb' : b'.params = if a.mode = ∅ then b.params else mergedParams C b a) :
    a'.getParam C 'f' ≠ b'.getParam C 'f' := by
  obtain ⟨hfa, hfb, x, y, hx, hy, hxy⟩ := hperiod
  have hload : ∃ cm ∈ C.table.channelmodes,
      cm.paracount ≠ 0 ∧ cm.letter = 'f' := by
    rcases ha.isParam_of_mem hfa with hparam | hnone
    · exact hparam
    · simp [paramHandler] at hnone
  obtain ⟨cm, hcm, hpara, hletter⟩ := hload
  obtain ⟨x', hx', hlegal⟩ := ha.params cm hcm hpara (hletter ▸ hfa)
  obtain ⟨y', hy', hlegal'⟩ := hb.params cm hcm hpara (hletter ▸ hfb)
  rw [hletter] at hx' hy' hlegal hlegal'
  obtain rfl := Option.some.inj (hx.symm.trans hx')
  obtain rfl := Option.some.inj (hy.symm.trans hy')
  obtain ⟨h, -, hh, -⟩ := hlegal.roundTrips
  have hyx : y.PeriodOnly x := by
    cases hlegal with
    | flood hx =>
      cases hlegal' with
      | flood hy =>
        refine ⟨?_, Ne.symm hxy.2⟩
        rw [compareFloodprotModes_iff, eq_comm, ← compareFloodprotModes_iff]
        exact hxy.1
  have hparam : C.table.IsParam 'f' := ⟨cm, hcm, hpara, hletter⟩
  have hstored : a'.params 'f' = some y := by
    rw [ha', params_eq a b hparam, if_pos hfb, if_pos hfa]
    simp only [mergedAt, hh, hx, hy]
    exact mergedParam_of_periodOnly hh hlegal hlegal' hxy
  have hstored' : b'.params 'f' = some x := by
    rw [hb', params_eq b a hparam, if_pos hfa, if_pos hfb]
    simp only [mergedAt, hh, hx, hy]
    exact mergedParam_of_periodOnly hh hlegal' hlegal hyx
  intro hsame
  have heq := hlegal'.eq_of_getParam_eq hstored hstored' hlegal hsame
  rw [heq] at hxy
  cases hlegal with
  | flood => exact hxy.2 rfl

end Agreement

/-- Two servers with the same configuration hold the same channel with the
same timestamp.  After each has processed the lines of the other, they agree on
flags and parameters, unless the flood settings differ only in their period, or
one channel is both private and secret and the other one has no modes. -/
theorem agreeOnModes_receiveBurst_iff
    (A B : Server) (hconfig : B.config = A.config) (peerA peerB : Peer)
    (name : List Char) (a b : Channel)
    (hname : a.name.map Char.toLower = b.name.map Char.toLower)
    (hts : a.creationtime = b.creationtime)
    (ha : LegalModes A.config.toParamConfig a)
    (hb : LegalModes A.config.toParamConfig b)
    (haliveA : a.Alive) (haliveB : b.Alive) (msgsA msgsB : List SjoinMessage)
    (hmsgsA : DescribesModes A.config.toParamConfig a msgsA)
    (hmsgsB : DescribesModes A.config.toParamConfig b msgsB) :
    ∃ a' b', receiveBurst A peerB name (some a) msgsB = some a' ∧
      receiveBurst B peerA name (some b) msgsA = some b' ∧
      (AgreeOnModes A.config.toParamConfig a' b' ↔
        ¬ FloodPeriodOnly a b ∧ ¬ (a.PrivateAndSecret ∧ b.mode = ∅) ∧
          ¬ (b.PrivateAndSecret ∧ a.mode = ∅)) := by
  obtain ⟨a', hreceive, hmode, hparams⟩ := receiveBurst_of_ts_eq A peerB name
    hb ha hname.symm haliveA hts.symm hmsgsB
  rw [← hconfig] at ha hb hmsgsA
  obtain ⟨b', hreceive', hmode', hparams'⟩ := receiveBurst_of_ts_eq B peerA
    name ha hb hname haliveB hts hmsgsA
  rw [hconfig] at ha hb
  rw [Server.params, hconfig] at hparams'
  refine ⟨a', b', hreceive, hreceive', ?_⟩
  rw [AgreeOnModes, hmode, hmode', flags_eq_iff, and_comm]
  apply and_congr_left
  intro hflags
  constructor
  · intro hagree hperiod
    refine getParam_ne_of_periodOnly ha hb hperiod hparams hparams'
      (hagree 'f' ?_)
    split
    · exact hperiod.1
    · exact (mem_mergedFlags_of_ne (by decide)).mpr (.inl hperiod.1)
  · intro hperiod c hc
    have hmem : c ∈ a.mode ∨ c ∈ b.mode := by
      split at hc
      · exact .inl hc
      · unfold mergedFlags at hc
        split at hc
        · simpa using Finset.mem_of_mem_erase hc
        · simpa using hc
    have hkind : A.config.table.IsParam c ∨
        paramHandler A.config.toParamConfig c = none := by
      rcases hmem with hmem | hmem
      · exact ha.isParam_of_mem hmem
      · exact hb.isParam_of_mem hmem
    rcases hkind with hparam | hnone
    · rw [Channel.getParam, Channel.getParam, hparams, hparams',
        params_comm ha hb hperiod hparam hmem]
    · rw [Channel.getParam, Channel.getParam, hnone]
      rfl

/-- A channel with flags and a key. -/
theorem legalModes_of_key {ch : Channel} {key : List Char}
    (hmode : ∀ c ∈ ch.mode, ∃ cm ∈ allChannelmodes, cm.letter = c ∧
      cm.isLocal = false ∧ cm.type ≠ .member ∧ (cm.paracount ≠ 0 → c = 'k'))
    (hkey : ch.params 'k' = some (.key key)) (hne : key ≠ [])
    (hvalid : isValidKey key = true) :
    LegalModes sampleConfig.toParamConfig ch := by
  refine ⟨?_, ?_⟩
  · intro c hc
    obtain ⟨cm, hcm, hletter, hlocal, htype, -⟩ := hmode c hc
    exact ⟨cm, hcm, hletter, hlocal, htype⟩
  · intro cm hcm hpara hletter
    obtain ⟨cm', hcm', heq, -, -, hk⟩ := hmode _ hletter
    rw [ModeTable.full.eq_of_letter hcm' hcm heq] at hk
    rw [hk hpara]
    exact ⟨_, hkey, .key hne hvalid⟩

/-- The channel of one side in `agreeOnModes_sample`. -/
def keyedChannel (member : String) (flag : Char) (key : String) : Channel :=
  sampleChannel member {'k', flag} (some ('k', .key key.toList))

/-- Two channels with different flags and different keys. -/
theorem agreeOnModes_sample :
    ∃ a' b', receiveBurst sampleServer (samplePeer "hub") "#test".toList
          (some (keyedChannel "001AAA" 'n' "key"))
          (sendChannelModesSjoin3 sampleConfig.toParamConfig "002".toList true
            (keyedChannel "002AAA" 's' "other")) = some a' ∧
      receiveBurst sampleHub (samplePeer "leaf") "#test".toList
          (some (keyedChannel "002AAA" 's' "other"))
          (sendChannelModesSjoin3 sampleConfig.toParamConfig "001".toList true
            (keyedChannel "001AAA" 'n' "key")) = some b' ∧
      AgreeOnModes sampleConfig.toParamConfig a' b' := by
  have hlegal (member : String) {flag : Char} (hflag : flag ∈ ['n', 's'])
      {key : String} (hkey : key ∈ ["key", "other"]) :
      LegalModes sampleConfig.toParamConfig (keyedChannel member flag key) := by
    refine legalModes_of_key ?_ rfl ?_ ?_
    · simp only [keyedChannel, sampleChannel, Finset.forall_mem_insert,
        Finset.mem_singleton, forall_eq]
      rcases mem_pair.mp hflag with rfl | rfl
      · decide
      · decide
    · revert key
      decide
    · revert key
      decide
  obtain ⟨a', b', ha, hb, hagree⟩ := agreeOnModes_receiveBurst_iff
    sampleServer sampleHub rfl (samplePeer "leaf") (samplePeer "hub")
    "#test".toList (keyedChannel "001AAA" 'n' "key")
    (keyedChannel "002AAA" 's' "other") rfl rfl
    (hlegal _ (by decide) (by decide)) (hlegal _ (by decide) (by decide))
    (.inl (by simp [keyedChannel, sampleChannel]))
    (.inl (by simp [keyedChannel, sampleChannel])) _ _
    (describesModes_sendChannelModesSjoin3 _ "001".toList true (by decide))
    (describesModes_sendChannelModesSjoin3 _ "002".toList true (by decide))
  refine ⟨a', b', ha, hb, hagree.mpr ⟨?_, ?_, ?_⟩⟩
  · intro hperiod
    exact absurd hperiod.1 (by decide)
  · rintro ⟨hsecret, -⟩
    exact absurd hsecret.1 (by decide)
  · rintro ⟨hsecret, -⟩
    exact absurd hsecret.1 (by decide)

def sampleFlood (per : ℕ) : ModeParam :=
  .flood ⟨per, Function.update (fun _ => .off) .join ⟨5, 'i', 0⟩⟩

/-- Each server ends with the period of the other. -/
theorem receiveBurst_floodPeriod :
    ((receiveBurst sampleServer (samplePeer "hub") "#test".toList
        (some (sampleChannel "001AAA" {'f'} (some ('f', sampleFlood 10))))
        (sendChannelModesSjoin3 sampleConfig.toParamConfig "002".toList true
          (sampleChannel "002AAA" {'f'} (some ('f', sampleFlood 15))))).bind
        (·.getParam sampleConfig.toParamConfig 'f')) =
      some "[5j]:15".toList ∧
    ((receiveBurst sampleHub (samplePeer "leaf") "#test".toList
        (some (sampleChannel "002AAA" {'f'} (some ('f', sampleFlood 15))))
        (sendChannelModesSjoin3 sampleConfig.toParamConfig "001".toList true
          (sampleChannel "001AAA" {'f'} (some ('f', sampleFlood 10))))).bind
        (·.getParam sampleConfig.toParamConfig 'f')) =
      some "[5j]:10".toList := by
  decide +kernel

end UnrealIrcd.Channels
