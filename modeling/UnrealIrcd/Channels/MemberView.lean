import UnrealIrcd.Channels.BanMask
import UnrealIrcd.Channels.SjoinTakeover
import UnrealIrcd.Channels.StatusLines

/-!
# What clients see of the status of members

`cmd_sjoin` announces the letters of every item for a user, but stores them only
for a user who is not on the channel yet.  This file compares what was
announced with the letters of the members afterwards
(`statusShown_cmdSjoin_iff`).
-/

namespace UnrealIrcd.Channels

open Support List
open SjoinItem (user_eq_some letters)

/-! ## Masks are words -/

/-- Extended bans do not put blanks into a mask. -/
def BanConfig.WordMasks (C : BanConfig) : Prop :=
  ∀ e ∈ C.extbans, e.letter ≠ ' ' ∧ ' ' ∉ e.name ∧
    ∀ conv, e.convParam = some conv → ∀ ctx s ret, ' ' ∉ s →
      conv ctx s = some ret → ' ' ∉ ret

theorem convertRegularBan_word {mask str : List Char} (hmask : ' ' ∉ mask)
    (h : convertRegularBan mask = some str) : IsWord str := by
  obtain ⟨nick, user, host, rfl, hnick, huser, hhost, -⟩ :=
    convertRegularBan_eq_some h
  have hpart : ∀ {len : ℕ} {s : List Char}, 0 < len → s ⊆ mask →
      ' ' ∉ banPart len s := fun hlen hs =>
    not_mem_banPart hlen (by decide) fun hmem => hmask (hs hmem)
  refine ⟨by simp [banMask], ?_⟩
  simp only [banMask, mem_append, mem_cons, not_or]
  exact ⟨hpart (by decide) hnick.subset, by decide, hpart (by decide) huser,
    by decide, hpart (by decide) hhost⟩

variable {C : BanConfig}

theorem prefixWithExtban_word {e : Extban} {ret : List Char}
    (hletter : e.letter ≠ ' ') (hname : ' ' ∉ e.name) (hret : ' ' ∉ ret) :
    IsWord (prefixWithExtban C e ret) := by
  have hblank : ' ' ∉ '~' ::
      ((if C.namedExtendedBans then e.name else [e.letter]) ++ ':' :: ret) := by
    simp only [mem_cons, mem_append, not_or]
    refine ⟨by decide, ?_, by decide, hret⟩
    split
    · exact hname
    · exact fun hmem => hletter (mem_singleton.mp hmem).symm
  exact IsWord.take ⟨cons_ne_nil _ _, hblank⟩ (by decide)

theorem cleanExtban_word (hC : C.WordMasks) {ctx : BanContext}
    {mask str : List Char} (hmask : IsWord mask)
    (h : cleanExtban C ctx mask = some str) : IsWord str := by
  unfold cleanExtban at h
  split at h
  · split at h
    · cases h
    split at h
    · cases h
      split
      · exact hmask.take (by decide)
      · exact hmask
    · cases h
  · next extban rest hfind =>
      split at h
      · next conv hconv =>
          obtain ⟨ret, hret, rfl⟩ := Option.map_eq_some_iff.mp h
          unfold findmodByBantype at hfind
          dsimp only at hfind
          split at hfind
          · cases hfind
          · obtain ⟨e, he, heq⟩ := Option.map_eq_some_iff.mp hfind
            cases heq
            obtain ⟨hletter, hname, hlaw⟩ := hC _ (mem_of_find?_eq_some he)
            have hrest : ' ' ∉ (mask.dropWhile (· != ':')).drop 1 := fun hmem =>
              hmask.2 ((dropWhile_sublist _).subset (mem_of_mem_drop hmem))
            exact (prefixWithExtban_word hletter hname
              (hlaw conv hconv ctx _ ret hrest hret)).take (by decide)
      · split at h
        · cases h
          exact hmask.take (by decide)
        · cases h

theorem cleanBanMask_word (hC : C.WordMasks) {ctx : BanContext}
    {maskIn str : List Char} (h : cleanBanMask C ctx maskIn = some str) :
    IsWord str := by
  unfold cleanBanMask at h
  dsimp only at h
  split at h
  · cases h
  split at h
  · cases h
  have hblank : ' ' ∉ ((maskIn.dropWhile (· == ':')).take 511).takeWhile
      (· != ' ') := fun hmem => by
    simpa using mem_takeWhile_imp hmem
  split at h
  · next hext =>
      refine cleanExtban_word hC ⟨fun hnil => ?_, hblank⟩ h
      rw [hnil] at hext
      cases hext
  · exact convertRegularBan_word hblank h

/-! ## Items -/

def SjoinItem.statusChanges (S : Server) (peer : Peer) (side : SjoinSide)
    (i : SjoinItem) : List ModeChange :=
  match i.user S peer with
  | none => []
  | some u => (i.letters side).map fun c => ⟨.add, c, u.name⟩

variable {u : User} {T : ModeTable} {c : Char} {S : Server} {peer : Peer}
  {side : SjoinSide} {ch : Channel} {items : List SjoinItem} {i : SjoinItem}
  {b : ModeBuffer}

theorem takesParam_of_isStatus (h : T.IsStatus c) :
    takesParam T .add c = true ∧ c ≠ '+' ∧ c ≠ '-' := by
  obtain ⟨cm, hcm, rfl, htype⟩ := h
  have hall : ∀ x ∈ allChannelmodes, x.type = .member → x.paracount ≠ 0 ∧
      x.letter ≠ '+' ∧ x.letter ≠ '-' := by
    decide
  obtain ⟨hparacount, hsigns⟩ := hall cm (T.mem_all hcm) htype
  refine ⟨?_, hsigns⟩
  rw [takesParam, T.findChannelModeHandler_eq_some.mpr ⟨hcm, rfl⟩]
  simp [Cmode.paracountFor, hparacount]

/-- Buffers with plus signs only, whose parameters are read as written. -/
structure ModeBuffer.Adding (T : ModeTable) (b : ModeBuffer) : Prop where
  exact : b.Exact T
  oneSign : b.OneSign .add

theorem adding_start (T : ModeTable) (sent : List LocalMessage) :
    (ModeBuffer.start sent '+').Adding T ∧
      (ModeBuffer.start sent '+').changes T = announced T sent := by
  refine ⟨⟨⟨[], by simp, rfl, rfl⟩, ⟨[], rfl, by simp⟩⟩, ?_⟩
  exact append_nil _

theorem ModeBuffer.Adding.join (h : b.Adding T) (client : List Char) :
    let b' : ModeBuffer := { b with sent := b.sent ++ [.join client] }
    b'.Adding T ∧ b'.changes T = b.changes T := by
  refine ⟨⟨h.exact, h.oneSign⟩, ?_⟩
  rw [ModeBuffer.changes, announced_append]
  exact congrArg (· ++ _) (append_nil _)

theorem ModeBuffer.Adding.additAll (h : b.Adding T) {modes name : List Char}
    (hmodes : ∀ c ∈ modes, T.IsStatus c) (hname : IsWord name) :
    (b.additAll modes name).Adding T ∧
      (b.additAll modes name).changes T =
        b.changes T ++ modes.map fun c => ⟨.add, c, name⟩ := by
  induction modes generalizing b with
  | nil => exact ⟨h, (append_nil _).symm⟩
  | cons c modes ih =>
    obtain ⟨hparam, hplus, hminus⟩ :=
      takesParam_of_isStatus (hmodes c mem_cons_self)
    obtain ⟨hexact, hone, hchanges⟩ :=
      h.exact.addit hplus hminus hparam h.oneSign hname
    obtain ⟨hadding, hrest⟩ := ih ⟨hexact, hone⟩ fun d hd =>
      hmodes d (mem_cons_of_mem c hd)
    refine ⟨hadding, hrest.trans ?_⟩
    rw [hchanges, append_assoc]
    rfl

theorem ModeBuffer.Adding.additList (h : b.Adding T) (lm : ListMode)
    {mask : List Char} (hmask : IsWord mask) :
    (b.addit lm.letter mask).Adding T ∧
      statusChanges T ((b.addit lm.letter mask).changes T) =
        statusChanges T (b.changes T) := by
  have hparam : takesParam T .add lm.letter = true := by
    rw [takesParam, ofLetter_letter]
    rfl
  have hsigns : lm.letter ≠ '+' ∧ lm.letter ≠ '-' := by
    cases lm with
    | ban | except | invex => decide
  obtain ⟨hexact, hone, hchanges⟩ :=
    h.exact.addit hsigns.1 hsigns.2 hparam h.oneSign hmask
  have hnone : statusChanges T [⟨.add, lm.letter, mask⟩] = [] :=
    filter_eq_nil_iff.mpr fun x hx => by
      rw [mem_singleton.mp hx, decide_eq_true_eq]
      exact not_isStatus_listMode lm
  refine ⟨⟨hexact, hone⟩, ?_⟩
  rw [hchanges, statusChanges_append, hnone, append_nil]

/-- An item announces its letters and nothing else about the status of
members. -/
theorem adding_sjoinItem (hwords : S.config.bans.WordMasks)
    (hmodes : i.isList = false → ∀ a ∈ i.modes, S.table.IsStatus a)
    {s : SjoinState} (hs : s.buffer.Adding S.table) :
    (sjoinItem S peer side s i).buffer.Adding S.table ∧
      statusChanges S.table
          ((sjoinItem S peer side s i).buffer.changes S.table) =
        statusChanges S.table (s.buffer.changes S.table) ++
          i.statusChanges S peer side := by
  have hnone : i.user S peer = none → i.statusChanges S peer side = [] := by
    intro huser
    rw [SjoinItem.statusChanges, huser]
  have huser : ∀ {u : User}, i.user S peer = some u → ∀ {b : ModeBuffer},
      b.Adding S.table →
      b.changes S.table = s.buffer.changes S.table →
      (b.additAll (i.letters side) u.name).Adding S.table ∧
        statusChanges S.table
          ((b.additAll (i.letters side) u.name).changes S.table) =
          statusChanges S.table (s.buffer.changes S.table) ++
            i.statusChanges S peer side := by
    intro u huser b hb hchanges
    obtain ⟨hlist, hfind, -⟩ := user_eq_some.mp huser
    have hu := S.mem_of_findUser hfind
    have hletters : ∀ c ∈ i.letters side, S.table.IsStatus c := by
      intro c hc
      unfold letters at hc
      split at hc
      · cases hc
      · exact hmodes hlist c hc
    obtain ⟨hadding, hadd⟩ :=
      hb.additAll hletters ⟨S.names_ne_nil u hu, S.names_word u hu⟩
    refine ⟨hadding, ?_⟩
    rw [hadd, hchanges, statusChanges_append, SjoinItem.statusChanges, huser]
    refine congrArg _ (filter_eq_self.mpr fun x hx => ?_)
    obtain ⟨c, hc, rfl⟩ := mem_map.mp hx
    exact decide_eq_true (hletters c hc)
  refine sjoinItem_rule ?_ ?_ ?_ ?_
  · exact fun h => ⟨hs, by rw [hnone h, append_nil]⟩
  · intro lm str list buffer h hclean hbuffer
    rw [hnone h, append_nil]
    rcases hbuffer with rfl | rfl
    · exact ⟨hs, rfl⟩
    · exact hs.additList lm
        ((cleanBanMask_word hwords hclean).take (by decide))
  · exact fun u hu _ => huser hu hs rfl
  · intro u hu _
    obtain ⟨hjoin, hchanges⟩ := hs.join u.id
    exact huser hu hjoin hchanges

theorem adding_foldl_sjoinItem (hwords : S.config.bans.WordMasks)
    (hmodes : ∀ i ∈ items, i.isList = false → ∀ a ∈ i.modes, S.table.IsStatus a)
    {s : SjoinState} (hs : s.buffer.Adding S.table) :
    statusChanges S.table
        ((items.foldl (sjoinItem S peer side) s).buffer.changes
          S.table) =
      statusChanges S.table (s.buffer.changes S.table) ++
        items.flatMap (SjoinItem.statusChanges S peer side) := by
  induction items generalizing s with
  | nil => exact (append_nil _).symm
  | cons i items ih =>
    obtain ⟨hadding, hchanges⟩ := @adding_sjoinItem S peer side i hwords
      (hmodes i mem_cons_self) s hs
    rw [foldl_cons, ih (fun j hj => hmodes j (mem_cons_of_mem i hj))
      hadding, hchanges, append_assoc, flatMap_cons]

/-! ## Members after the items -/

def Channel.membersFor (ch : Channel) (client : List Char) : List Member :=
  ch.members.filter (·.client == client)

theorem isMember_iff {client : List Char} :
    ch.isMember client = true ↔ ch.membersFor client ≠ [] := by
  simp [Channel.isMember, Channel.membersFor]

def joinedMember (T : ModeTable) (client letters : List Char) : Member :=
  letters.foldl (addMemberModeFast T) ⟨client, [], []⟩

theorem membersFor_sjoinItem {u : User} (hu : u ∈ S.users) (s : SjoinState) :
    (sjoinItem S peer side s i).channel.membersFor u.id =
      if s.channel.membersFor u.id = [] ∧ i.user S peer = some u then
        [joinedMember S.table u.id (i.letters side)]
      else s.channel.membersFor u.id := by
  refine sjoinItem_rule ?_ ?_ ?_ ?_
  · exact fun h => by rw [h, if_neg (by simp)]
  · intro lm _ list _ h _ _
    rw [h, if_neg (by simp), Channel.membersFor, Channel.members_setList]
    rfl
  · intro u' huser hold
    rw [if_neg]
    rintro ⟨hnil, h⟩
    rw [Option.some.inj (huser.symm.trans h)] at hold
    exact isMember_iff.mp hold hnil
  · intro u' huser hnew
    rw [huser, Channel.membersFor, addUserToChannel, filter_cons,
      client_foldl_addMemberModeFast]
    by_cases heq : u' = u
    · subst heq
      have hnil : s.channel.membersFor u'.id = [] := by
        by_contra hne
        rw [isMember_iff.mpr hne] at hnew
        cases hnew
      rw [if_pos (beq_self_eq_true _), if_pos ⟨hnil, rfl⟩,
        ← Channel.membersFor, hnil]
      rfl
    · have hu' := S.mem_of_findUser (user_eq_some.mp huser).2.1
      have hid : u'.id ≠ u.id := fun hid =>
        heq (inj_on_of_nodup_map S.nodup_ids hu' hu hid)
      rw [if_neg (by simpa using hid),
        if_neg fun h => heq (Option.some.inj h.2)]
      rfl

theorem membersFor_foldl_sjoinItem (hu : u ∈ S.users) (items : List SjoinItem)
    (s : SjoinState) :
    (items.foldl (sjoinItem S peer side) s).channel.membersFor u.id =
      if s.channel.membersFor u.id = [] then
        ((items.find? fun i => i.user S peer = some u).map fun i =>
          joinedMember S.table u.id (i.letters side)).toList
      else s.channel.membersFor u.id := by
  induction items generalizing s with
  | nil =>
    split
    · next hnil => exact hnil
    · rfl
  | cons i items ih =>
    have hstep := @membersFor_sjoinItem S peer side i u hu s
    rw [foldl_cons, ih]
    by_cases hnil : s.channel.membersFor u.id = []
    · by_cases huser : i.user S peer = some u
      · rw [if_pos ⟨hnil, huser⟩] at hstep
        rw [hstep, if_neg (cons_ne_nil _ _), if_pos hnil,
          find?_cons_of_pos (by simpa using huser)]
        rfl
      · rw [if_neg fun h => huser h.2] at hstep
        rw [hstep, if_pos hnil, if_pos hnil,
          find?_cons_of_neg (by simpa using huser)]
    · rw [if_neg fun h => hnil h.1] at hstep
      rw [hstep, if_neg hnil, if_neg hnil]

theorem mem_joinedMember {client letters : List Char}
    (hletters : ∀ c ∈ letters, T.IsStatus c)
    (hlen : letters.length < membermodeslen) :
    c ∈ (joinedMember T client letters).memberModes ↔ c ∈ letters := by
  have hfold : ∀ (letters : List Char) (m : Member),
      (∀ c ∈ letters, T.IsStatus c) →
      m.memberModes.length + letters.length < membermodeslen →
      (c ∈ (letters.foldl (addMemberModeFast T) m).memberModes ↔
        c ∈ letters ∨ c ∈ m.memberModes) := by
    intro letters
    induction letters with
    | nil =>
      intro m _ _
      simp
    | cons a letters ih =>
      intro m hletters hlen
      rw [length_cons] at hlen
      obtain ⟨cm, hcm, hletter, htype⟩ := hletters a mem_cons_self
      have hadd : (addMemberModeFast T m a).memberModes =
          insertByRank T cm.rank a m.memberModes := by
        have hroom : ¬ membermodeslen - 1 ≤ m.memberModes.length := by omega
        simp only [addMemberModeFast, addlettertomstring,
          T.findChannelModeHandler_eq_some.mpr ⟨hcm, hletter⟩, htype, hroom,
          ne_eq, not_true, if_false]
      have hperm := @insertByRank_perm T cm.rank a m.memberModes
      rw [foldl_cons, ih _ (fun d hd =>
        hletters d (mem_cons_of_mem a hd)) (by
          rw [hadd, hperm.length_eq, length_cons]
          omega), hadd, hperm.mem_iff, mem_cons, mem_cons]
      tauto
  rw [joinedMember, hfold letters _ hletters (by simpa using hlen)]
  simp

theorem length_parseSigns {modes s : List Char}
    (h : modes.length < membermodeslen) :
    (parseSigns T modes s).1.length < membermodeslen := by
  induction s generalizing modes with
  | nil => exact h
  | cons c s ih =>
    rw [parseSigns]
    split
    · exact h
    · next m _ =>
        have hstep : (strlcatLetter modes m membermodeslen).length <
            membermodeslen := by
          unfold strlcatLetter
          split
          · exact h
          · next hroom =>
              rw [not_or, not_le] at hroom
              rw [length_append, length_singleton]
              omega
        split
        · exact hstep
        · exact ih hstep

/-! ## Before the items -/

/-- What the status of members is stored in: every member is there once and has
letters of member modes, and the flags are no member modes. -/
structure StatusState (T : ModeTable) (ch : Channel) : Prop where
  nodup : (ch.members.map Member.client).Nodup
  letters : ∀ m ∈ ch.members, ∀ c ∈ m.memberModes, T.IsStatus c
  mode : ∀ c ∈ ch.mode, ¬ T.IsStatus c

def OnlyRemovals (T : ModeTable) (msgs : List LocalMessage) : Prop :=
  ∀ x ∈ statusChanges T (announced T msgs), x.what = .del

theorem onlyRemovals_of_noStatus {msgs : List LocalMessage}
    (h : ∀ msg ∈ msgs, msg.NoStatus T) : OnlyRemovals T msgs := by
  intro x hx
  rw [statusChanges_announced h] at hx
  cases hx

/-- Buffers that start with a minus and have no plus. -/
structure ModeBuffer.Removing (T : ModeTable) (b : ModeBuffer) : Prop where
  sent : OnlyRemovals T b.sent
  modebuf : ∃ letters, b.modebuf = '-' :: letters ∧ '+' ∉ letters

namespace ModeBuffer.Removing

theorem send (h : b.Removing T) : OnlyRemovals T b.send := by
  intro x hx
  rw [announced_send, ModeBuffer.changes, statusChanges_append,
    mem_append] at hx
  rcases hx with hx | hx
  · exact h.sent x hx
  · obtain ⟨letters, hmodebuf, hplus⟩ := h.modebuf
    rw [hmodebuf] at hx
    exact what_of_mem_readChanges hplus (mem_statusChanges.mp hx).1

theorem finish (h : b.Removing T) : OnlyRemovals T b.finish := by
  unfold ModeBuffer.finish
  split
  · exact h.sent
  · exact h.send

theorem addit (h : b.Removing T) (hc : c ≠ '+') (param : List Char) :
    (b.addit c param).Removing T := by
  obtain ⟨letters, hmodebuf, hplus⟩ := h.modebuf
  unfold ModeBuffer.addit
  split
  · refine ⟨h.sent, letters ++ [c], by simp [hmodebuf], ?_⟩
    rw [mem_append, mem_singleton, not_or]
    exact ⟨hplus, Ne.symm hc⟩
  · refine ⟨h.send, [c], by simp [hmodebuf], ?_⟩
    rw [mem_singleton]
    exact Ne.symm hc

theorem additBans (h : b.Removing T) (lm : ListMode) (list : List Ban) :
    (b.additBans lm.letter list).Removing T := by
  have hletter : lm.letter ≠ '+' := by
    cases lm with
    | ban | except | invex => decide
  unfold ModeBuffer.additBans
  apply List.foldlRecOn (motive := ModeBuffer.Removing T)
  · exact h
  · exact fun b hb ban _ => hb.addit hletter ban.banstr

theorem additAll (h : b.Removing T) {modes : List Char}
    (hmodes : ∀ c ∈ modes, T.IsStatus c) (name : List Char) :
    (b.additAll modes name).Removing T := by
  unfold ModeBuffer.additAll
  apply List.foldlRecOn (motive := ModeBuffer.Removing T)
  · exact h
  · exact fun b hb c hc =>
      hb.addit (takesParam_of_isStatus (hmodes c hc)).2.1 name

end ModeBuffer.Removing

theorem removeOurModes_status (hmode : ∀ c ∈ ch.mode, ¬ S.table.IsStatus c) :
    (removeOurModes S peer ch).1.members = ch.members ∧
      (∀ c ∈ (removeOurModes S peer ch).1.mode,
        ¬ S.table.IsStatus c) ∧
      ∀ msg ∈ (removeOurModes S peer ch).2, msg.NoStatus S.table := by
  unfold removeOurModes
  dsimp only
  split
  · exact ⟨rfl, hmode, fun msg hmsg => absurd hmsg not_mem_nil⟩
  · have hletters : S.table.NoStatus
        ('-' :: (channelModes S.params ch).modeline.drop 1) := by
      refine (noStatus_sign .del).append fun c hc => ?_
      obtain ⟨cm, hcm, rfl⟩ := mem_map.mp hc
      exact hmode _ (mem_shownModes.mp hcm).2.2
    have hset := setMode_statusFree S peer.requester hmode hletters
      (mp2parv (channelModes S.params ch).paramline)
    exact ⟨hset.members, hset.mode, noStatus_modeMessages hmode hset⟩

theorem sjoinStart_status (hch : StatusState S.table ch)
    (side : SjoinSide) (ts : ℤ) :
    (sjoinStart S peer side ts ch).1.members =
        (if side = .removeOurs then ch.members.map Member.wiped
          else ch.members) ∧
      (∀ c ∈ (sjoinStart S peer side ts ch).1.mode,
        ¬ S.table.IsStatus c) ∧
      OnlyRemovals S.table (sjoinStart S peer side ts ch).2 := by
  have hnone : OnlyRemovals S.table [] :=
    onlyRemovals_of_noStatus fun msg hmsg => absurd hmsg not_mem_nil
  cases side with
  | created | removeTheirs | merge => exact ⟨rfl, hch.mode, hnone⟩
  | removeOurs =>
    obtain ⟨hmembers, hmode, hmsgs⟩ :=
      @removeOurModes_status S peer { ch with creationtime := ts } hch.mode
    refine ⟨?_, hmode, ?_⟩
    · rw [if_pos rfl, ← show _ = ch.members from hmembers]
      rfl
    · apply ModeBuffer.Removing.finish
      apply List.foldlRecOn (motive := ModeBuffer.Removing S.table)
      · refine ((ModeBuffer.Removing.additBans ?_ .ban _).additBans .except
          _).additBans .invex _
        exact ⟨onlyRemovals_of_noStatus hmsgs, [], rfl, not_mem_nil⟩
      · intro b hb m hm
        rw [hmembers] at hm
        exact hb.additAll (hch.letters m hm) _

/-! ## After the items -/

theorem secureonlyChannelSync_members (side : SjoinSide) (nomode : Bool) :
    (∃ kicked : List (List Char), (∀ client ∈ kicked, S.insecure client = true) ∧
      (secureonlyChannelSync S side nomode ch).1.members =
        ch.members.filter fun m => decide (m.client ∉ kicked)) ∧
      ∀ msg ∈ (secureonlyChannelSync S side nomode ch).2,
        msg.NoStatus S.table := by
  unfold secureonlyChannelSync
  split
  · refine ⟨⟨insecureMembers S ch, ?_, ?_⟩, ?_⟩
    · intro client hclient
      unfold insecureMembers at hclient
      split at hclient
      · exact (mem_filter.mp hclient).2
      · cases hclient
    · exact congrArg Channel.members (foldl_removeUserFromChannel ch _)
    · intro msg hmsg
      obtain ⟨client, -, rfl⟩ := mem_map.mp hmsg
      trivial
  · refine ⟨⟨[], fun client hclient => absurd hclient not_mem_nil, ?_⟩,
      fun msg hmsg => absurd hmsg not_mem_nil⟩
    simp

theorem membersFor_eq_toList (h : (ch.members.map Member.client).Nodup)
    (client : List Char) :
    ch.membersFor client = (ch.findMember client).toList := by
  unfold Channel.membersFor Channel.findMember
  generalize ch.members = members at h ⊢
  induction members with
  | nil => rfl
  | cons m members ih =>
    rw [map_cons, nodup_cons] at h
    by_cases hm : m.client = client
    · have hnone : members.filter (·.client == client) = [] := by
        refine filter_eq_nil_iff.mpr fun m' hm' heq => h.1 ?_
        rw [hm, ← eq_of_beq heq]
        exact mem_map_of_mem hm'
      rw [filter_cons_of_pos (by simpa using hm), hnone,
        find?_cons_of_pos (by simpa using hm)]
      rfl
    · rw [filter_cons_of_neg (by simpa using hm),
        find?_cons_of_neg (by simpa using hm)]
      exact ih h.2

/-! ## The command -/

/-- The letter was announced for the nick name, and not taken back later. -/
def ShownWith (T : ModeTable) (msgs : List LocalMessage) (c : Char)
    (nick : List Char) : Prop :=
  ∃ before after, announced T msgs = before ++ ⟨.add, c, nick⟩ :: after ∧
    ⟨.del, c, nick⟩ ∉ after

theorem shownWith_iff {msgs : List LocalMessage}
    {removed added : List ModeChange}
    (h : statusChanges T (announced T msgs) = removed ++ added)
    (hremoved : ∀ x ∈ removed, x.what = .del)
    (hadded : ∀ x ∈ added, x.what = .add) (hc : T.IsStatus c)
    {nick : List Char} : ShownWith T msgs c nick ↔ ⟨.add, c, nick⟩ ∈ added := by
  constructor
  · rintro ⟨before, after, heq, -⟩
    have hmem : ⟨.add, c, nick⟩ ∈ statusChanges T (announced T msgs) :=
      mem_statusChanges.mpr ⟨by rw [heq]; simp, hc⟩
    rw [h] at hmem
    rcases mem_append.mp hmem with hmem | hmem
    · cases hremoved _ hmem
    · exact hmem
  · intro hmem
    obtain ⟨before, after, rfl⟩ := append_of_mem hmem
    rw [← append_assoc] at h
    obtain ⟨start, rest, hstart, -, hrest⟩ := filter_eq_append_iff.mp h
    obtain ⟨skipped, after', rfl, -, -, hafter⟩ := filter_eq_cons_iff.mp hrest
    refine ⟨start ++ skipped, after', by rw [hstart, append_assoc],
      fun hdel => ?_⟩
    have hdel' : ⟨.del, c, nick⟩ ∈ after := by
      rw [← hafter]
      exact mem_statusChanges.mpr ⟨hdel, hc⟩
    cases hadded _ (mem_append_right before (mem_cons_of_mem _ hdel'))

/-- What the clients were told about the status of a member is what the member
has. -/
def StatusShown (S : Server) (r : Option Channel × List LocalMessage) : Prop :=
  ∀ ch, r.1 = some ch → ∀ u ∈ S.users, ∀ m ∈ ch.members, m.client = u.id →
    ∀ c, S.config.table.IsStatus c → ShownWith S.config.table r.2 c u.name →
      c ∈ m.memberModes

/-- The letters that a user has on the channel: for a member those from before,
unless our modes are removed, and for a user who joins those of the first
item. -/
def lettersOf (S : Server) (peer : Peer) (side : SjoinSide) (ch : Channel)
    (items : List SjoinItem) (u : User) : List Char :=
  match ch.findMember u.id with
  | some m => if side = .removeOurs then [] else m.memberModes
  | none =>
    ((items.find? fun i => i.user S peer = some u).map
      SjoinItem.modes).getD []

theorem mem_flatMap_statusChanges (hu : u ∈ S.users) :
    ⟨.add, c, u.name⟩ ∈ items.flatMap (SjoinItem.statusChanges S peer side) ↔
      side ≠ .removeTheirs ∧
        ∃ i ∈ items, i.user S peer = some u ∧ c ∈ i.modes := by
  rw [mem_flatMap]
  constructor
  · rintro ⟨i, hi, hmem⟩
    unfold SjoinItem.statusChanges at hmem
    split at hmem
    · cases hmem
    · next u' huser =>
        obtain ⟨c', hc', heq⟩ := mem_map.mp hmem
        obtain ⟨-, rfl, hname⟩ := ModeChange.mk.inj heq
        have hu' := S.mem_of_findUser (user_eq_some.mp huser).2.1
        obtain rfl : u' = u := inj_on_of_nodup_map S.nodup_names hu' hu
          (congrArg (List.map Char.toLower) hname)
        unfold letters at hc'
        split at hc'
        · cases hc'
        · next hside => exact ⟨hside, i, hi, huser, hc'⟩
  · rintro ⟨hside, i, hi, huser, hc⟩
    refine ⟨i, hi, ?_⟩
    rw [SjoinItem.statusChanges, huser, letters, if_neg hside]
    exact mem_map_of_mem hc

def afterItems (S : Server) (peer : Peer) (side : SjoinSide) (ts : ℤ)
    (ch : Channel) (items : List SjoinItem) : SjoinState :=
  items.foldl (sjoinItem S peer side)
    ⟨(sjoinStart S peer side ts ch).1,
      .start (sjoinStart S peer side ts ch).2 '+'⟩

theorem membersFor_afterItems (hch : StatusState S.table ch)
    (hside : side ≠ .removeTheirs) (ts : ℤ)
    (hitems : ∀ i ∈ items,
      (i.isList = false → ∀ a ∈ i.modes, S.table.IsStatus a) ∧
        i.modes.length < membermodeslen)
    (hi : i ∈ items) (huser : i.user S peer = some u) :
    ∃ m, (afterItems S peer side ts ch items).channel.membersFor u.id = [m] ∧
      ∀ c, c ∈ m.memberModes ↔ c ∈ lettersOf S peer side ch items u := by
  have hu := S.mem_of_findUser (user_eq_some.mp huser).2.1
  have hstart : (sjoinStart S peer side ts ch).1.membersFor u.id =
      if side = .removeOurs then (ch.findMember u.id).toList.map Member.wiped
      else (ch.findMember u.id).toList := by
    rw [← membersFor_eq_toList hch.nodup, Channel.membersFor,
      (@sjoinStart_status S peer ch hch side ts).1]
    split
    · rw [filter_map]
      rfl
    · rfl
  rw [afterItems, membersFor_foldl_sjoinItem hu, hstart, lettersOf]
  cases hfind : ch.findMember u.id with
  | some m =>
    by_cases hours : side = .removeOurs
    · refine ⟨m.wiped, ?_, ?_⟩
      · simp [hours]
      · simp [hours, Member.wiped]
    · refine ⟨m, ?_, ?_⟩
      · simp [hours]
      · simp [hours]
  | none =>
    obtain ⟨first, hfirst⟩ : ∃ first,
        items.find? (fun i => i.user S peer = some u) = some first :=
      Option.isSome_iff_exists.mp
        (find?_isSome.mpr ⟨i, hi, by simpa using huser⟩)
    have hfirst' : first.user S peer = some u := by
      simpa using find?_some hfirst
    obtain ⟨hstatus, hlen⟩ := hitems first (mem_of_find?_eq_some hfirst)
    refine ⟨joinedMember S.table u.id first.modes, ?_, fun c => ?_⟩
    · simp [hfirst, letters, hside]
    · rw [mem_joinedMember
        (hstatus (user_eq_some.mp hfirst').1) hlen, hfirst]
      rfl

theorem mode_afterItems (hch : StatusState S.table ch) (ts : ℤ)
    (items : List SjoinItem) :
    ∀ c ∈ (afterItems S peer side ts ch items).channel.mode,
      ¬ S.table.IsStatus c := by
  rw [afterItems, (foldl_sjoinItem_sameModes S peer side items _).1.mode]
  exact (@sjoinStart_status S peer ch hch side ts).2.1

section Command

variable (hch : StatusState S.table ch) (ts : ℤ) {msg : SjoinMessage}
  (hmsg : ∀ p, msg.modes = some p → S.table.NoStatus p.1)
  (hitems : items = parseItems S.table peer.sjsby msg.items)

include hch hmsg hitems

/-- What is announced about the status of members: removals first, then the
letters of the items. -/
theorem statusChanges_sjoinChannel (hwords : S.config.bans.WordMasks) :
    statusChanges S.table
        (announced S.table (sjoinChannel S peer side ts ch msg).2) =
      statusChanges S.table
          (announced S.table (sjoinStart S peer side ts ch).2) ++
        items.flatMap (SjoinItem.statusChanges S peer side) := by
  obtain ⟨hadding, hstart⟩ := adding_start S.table
    (sjoinStart S peer side ts ch).2
  have hfold := @adding_foldl_sjoinItem S peer side items hwords
    (fun i hi => isStatus_of_mem_parseItems (hitems ▸ hi))
    ⟨(sjoinStart S peer side ts ch).1, _⟩ hadding
  have hmodes := (sjoinModes_noStatus S peer
    (@mode_afterItems S peer side ch hch ts items) hmsg side).2
  have hsync := (@secureonlyChannelSync_members S (sjoinModes S peer side
    (afterItems S peer side ts ch items).channel msg.modes).1 side
    msg.modes.isNone).2
  subst hitems
  rw [sjoinChannel, announced_append, announced_append, statusChanges_append,
    statusChanges_append]
  refine (congrArg₂ (· ++ ·) (congrArg₂ (· ++ ·) ?_
    (statusChanges_announced hmodes)) (statusChanges_announced hsync)).trans
      ((append_nil _).trans (append_nil _))
  rw [announced_finish]
  exact hfold.trans (congrArg (fun x => statusChanges _ x ++ _) hstart)

/-- The members at the end are those behind the items, but for local users. -/
theorem mem_sjoinChannel {u : User} (hu : u ∈ S.users) {m : Member}
    (hclient : m.client = u.id) :
    (m ∈ (sjoinChannel S peer side ts ch msg).1.members →
        m ∈ (afterItems S peer side ts ch items).channel.membersFor u.id) ∧
      (u.myUser = false →
        m ∈ (afterItems S peer side ts ch items).channel.membersFor u.id →
        m ∈ (sjoinChannel S peer side ts ch msg).1.members) := by
  have hmodes := (sjoinModes_noStatus S peer
    (@mode_afterItems S peer side ch hch ts items) hmsg side).1
  obtain ⟨⟨kicked, hkicked, hmembers⟩, -⟩ := @secureonlyChannelSync_members S
    (sjoinModes S peer side (afterItems S peer side ts ch items).channel
      msg.modes).1 side msg.modes.isNone
  subst hitems
  rw [hmodes] at hmembers
  have hend : (sjoinChannel S peer side ts ch msg).1.members = _ := hmembers
  rw [hend, Channel.membersFor, mem_filter, mem_filter]
  constructor
  · rintro ⟨hm, -⟩
    exact ⟨hm, by simpa using hclient⟩
  · rintro hmy ⟨hm, -⟩
    refine ⟨hm, decide_eq_true fun hin => ?_⟩
    have hinsecure := hkicked _ hin
    rw [hclient, S.not_insecure hu hmy] at hinsecure
    cases hinsecure

end Command

theorem wordMasks_sampleServer : sampleServer.config.bans.WordMasks :=
  fun _ he => absurd he not_mem_nil

end UnrealIrcd.Channels
