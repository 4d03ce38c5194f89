import UnrealIrcd.Channels.ModeEffect
import UnrealIrcd.Channels.Sjoin

/-!
# The status letters of members

The letters of a member are kept in descending order of rank, and the two
copies of them agree.  Joins, mode changes and the removals by services keep
this.  SJOIN keeps it as long as no item has the same status sign twice: the
letters of an item are inserted one by one, without a look at what is there.
-/

namespace UnrealIrcd.Channels

open Support List

variable {T : ModeTable} {s : List Char} {letter : Char} {m : Member}
  {ch : Channel}

/-! ## Ordered strings -/

/-- The letters are member modes, in strictly descending order of rank. -/
structure StatusOrdered (T : ModeTable) (s : List Char) : Prop where
  isStatus : ∀ a ∈ s, T.IsStatus a
  descending : s.Pairwise fun a b => T.rankOf b < T.rankOf a

namespace StatusOrdered

theorem nil : StatusOrdered T [] := ⟨by simp, .nil⟩

theorem nodup (h : StatusOrdered T s) : s.Nodup := by
  refine h.descending.imp ?_
  intro a b hlt hab
  rw [hab] at hlt
  exact lt_irrefl _ hlt

theorem length_le (h : StatusOrdered T s) : s.length ≤ 5 :=
  (h.nodup.subperm fun _ ha => T.mem_statusLetters (h.isStatus _ ha)).length_le

theorem sublist {t : List Char} (h : StatusOrdered T s) (ht : t.Sublist s) :
    StatusOrdered T t :=
  ⟨fun a ha => h.isStatus a (ht.subset ha), h.descending.sublist ht⟩

theorem tail {c : Char} (h : StatusOrdered T (c :: s)) : StatusOrdered T s :=
  h.sublist (sublist_cons_self c s)

end StatusOrdered

theorem insertByRank_perm (rank : ℤ) (letter : Char) (s : List Char) :
    (insertByRank T rank letter s).Perm (letter :: s) := by
  induction s with
  | nil => exact List.Perm.refl _
  | cons c s ih =>
    have hlater : (c :: insertByRank T rank letter s).Perm
        (letter :: c :: s) :=
      (ih.cons c).trans (List.Perm.swap letter c s)
    rw [insertByRank]
    split
    · exact hlater
    split
    · exact List.Perm.refl _
    · exact hlater

section Insert

variable (hs : StatusOrdered T s) (hletter : T.IsStatus letter)

include hs hletter

theorem StatusOrdered.insertByRank (hnew : letter ∉ s) :
    StatusOrdered T (insertByRank T (T.rankOf letter) letter s) := by
  induction s with
  | nil => exact ⟨by simpa [Channels.insertByRank] using hletter, by
      simp [Channels.insertByRank]⟩
  | cons c s ih =>
    have hne : letter ≠ c := fun h => hnew (by simp [h])
    have hhead := pairwise_cons.mp hs.descending
    have hc : T.IsStatus c := hs.isStatus c (by simp)
    obtain ⟨cm, hcm, heq, -⟩ := id hc
    rw [Channels.insertByRank, T.findChannelModeHandler_eq_some.mpr ⟨hcm, heq⟩]
    dsimp only
    rw [← T.rankOf_of_mem hcm, heq]
    split
    · next hlt =>
        refine ⟨?_, pairwise_cons.mpr ⟨?_, hs.descending⟩⟩
        · exact forall_mem_cons.mpr ⟨hletter, hs.isStatus⟩
        · exact forall_mem_cons.mpr
            ⟨hlt, fun a ha => lt_trans (hhead.1 a ha) hlt⟩
    · next hge =>
        have hrank : T.rankOf letter < T.rankOf c :=
          lt_of_le_of_ne (not_lt.mp hge) fun heq =>
            hne (T.eq_of_rankOf_eq hletter hc heq)
        have hrest := ih hs.tail (fun h => hnew (by simp [h]))
        have hmem : ∀ a ∈ Channels.insertByRank T (T.rankOf letter) letter s,
            a = letter ∨ a ∈ s := by
          intro a ha
          simpa using (insertByRank_perm _ _ _).mem_iff.mp ha
        refine ⟨?_, pairwise_cons.mpr ⟨?_, hrest.descending⟩⟩
        · exact forall_mem_cons.mpr ⟨hc, hrest.isStatus⟩
        · intro a ha
          rcases hmem a ha with rfl | ha
          · exact hrank
          · exact hhead.1 a ha

/-- A member mode goes to its place, as there is always room for it. -/
theorem addlettertomstring_eq :
    addlettertomstring T s letter =
      Channels.insertByRank T (T.rankOf letter) letter s := by
  have hlen := hs.length_le
  obtain ⟨cm, hcm, rfl, htype⟩ := hletter
  have hroom : ¬ membermodeslen - 1 ≤ s.length := by
    simp only [membermodeslen]
    omega
  simp only [addlettertomstring, T.rankOf_of_mem hcm, htype, hroom, if_false,
    T.findChannelModeHandler_eq_some.mpr ⟨hcm, rfl⟩, ne_eq, not_true]

end Insert

/-! ## Members -/

/-- The copies agree and are ordered. -/
structure Member.WellFormed (T : ModeTable) (m : Member) : Prop where
  eq : m.membershipModes = m.memberModes
  ordered : StatusOrdered T m.memberModes

namespace Member.WellFormed

theorem withoutStatus (client : List Char) :
    Member.WellFormed T ⟨client, [], []⟩ :=
  ⟨rfl, .nil⟩

theorem add (hm : m.WellFormed T) (hletter : T.IsStatus letter)
    (hnew : letter ∉ m.memberModes) :
    (addMemberModeFast T m letter).WellFormed T := by
  refine ⟨?_, ?_⟩
  · rw [addMemberModeFast, hm.eq]
  · rw [addMemberModeFast, addlettertomstring_eq hm.ordered hletter]
    exact hm.ordered.insertByRank hletter hnew

theorem del (hm : m.WellFormed T) (letter : Char) :
    (delMemberModeFast m letter).WellFormed T := by
  refine ⟨?_, hm.ordered.sublist erase_sublist⟩
  rw [delMemberModeFast, hm.eq]

theorem foldl_add {modes : List Char} (hm : m.WellFormed T)
    (hmodes : ∀ a ∈ modes, T.IsStatus a) (hnodup : modes.Nodup)
    (hnew : ∀ a ∈ modes, a ∉ m.memberModes) :
    (modes.foldl (addMemberModeFast T) m).WellFormed T ∧
      ∀ a, a ∈ (modes.foldl (addMemberModeFast T) m).memberModes ↔
        a ∈ modes ∨ a ∈ m.memberModes := by
  induction modes generalizing m with
  | nil => exact ⟨hm, by simp⟩
  | cons letter modes ih =>
    have hletter := hmodes letter (by simp)
    obtain ⟨hout, hnodup⟩ := nodup_cons.mp hnodup
    have hmem : ∀ a, a ∈ (addMemberModeFast T m letter).memberModes ↔
        a = letter ∨ a ∈ m.memberModes := by
      intro a
      rw [addMemberModeFast, addlettertomstring_eq hm.ordered hletter,
        (insertByRank_perm _ _ _).mem_iff, mem_cons]
    obtain ⟨hwf, hiff⟩ := ih (hm.add hletter (hnew letter (by simp)))
      (fun a ha => hmodes a (by simp [ha])) hnodup (by
        intro a ha
        rw [hmem]
        rintro (rfl | hold)
        · exact hout ha
        · exact hnew a (by simp [ha]) hold)
    refine ⟨hwf, fun a => ?_⟩
    rw [foldl_cons, hiff, hmem, mem_cons]
    tauto

end Member.WellFormed

/-- Every member is there once, with well-formed letters. -/
structure MembersOk (T : ModeTable) (ch : Channel) : Prop where
  nodup : (ch.members.map Member.client).Nodup
  wellFormed : ∀ m ∈ ch.members, m.WellFormed T

theorem MembersOk.congr {ch' : Channel} (h : MembersOk T ch)
    (hmembers : ch'.members = ch.members) : MembersOk T ch' :=
  ⟨hmembers ▸ h.nodup, hmembers ▸ h.wellFormed⟩

theorem MembersOk.modifyMember (h : MembersOk T ch)
    (hm : ch.findMember m.client = some m) {f : Member → Member}
    (hclient : ∀ m, (f m).client = m.client) (hf : (f m).WellFormed T) :
    MembersOk T (ch.modifyMember m.client f) := by
  have hmem := (Channel.client_of_findMember hm).1
  refine ⟨?_, ?_⟩
  · have hclients : (ch.modifyMember m.client f).members.map Member.client =
        ch.members.map Member.client := by
      simp only [Channel.modifyMember, map_map]
      apply map_congr_left
      intro m' _
      simp only [Function.comp_apply]
      split
      · exact hclient m'
      · rfl
    rw [hclients]
    exact h.nodup
  · intro m' hm'
    obtain ⟨old, hold, rfl⟩ := mem_map.mp hm'
    split
    · next heq =>
        rw [inj_on_of_nodup_map h.nodup hold hmem heq]
        exact hf
    · exact h.wellFormed old hold

theorem MembersOk.effect {ch' : Channel}
    (heffect : ModeEffect T letter ch ch') (h : MembersOk T ch) :
    MembersOk T ch' := by
  cases heffect with
  | lists lm list => exact h.congr (ch.members_setList lm list)
  | addStatus hm hletter hnew =>
    have hwf := h.wellFormed _ (Channel.client_of_findMember hm).1
    exact h.modifyMember hm (fun _ => rfl) (hwf.add hletter hnew)
  | delStatus hm hletter hold =>
    have hwf := h.wellFormed _ (Channel.client_of_findMember hm).1
    exact h.modifyMember hm (fun _ => rfl) (hwf.del _)
  | modes mode params hmode => exact h.congr rfl

theorem MembersOk.setMode {S : Server} (h : MembersOk S.table ch)
    (R : Requester) (modes : List Char) (args : List (List Char)) :
    MembersOk S.table (setMode S R ch modes args).1 :=
  setMode_rule S R (fun ch _ => MembersOk S.table ch)
    (fun _ _ _ _ _ _ hstep => MembersOk.effect hstep.effect) h args

theorem client_foldl_addMemberModeFast (T : ModeTable) (modes : List Char)
    (m : Member) : (modes.foldl (addMemberModeFast T) m).client = m.client := by
  induction modes generalizing m with
  | nil => rfl
  | cons a modes ih => exact ih _

theorem MembersOk.addUser (h : MembersOk T ch) {client : List Char}
    (hnew : ch.isMember client = false) {modes : List Char}
    (hmodes : ∀ a ∈ modes, T.IsStatus a) (hnodup : modes.Nodup) :
    MembersOk T (addUserToChannel T ch client modes) := by
  have hwf := (Member.WellFormed.foldl_add (.withoutStatus client) hmodes
    hnodup (by simp)).1
  refine ⟨?_, ?_⟩
  · rw [addUserToChannel, map_cons, client_foldl_addMemberModeFast, nodup_cons]
    refine ⟨?_, h.nodup⟩
    simp only [mem_map, not_exists, not_and]
    intro m hm heq
    exact Channel.isMember_eq_false.mp hnew m hm heq
  · exact forall_mem_cons.mpr ⟨hwf, h.wellFormed⟩

theorem MembersOk.removeUser (h : MembersOk T ch) (client : List Char) :
    MembersOk T (removeUserFromChannel ch client) := by
  refine ⟨?_, fun m hm => h.wellFormed m (mem_of_mem_filter hm)⟩
  exact (filter_sublist.map Member.client).nodup h.nodup

/-! ## SJOIN -/

theorem mem_parseSigns {modes s : List Char} {a : Char}
    (h : a ∈ (parseSigns T modes s).1) :
    a ∈ modes ∨ a ∈ ['b', 'e', 'I'] ∨ T.IsStatus a := by
  induction s generalizing modes with
  | nil => exact .inl h
  | cons c s ih =>
    rw [parseSigns] at h
    split at h
    · exact .inl h
    · next m hm =>
        have hletter : m ∈ ['b', 'e', 'I'] ∨ T.IsStatus m :=
          sjoinPrefixToMode_eq_some hm
        have hstep : a ∈ strlcatLetter modes m membermodeslen →
            a ∈ modes ∨ a ∈ ['b', 'e', 'I'] ∨ T.IsStatus a := by
          intro hmem
          rw [strlcatLetter] at hmem
          split at hmem
          · exact .inl hmem
          · rcases mem_append.mp hmem with hmem | hmem
            · exact .inl hmem
            · rw [mem_singleton.mp hmem]
              exact .inr hletter
        split at h
        · exact hstep h
        · rcases ih h with hmem | hmem
          · exact hstep hmem
          · exact .inr hmem

theorem modes_of_mem_parseItems {sjsby : Bool} {i : SjoinItem}
    (hi : i ∈ parseItems T sjsby s) :
    ∃ rest, i.modes = (parseSigns T [] rest).1 := by
  obtain ⟨token, -, hparse⟩ := mem_filterMap.mp hi
  unfold parseItem at hparse
  split at hparse
  · cases hparse
  · dsimp only at hparse
    split at hparse
    · cases hparse
    · cases hparse
      exact ⟨_, rfl⟩

theorem isStatus_of_mem_parseItems {sjsby : Bool} {i : SjoinItem}
    (hi : i ∈ parseItems T sjsby s) (hlist : i.isList = false) :
    ∀ a ∈ i.modes, T.IsStatus a := by
  obtain ⟨rest, hrest⟩ := modes_of_mem_parseItems hi
  intro a ha
  rw [hrest] at ha
  rcases mem_parseSigns ha with hnil | hletter | hstatus
  · simp at hnil
  · rw [← hrest] at ha
    simp only [SjoinItem.isList, Bool.or_eq_false_iff,
      contains_eq_mem, decide_eq_false_iff_not] at hlist
    simp only [mem_cons, not_mem_nil, or_false] at hletter
    rcases hletter with rfl | rfl | rfl
    · exact absurd ha hlist.1.1
    · exact absurd ha hlist.1.2
    · exact absurd ha hlist.2
  · exact hstatus

/-- No item for a user has the same sign twice. -/
def SjoinMessage.NoRepeatedSign (T : ModeTable) (sjsby : Bool)
    (msg : SjoinMessage) : Prop :=
  ∀ i ∈ parseItems T sjsby msg.items, i.isList = false → i.modes.Nodup

instance (T : ModeTable) (sjsby : Bool) (msg : SjoinMessage) :
    Decidable (msg.NoRepeatedSign T sjsby) :=
  inferInstanceAs (Decidable (∀ i ∈ parseItems T sjsby msg.items, _))

section

variable {S : Server} {peer : Peer}

theorem MembersOk.sjoinItem {side : SjoinSide} {s : SjoinState} {i : SjoinItem}
    (h : MembersOk S.table s.channel)
    (hmodes : i.isList = false → ∀ a ∈ i.modes, S.table.IsStatus a)
    (hnodup : i.isList = false → i.modes.Nodup) :
    MembersOk S.table (sjoinItem S peer side s i).channel := by
  refine sjoinItem_rule ?_ ?_ ?_ ?_
  · exact fun _ => h
  · exact fun _ _ _ _ _ _ _ => h.congr (Channel.members_setList _ _ _)
  · exact fun _ _ _ => h
  · intro u huser hnew
    have hlist := (SjoinItem.user_eq_some.mp huser).1
    unfold SjoinItem.letters
    apply h.addUser hnew
    · split
      · simp
      · exact hmodes hlist
    · split
      · exact nodup_nil
      · exact hnodup hlist

theorem MembersOk.removeOurModes (h : MembersOk S.table ch) :
    MembersOk S.table (removeOurModes S peer ch).1 := by
  unfold Channels.removeOurModes
  dsimp only
  split
  · exact h
  · exact h.setMode _ _ _

theorem MembersOk.sjoinStart (h : MembersOk S.table ch)
    (side : SjoinSide) (ts : ℤ) :
    MembersOk S.table (sjoinStart S peer side ts ch).1 := by
  cases side with
  | created => exact h.congr rfl
  | removeTheirs | merge => exact h
  | removeOurs =>
    have hmodes : MembersOk S.table
        (Channels.removeOurModes S peer { ch with creationtime := ts }).1 :=
      MembersOk.removeOurModes (h.congr rfl)
    refine ⟨?_, ?_⟩
    · simp only [Channels.sjoinStart, removeOurs, map_map]
      exact hmodes.nodup
    · intro m hm
      simp only [Channels.sjoinStart, removeOurs, mem_map] at hm
      obtain ⟨old, -, rfl⟩ := hm
      exact .withoutStatus old.client

theorem members_mergeParam (C : ParamConfig) (old : Channel) (s : SjoinState)
    (cm : Cmode) :
    (mergeParam C old s cm).channel.members = s.channel.members := by
  have hput : ∀ param, (s.channel.putParam C cm.letter param).members =
      s.channel.members := by
    intro param
    obtain ⟨params, heq⟩ := putParam_eq C s.channel cm.letter param
    rw [heq]
  fun_cases mergeParam C old s cm
  all_goals first | rfl | exact hput _

section

variable (h : MembersOk S.table ch) (side : SjoinSide)

include h

theorem MembersOk.sjoinModes (modes : Option (List Char × List (List Char))) :
    MembersOk S.table (sjoinModes S peer side ch modes).1 := by
  fun_cases Channels.sjoinModes S peer side ch modes with
  | case1 | case2 => exact h
  | case3 modes =>
    have hset : MembersOk S.table
        (setSjoinModes S peer ch modes).1 := h.setMode _ _ _
    unfold mergeModes
    apply List.foldlRecOn (motive := fun s : SjoinState =>
      MembersOk S.table s.channel)
    · exact hset.congr rfl
    · intro s hs cm _
      exact hs.congr (members_mergeParam _ _ s cm)
  | case4 => exact h.setMode _ _ _

theorem MembersOk.secureonlyChannelSync (nomode : Bool) :
    MembersOk S.table (secureonlyChannelSync S side nomode ch).1 := by
  unfold Channels.secureonlyChannelSync
  split
  · apply List.foldlRecOn (motive := MembersOk S.table)
    · exact h
    · intro ch hch client _
      exact hch.removeUser client
  · exact h

theorem MembersOk.sjoinChannel (ts : ℤ) {msg : SjoinMessage}
    (hmsg : msg.NoRepeatedSign S.table peer.sjsby) :
    MembersOk S.table (sjoinChannel S peer side ts ch msg).1 := by
  have hitems : MembersOk S.table
      ((parseItems S.table peer.sjsby msg.items).foldl
        (Channels.sjoinItem S peer side)
        ⟨(Channels.sjoinStart S peer side ts ch).1,
          .start (Channels.sjoinStart S peer side ts ch).2 '+'⟩).channel := by
    apply List.foldlRecOn (motive := fun s : SjoinState =>
      MembersOk S.table s.channel)
    · exact h.sjoinStart side ts
    · intro s hs i hi
      exact hs.sjoinItem (isStatus_of_mem_parseItems hi) (hmsg i hi)
  exact (hitems.sjoinModes side msg.modes).secureonlyChannelSync side _

end

end

/-! ## Runs -/

/-- What can happen to the members of a channel.  `level` is the status of a
user who creates a channel. -/
inductive ChannelEvent where
  | join (client : List Char) (level : Option Char)
  | part (client : List Char)
  | mode (requester : Requester) (modes : List Char) (args : List (List Char))
  | svsmode (client : List Char) (letter : Char)
  | sjoin (peer : Peer) (msg : SjoinMessage)

/-- The removal of a status by services. -/
def svsmodeDel (ch : Channel) (client : List Char) (letter : Char) :
    Channel :=
  match ch.findMember client with
  | none => ch
  | some m =>
    if letter ∈ m.memberModes then
      ch.modifyMember client (delMemberModeFast · letter)
    else ch

/-- The channel `name` after an event. -/
def channelEvent (S : Server) (name : List Char) (channel : Option Channel) :
    ChannelEvent → Option Channel
  | .join client level =>
    let ch := channel.getD (makeChannel S name)
    if ch.isMember client then some ch
    else some (addUserToChannel S.config.table ch client level.toList)
  | .part client =>
    channel.bind fun ch => destroyIfEmpty (removeUserFromChannel ch client)
  | .mode R modes args => channel.map fun ch => (setMode S R ch modes args).1
  | .svsmode client letter =>
    channel.map fun ch => svsmodeDel ch client letter
  | .sjoin peer msg => (cmdSjoin S peer name channel msg).1

/-- An event at a server that has the modes of `T`. -/
structure ChannelStep (T : ModeTable) where
  server : Server
  table : server.config.table = T
  event : ChannelEvent

/-- The channel `name` after a run that starts without it. -/
def channelRun {T : ModeTable} (name : List Char)
    (run : List (ChannelStep T)) : Option Channel :=
  run.foldl (fun ch step => channelEvent step.server name ch step.event) none

/-- The step is not an SJOIN with an item that has the same sign twice. -/
def ChannelStep.NoRepeatedSign {T : ModeTable} (step : ChannelStep T) :
    Prop :=
  ∀ peer msg, step.event = .sjoin peer msg → msg.NoRepeatedSign T peer.sjsby

theorem membersOk_of_destroyIfEmpty {ch' : Channel} (h : MembersOk T ch)
    (hch : destroyIfEmpty ch = some ch') : MembersOk T ch' := by
  unfold destroyIfEmpty at hch
  split at hch
  · cases hch
  · cases hch
    exact h

theorem MembersOk.join (h : MembersOk T ch) {client : List Char}
    (hnew : ch.isMember client = false) (level : Option Char) :
    MembersOk T (addUserToChannel T ch client level.toList) := by
  cases level with
  | none => exact h.addUser hnew (by simp) nodup_nil
  | some a =>
    by_cases ha : T.IsStatus a
    · exact h.addUser hnew (by simpa using ha) (nodup_singleton a)
    · -- The letter is not a member mode and is dropped.
      have hdrop : addlettertomstring T [] a = [] := by
        unfold addlettertomstring
        split
        · rfl
        · next cm hcm =>
            obtain ⟨hmem, hletter⟩ := T.findChannelModeHandler_eq_some.mp hcm
            rw [if_pos fun htype => ha ⟨cm, hmem, hletter, htype⟩]
      have hnone : addUserToChannel T ch client [a] =
          addUserToChannel T ch client [] := by
        simp [addUserToChannel, addMemberModeFast, hdrop]
      rw [Option.toList_some, hnone]
      exact h.addUser hnew (by simp) nodup_nil

theorem MembersOk.svsmodeDel (h : MembersOk T ch) (client : List Char)
    (letter : Char) : MembersOk T (svsmodeDel ch client letter) := by
  unfold Channels.svsmodeDel
  split
  · exact h
  · next m hm =>
      split
      · obtain ⟨hmem, rfl⟩ := Channel.client_of_findMember hm
        exact h.modifyMember hm (fun _ => rfl)
          ((h.wellFormed m hmem).del letter)
      · exact h

/-- An event keeps the members well-formed, unless a sign is repeated. -/
theorem membersOk_channelEvent {step : ChannelStep T}
    (hstep : step.NoRepeatedSign) {name : List Char} {channel : Option Channel}
    (h : ∀ ch, channel = some ch → MembersOk T ch) {ch' : Channel}
    (hch' : channelEvent step.server name channel step.event = some ch') :
    MembersOk T ch' := by
  obtain ⟨S, rfl, event⟩ := step
  have hstart : MembersOk S.table
      (channel.getD (makeChannel S name)) := by
    cases channel with
    | none => exact ⟨nodup_nil, by simp [makeChannel]⟩
    | some ch => exact h ch rfl
  cases event with
  | join client level =>
    simp only [channelEvent] at hch'
    split at hch'
    · cases hch'
      exact hstart
    · next hnew =>
        cases hch'
        exact hstart.join (Bool.eq_false_iff.mpr hnew) level
  | part client =>
    obtain ⟨ch, hch, hdestroy⟩ := Option.bind_eq_some_iff.mp hch'
    exact membersOk_of_destroyIfEmpty ((h ch hch).removeUser client)
      hdestroy
  | mode R modes args =>
    obtain ⟨ch, hch, rfl⟩ := Option.map_eq_some_iff.mp hch'
    exact (h ch hch).setMode R modes args
  | svsmode client letter =>
    obtain ⟨ch, hch, rfl⟩ := Option.map_eq_some_iff.mp hch'
    exact (h ch hch).svsmodeDel client letter
  | sjoin peer msg =>
    exact membersOk_of_destroyIfEmpty
      (hstart.sjoinChannel _ _ (hstep peer msg rfl)) hch'

theorem membersOk_channelRun {name : List Char} {run : List (ChannelStep T)}
    (hrun : ∀ step ∈ run, step.NoRepeatedSign)
    (hch : channelRun name run = some ch) : MembersOk T ch := by
  revert ch
  apply List.foldlRecOn (motive := fun channel : Option Channel =>
    ∀ ch, channel = some ch → MembersOk T ch)
  · intro ch hch
    cases hch
  · intro channel h step hstep ch hch
    exact membersOk_channelEvent (hrun step hstep) h hch

/-- In a run without a repeated sign, the letters of every member are distinct
and in strictly descending order of rank, the two copies are equal, and the
removal of a letter leaves none of it. -/
theorem statusLetters_of_channelRun
    {T : ModeTable} (name : List Char) (run : List (ChannelStep T))
    (hrun : ∀ step ∈ run, step.NoRepeatedSign) (ch : Channel)
    (hch : channelRun name run = some ch) (m : Member)
    (hm : m ∈ ch.members) :
    m.memberModes.Nodup ∧
      m.memberModes.Pairwise (fun a b => T.rankOf b < T.rankOf a) ∧
      m.membershipModes = m.memberModes ∧
      ∀ x, x ∉ (delMemberModeFast m x).memberModes ∧
        x ∉ (delMemberModeFast m x).membershipModes := by
  have hwf := (membersOk_channelRun hrun hch).wellFormed m hm
  refine ⟨hwf.ordered.nodup, hwf.ordered.descending, hwf.eq, fun x => ?_⟩
  have hout : x ∉ delletterfromstring m.memberModes x :=
    hwf.ordered.nodup.not_mem_erase
  refine ⟨hout, ?_⟩
  rw [delMemberModeFast, hwf.eq]
  exact hout

def sampleRun (items : String) : List (ChannelStep .full) :=
  [⟨sampleServer, rfl,
    .sjoin (samplePeer "hub") ⟨1600000000, none, items.toList⟩⟩]

/-- An operator with voice joins by SJOIN, then a local user, and a MODE line
gives the operator another letter and takes the voice away. -/
def sampleLetters : List (ChannelStep .full) :=
  sampleRun "@+002AAA" ++ [⟨sampleServer, rfl, .join "001AAA".toList none⟩,
    ⟨sampleServer, rfl, .mode (samplePeer "hub").requester "+a-v".toList
      ["002AAA".toList, "002AAA".toList]⟩]

theorem statusLetters_of_sampleRun :
    ∃ ch m, channelRun "#test".toList sampleLetters = some ch ∧
      m ∈ ch.members ∧ m.memberModes = ['a', 'o'] ∧ m.memberModes.Nodup := by
  refine ⟨_, ⟨"002AAA".toList, ['a', 'o'], ['a', 'o']⟩, rfl, by decide, rfl, ?_⟩
  refine (statusLetters_of_channelRun "#test".toList sampleLetters ?_ _ rfl _
    (by decide)).1
  intro step hstep peer msg hevent
  simp only [sampleLetters, sampleRun, mem_append, mem_cons, not_mem_nil,
    or_false] at hstep
  obtain rfl | rfl | rfl := hstep
  · cases hevent
    decide
  · cases hevent
  · cases hevent

/-- A repeated sign is stored twice, and one removal leaves the other. -/
theorem repeated_statusLetter :
    (channelRun "#test".toList (sampleRun "@@002AAA")).map Channel.members =
        some [⟨"002AAA".toList, "oo".toList, "oo".toList⟩] ∧
      'o' ∈ (delMemberModeFast
        ⟨"002AAA".toList, "oo".toList, "oo".toList⟩ 'o').memberModes := by
  decide

end UnrealIrcd.Channels
