import UnrealIrcd.DelayJoin.Members
import UnrealIrcd.Support.Runs

/-!
# The mode +d

A channel should have +d exactly while it is not +D and has an invisible member.
Each way in which a member becomes visible or leaves has its own hook that looks
after the mode, except for KICK, for which there is none: when the last
invisible member is kicked the channel keeps +d.  The same goes for `JOIN 0` of a
remote user and for the mode changes of SJOIN.
-/

namespace UnrealIrcd.DelayJoin

open Support Visibility List

variable {myConnect : ClientId → Bool} {ch : Channel}

/-- The channel has +d exactly if it is not +D and has an invisible member. -/
def FlagRight (ch : Channel) : Prop :=
  ch.postDelayed = true ↔ ch.delayed = false ∧ ch.hasInvisibleUsers = true

/-- Half of it: what holds before the last check. -/
structure FlagKept (ch : Channel) : Prop where
  not_of_delayed : ch.delayed = true → ch.postDelayed = false
  of_invisible : ch.delayed = false → ch.hasInvisibleUsers = true →
    ch.postDelayed = true

theorem FlagRight.kept (h : FlagRight ch) : FlagKept ch where
  not_of_delayed hdelayed := by
    by_contra hpost
    have := (h.mp (by simpa using hpost)).1
    rw [hdelayed] at this
    cases this
  of_invisible hdelayed hinv := h.mpr ⟨hdelayed, hinv⟩

theorem flagRight_of_delayed (hdelayed : ch.delayed = true)
    (hpost : ch.postDelayed = false) : FlagRight ch := by
  simp [FlagRight, hdelayed, hpost]

theorem FlagKept.flagRight (h : FlagKept ch)
    (hlast : ch.postDelayed = true → ch.hasInvisibleUsers = true) :
    FlagRight ch := by
  constructor
  · intro hpost
    refine ⟨?_, hlast hpost⟩
    by_contra hdelayed
    rw [h.not_of_delayed (by simpa using hdelayed)] at hpost
    cases hpost
  · rintro ⟨hdelayed, hinv⟩
    exact h.of_invisible hdelayed hinv

/-- The check for the last invisible member puts the mode right. -/
theorem FlagKept.clearPostDelayedIfLast (h : FlagKept ch) :
    FlagRight (clearPostDelayedIfLast ch) := by
  unfold DelayJoin.clearPostDelayedIfLast
  split
  case isTrue hlast =>
    have hnone : ch.hasInvisibleUsers = false := by
      simpa using (Bool.and_eq_true_iff.mp hlast).2
    constructor
    · intro hpost
      cases hpost
    · rintro ⟨-, hinv⟩
      exact absurd hinv (by simpa [Channel.hasInvisibleUsers] using hnone)
  case isFalse hlast =>
    refine h.flagRight fun hpost => ?_
    simpa [hpost] using hlast

/-! ## Members -/

theorem hasInvisibleUsers_iff : ch.hasInvisibleUsers = true ↔
    ∃ m ∈ ch.members, m.membership.invisible = true := by
  simp [Channel.hasInvisibleUsers]

section Hooks

variable (h : FlagRight ch) (client : ClientId) (line : List Change)

include h

theorem FlagRight.setUserInvisible :
    FlagKept (ch.setUserInvisible client false) where
  not_of_delayed := h.kept.not_of_delayed
  of_invisible hdelayed hinv := by
    obtain ⟨m', hm', hinv⟩ := hasInvisibleUsers_iff.mp hinv
    simp only [Channel.setUserInvisible, Channel.modify, mem_map] at hm'
    obtain ⟨m, hm, rfl⟩ := hm'
    refine h.kept.of_invisible hdelayed (hasInvisibleUsers_iff.mpr ⟨m, hm, ?_⟩)
    by_cases hclient : m.client = client
    · simp [hclient] at hinv
    · rwa [if_neg hclient] at hinv

theorem FlagRight.clearUserInvisibleAnnounce :
    FlagRight (clearUserInvisibleAnnounce myConnect ch client).1 :=
  (h.setUserInvisible client).clearPostDelayedIfLast

/-! ## Mode changes -/

theorem FlagRight.modedStatus (add : Bool) (letter : Char) (user : ClientId) :
    FlagRight (modedStatus myConnect ch add letter user).1 := by
  have hannounced : FlagRight
      (if ch.invisibleUser user then
        DelayJoin.clearUserInvisibleAnnounce myConnect ch user
      else (ch, [])).1 := by
    split
    · exact h.clearUserInvisibleAnnounce user
    · exact h
  unfold DelayJoin.modedStatus
  split
  · simp only
    split <;> exact hannounced
  · exact h

theorem FlagRight.modedLoop : FlagRight (modedLoop myConnect line ch).1 := by
  induction line generalizing ch with
  | nil => exact h
  | cons change line ih =>
    cases change with
    | status add letter user => exact ih (h.modedStatus add letter user)
    | delayed add | permanent add => exact ih h

theorem FlagRight.modedUpdate : modedUpdate ch line = ch := by
  unfold DelayJoin.modedUpdate
  have hfirst : ¬ (modedParsemode line && !ch.delayed && !ch.postDelayed &&
      ch.hasInvisibleUsers) = true := by
    intro hall
    simp only [Bool.and_eq_true, Bool.not_eq_true'] at hall
    obtain ⟨⟨⟨-, hdelayed⟩, hpost⟩, hinv⟩ := hall
    rw [h.mpr ⟨hdelayed, hinv⟩] at hpost
    cases hpost
  have hsecond : ¬ (ch.delayed && ch.postDelayed) = true := by
    intro hall
    rw [Bool.and_eq_true] at hall
    rw [h.kept.not_of_delayed hall.1] at hall
    cases hall.2
  rw [if_neg hfirst, if_neg hsecond]

theorem FlagRight.modedChanmode :
    FlagRight (modedChanmode myConnect ch line).1 := by
  unfold DelayJoin.modedChanmode
  rw [h.modedUpdate]
  simp only
  split
  · exact h.modedLoop line
  · exact h

theorem FlagRight.hookLines (lines : List (List Change)) :
    FlagRight (hookLines myConnect lines ch).1 := by
  induction lines generalizing ch with
  | nil => exact h
  | cons line lines ih => exact ih (h.modedChanmode line)

end Hooks

/-- Under +D the first line takes +d away. -/
theorem flagRight_modedChanmode_of_delayed (hdelayed : ch.delayed = true)
    (line : List Change) : FlagRight (modedChanmode myConnect ch line).1 := by
  have hupdate : FlagRight (modedUpdate ch line) ∧
      (modedUpdate ch line).delayed = true := by
    unfold DelayJoin.modedUpdate
    rw [if_neg (by simp [hdelayed])]
    split
    case isTrue => exact ⟨flagRight_of_delayed hdelayed rfl, hdelayed⟩
    case isFalse hpost =>
      exact ⟨flagRight_of_delayed hdelayed (by simpa [hdelayed] using hpost),
        hdelayed⟩
  unfold DelayJoin.modedChanmode
  simp only [hupdate.2, Bool.true_or, if_true]
  exact hupdate.1.modedLoop line

/-- Without +D and +d the module does nothing until the line that says -D. -/
theorem flagRight_hookLines_of_removed {lines : List (List Change)}
    (hdelayed : ch.delayed = false) (hpost : ch.postDelayed = false)
    (hremoved : ∃ line ∈ lines, modedParsemode line = true) :
    FlagRight (hookLines myConnect lines ch).1 := by
  induction lines with
  | nil => simp at hremoved
  | cons line lines ih =>
    by_cases hright : FlagRight ch
    · exact hright.hookLines (line :: lines)
    have hinv : ch.hasInvisibleUsers = true := by
      by_contra hno
      refine hright (iff_of_false (by simp [hpost]) ?_)
      rintro ⟨-, hinv⟩
      exact hno hinv
    by_cases hline : modedParsemode line = true
    · have hupdate : FlagRight (modedUpdate ch line) := by
        unfold modedUpdate
        rw [if_pos (by simp [hline, hdelayed, hpost, hinv])]
        exact iff_of_true rfl ⟨hdelayed, hinv⟩
      have hmode : FlagRight (modedChanmode myConnect ch line).1 := by
        unfold modedChanmode
        simp only
        split
        · exact hupdate.modedLoop line
        · exact hupdate
      exact hmode.hookLines lines
    · have hsame : modedChanmode myConnect ch line = (ch, []) := by
        simp [modedChanmode, modedUpdate, hline, hdelayed, hpost]
      have hrest : ∃ line ∈ lines, modedParsemode line = true := by
        obtain ⟨l, hl, hp⟩ := hremoved
        rcases mem_cons.mp hl with rfl | hl
        · exact absurd hp hline
        · exact ⟨l, hl, hp⟩
      change FlagRight (DelayJoin.hookLines myConnect lines
        (modedChanmode myConnect ch line).1).1
      rw [hsame]
      exact ih hrest

/-- The invisible members and +d are left alone. -/
def SameFlag (ch ch' : Channel) : Prop :=
  ch'.hasInvisibleUsers = ch.hasInvisibleUsers ∧
    ch'.postDelayed = ch.postDelayed

theorem sameFlag_applyChange {ch ch' : Channel} {change : Change}
    (h : applyChange ch change = some ch') : SameFlag ch ch' := by
  obtain ⟨add, letter, client, f, -, rfl, hf⟩ | ⟨add, -, rfl⟩ | ⟨add, -, rfl⟩ :=
    applyChange_cases h
  · refine ⟨?_, rfl⟩
    simp only [Channel.hasInvisibleUsers, Channel.modify, any_map]
    refine congrArg _ (funext fun m => ?_)
    simp only [Function.comp_apply]
    split
    · exact hf _
    · rfl
  · exact ⟨rfl, rfl⟩
  · exact ⟨rfl, rfl⟩

theorem sameFlag_setMode (lines : List (List Change)) :
    SameFlag ch (setMode ch lines).1 :=
  setMode_induction (fun _ => ⟨rfl, rfl⟩)
    (fun h h' => ⟨h'.1.trans h.1, h'.2.trans h.2⟩) sameFlag_applyChange ch lines

/-- The letters of the line say whether the channel has +D in the end. -/
theorem modedParsemode_applyLine (line : List Change) :
    (applyLine ch line).2.foldl parseLetter (!ch.delayed) =
      !(applyLine ch line).1.delayed := by
  induction line generalizing ch with
  | nil => rfl
  | cons change line ih =>
    unfold applyLine
    split
    case h_1 => exact ih
    case h_2 ch' hchange =>
      simp only [foldl_cons]
      have hrest := @ih ch'
      obtain ⟨_, _, _, _, rfl, rfl, -⟩ | ⟨_, rfl, rfl⟩ | ⟨_, rfl, rfl⟩ :=
        applyChange_cases hchange
      all_goals exact hrest

theorem applyLine_eq_of_nil {line : List Change}
    (h : (applyLine ch line).2 = []) : (applyLine ch line).1 = ch := by
  induction line with
  | nil => rfl
  | cons change line ih =>
    unfold applyLine at h ⊢
    split at h
    case h_1 => exact ih h
    case h_2 => cases h

theorem exists_removed_of_setMode {lines : List (List Change)}
    (hbefore : ch.delayed = true) (hafter : (setMode ch lines).1.delayed = false) :
    ∃ line ∈ (setMode ch lines).2, modedParsemode line = true := by
  induction lines generalizing ch with
  | nil =>
    rw [setMode, hbefore] at hafter
    cases hafter
  | cons line lines ih =>
    have hparse := @modedParsemode_applyLine ch line
    rw [hbefore] at hparse
    cases hmid : (applyLine ch line).1.delayed with
    | false =>
      refine ⟨(applyLine ch line).2, mem_cons_self, ?_⟩
      rw [hmid] at hparse
      exact hparse
    | true =>
      obtain ⟨l, hl, hp⟩ := ih hmid hafter
      exact ⟨l, mem_cons_of_mem _ hl, hp⟩

theorem setMode_eq_of_all_nil {lines : List (List Change)}
    (h : ∀ line ∈ (setMode ch lines).2, line = []) :
    (setMode ch lines).1 = ch := by
  induction lines generalizing ch with
  | nil => rfl
  | cons line lines ih =>
    have hline : (applyLine ch line).1 = ch :=
      applyLine_eq_of_nil (h _ mem_cons_self)
    have hrest := fun l hl => h l (mem_cons_of_mem _ hl)
    exact (ih hrest).trans hline

theorem FlagRight.modeChange (h : FlagRight ch) (lines : List (List Change)) :
    FlagRight (DelayJoin.hookLines myConnect
      ((setMode ch lines).2.filter fun line => !line.isEmpty)
      (setMode ch lines).1).1 := by
  obtain ⟨hinv, hpost⟩ := @sameFlag_setMode ch lines
  cases hafter : (setMode ch lines).1.delayed with
  | true =>
    cases hsent : (setMode ch lines).2.filter fun line => !line.isEmpty with
    | nil =>
      have hnil : ∀ line ∈ (setMode ch lines).2, line = [] := by
        simpa using hsent
      rw [setMode_eq_of_all_nil hnil]
      exact h
    | cons line rest =>
      exact (flagRight_modedChanmode_of_delayed hafter line).hookLines rest
  | false =>
    cases hbefore : ch.delayed with
    | false =>
      refine FlagRight.hookLines ?_ _
      unfold FlagRight at h ⊢
      rw [hinv, hpost, hafter, h, hbefore]
    | true =>
      have hnot : ch.postDelayed = false := h.kept.not_of_delayed hbefore
      refine flagRight_hookLines_of_removed hafter (hpost.trans hnot) ?_
      obtain ⟨line, hline, hp⟩ := exists_removed_of_setMode hbefore hafter
      refine ⟨line, mem_filter.mpr ⟨hline, ?_⟩, hp⟩
      cases line with
      | nil => cases hp
      | cons => rfl

/-! ## Joining and leaving -/

theorem FlagRight.joinChannel (h : FlagRight ch) (client : ClientId)
    (modes : List Char) : FlagRight (joinChannel myConnect ch client modes).1 := by
  simp only [DelayJoin.joinChannel, modedJoin]
  split
  case isTrue hdelayed =>
    exact flagRight_of_delayed hdelayed (h.kept.not_of_delayed hdelayed)
  case isFalse => simpa [FlagRight, Channel.hasInvisibleUsers] using h

/-- A member leaves that is not invisible, or the channel has not got +d. -/
theorem FlagRight.remove {ch' : Channel} {client : ClientId} (h : FlagRight ch)
    (hleave : ch.postDelayed = true →
      ∃ m ∈ ch.members, m.client ≠ client ∧ m.membership.invisible = true)
    (hremove : ch.remove client = some ch') : FlagRight ch' := by
  rw [members_of_remove hremove]
  refine FlagKept.flagRight ⟨h.kept.not_of_delayed, ?_⟩ ?_
  · intro hdelayed hinv
    refine h.kept.of_invisible hdelayed ?_
    rw [hasInvisibleUsers_iff] at hinv ⊢
    obtain ⟨m, hm, hminv⟩ := hinv
    exact ⟨m, (mem_filter.mp hm).1, hminv⟩
  · intro hpost
    obtain ⟨m, hm, hne, hminv⟩ := hleave hpost
    rw [hasInvisibleUsers_iff]
    exact ⟨m, mem_filter.mpr ⟨hm, by simpa using hne⟩, hminv⟩

/-- After the hook of PART and QUIT the member is not invisible, if it
matters. -/
theorem FlagRight.modedPart (h : FlagRight ch) (client : ClientId) :
    FlagRight (modedPart ch client) ∧
      ((modedPart ch client).postDelayed = true →
        ∃ m ∈ (modedPart ch client).members,
          m.client ≠ client ∧ m.membership.invisible = true) := by
  unfold DelayJoin.modedPart
  split
  case isFalse hpost => exact ⟨h, fun hp => absurd hp hpost⟩
  case isTrue =>
    refine ⟨(h.setUserInvisible client).clearPostDelayedIfLast, fun hpost => ?_⟩
    have hright := (h.setUserInvisible client).clearPostDelayedIfLast
    have hmembers : (DelayJoin.clearPostDelayedIfLast
        (ch.setUserInvisible client false)).members =
          (ch.setUserInvisible client false).members := by
      unfold DelayJoin.clearPostDelayedIfLast
      split <;> rfl
    obtain ⟨m, hm, hinv⟩ := hasInvisibleUsers_iff.mp (hright.mp hpost).2
    refine ⟨m, hm, fun hclient => ?_, hinv⟩
    rw [hmembers] at hm
    simp only [Channel.setUserInvisible, Channel.modify, mem_map] at hm
    obtain ⟨m', -, rfl⟩ := hm
    split at hclient
    case isTrue hc => simp [hc] at hinv
    case isFalse hc => exact hc hclient

/-- What the users of an SJOIN do to a channel: they may be invisible if it has +D,
and nothing else is changed. -/
structure UsersJoin (ch ch' : Channel) : Prop where
  postDelayed : ch'.postDelayed = ch.postDelayed
  delayed : ch'.delayed = ch.delayed
  invisible : ch.hasInvisibleUsers = true → ch'.hasInvisibleUsers = true
  visible : ch.delayed = false → ch'.hasInvisibleUsers = ch.hasInvisibleUsers

theorem usersJoin_sjoinUser (ch : Channel) (user : ClientId × List Char) :
    UsersJoin ch (sjoinUser myConnect ch user) := by
  unfold sjoinUser joinChannel modedJoin
  split
  · exact ⟨rfl, rfl, id, fun _ => rfl⟩
  · dsimp only
    split
    · next hdelayed =>
      refine ⟨rfl, rfl, fun _ => ?_, fun h => ?_⟩
      · simp [Channel.hasInvisibleUsers, Channel.setUserInvisible, Channel.modify]
      · rw [hdelayed] at h
        cases h
    · exact ⟨rfl, rfl, id, fun _ => rfl⟩

theorem usersJoin_foldl (users : List (ClientId × List Char)) (ch : Channel) :
    UsersJoin ch (users.foldl (sjoinUser myConnect) ch) := by
  refine @foldl_invariant _ _ _ ch (UsersJoin ch) ⟨rfl, rfl, id, fun _ => rfl⟩
    (fun ch' user h => ?_) users
  have huser := @usersJoin_sjoinUser myConnect ch' user
  exact ⟨huser.postDelayed.trans h.postDelayed, huser.delayed.trans h.delayed,
    fun hinv => huser.invisible (h.invisible hinv),
    fun hd => (huser.visible (h.delayed.trans hd)).trans (h.visible hd)⟩

/-- SJOIN leaves +d alone and takes no invisible member away. -/
theorem sjoinChannel_keeps (line : Sjoin) :
    (sjoinChannel myConnect ch line).postDelayed = ch.postDelayed ∧
      (ch.hasInvisibleUsers = true →
        (sjoinChannel myConnect ch line).hasInvisibleUsers = true) := by
  obtain ⟨hinv, hpost⟩ := @sameFlag_setMode ch line.removed
  have husers := @usersJoin_foldl myConnect line.users (setMode ch line.removed).1
  obtain ⟨hinv', hpost'⟩ := @sameFlag_setMode
    (line.users.foldl (sjoinUser myConnect) (setMode ch line.removed).1) line.modes
  refine ⟨hpost'.trans (husers.postDelayed.trans hpost), fun h => ?_⟩
  exact hinv'.trans (husers.invisible (hinv.trans h))

/-- In a channel that SJOIN creates nobody is invisible. -/
theorem flagRight_sjoinChannel_nil (users : List (ClientId × List Char))
    (modes : List (List Change)) :
    FlagRight (sjoinChannel myConnect ⟨[], false, false, false⟩
      ⟨[], users, modes⟩) := by
  have husers := @usersJoin_foldl myConnect users ⟨[], false, false, false⟩
  obtain ⟨hinv, hpost⟩ := @sameFlag_setMode
    (users.foldl (sjoinUser myConnect) ⟨[], false, false, false⟩) modes
  have hnot := hpost.trans husers.postDelayed
  have hnone := hinv.trans (husers.visible rfl)
  refine iff_of_false (fun h => ?_) fun h => ?_
  · cases hnot.symm.trans h
  · cases hnone.symm.trans h.2

/-! ## Runs -/

/-- The mode is right, if there is a channel. -/
def FlagInv (s : Option Channel) : Prop := ∀ ch, s = some ch → FlagRight ch

/-- A member that leaves a channel with +d leaves another invisible member, or
nobody in a channel that then goes away. -/
def NotLast (s : Option Channel) (client : ClientId) : Prop :=
  ∀ ch, s = some ch → ch.isMember client = true → ch.postDelayed = true →
    (∃ m ∈ ch.members, m.client ≠ client ∧ m.membership.invisible = true) ∨
      ((∀ m ∈ ch.members, m.client = client) ∧ ch.permanent = false)

/-- A kick, or the `JOIN 0` of a remote user, does not take the last invisible
member.  An SJOIN that sets +D finds nobody invisible, and one after which the
channel is not +D leaves nobody invisible, unless there was somebody before and no
+D. -/
def KeepsFlag (myConnect : ClientId → Bool) (s : Option Channel) :
    Event ⊕ Sjoin → Prop
  | .inl (.kick victim) => NotLast s victim
  | .inl (.part client join0) =>
    join0 = true → myConnect client = false → NotLast s client
  | .inr line => ∀ ch, s = some ch →
    let ch' := sjoinChannel myConnect ch line
    if ch'.delayed then ch.delayed = true ∨ ch.hasInvisibleUsers = false
    else ch'.hasInvisibleUsers = true →
      ch.delayed = false ∧ ch.hasInvisibleUsers = true
  | _ => True

theorem flagInv_remove_iff (h : FlagRight ch) {client : ClientId}
    (hmember : ch.isMember client = true) :
    FlagInv (ch.remove client) ↔ NotLast (some ch) client := by
  constructor
  · rintro hinv _ ⟨rfl⟩ - hpost
    by_cases hgone : ch.remove client = none
    · refine .inr ?_
      unfold Channel.remove at hgone
      simp only at hgone
      split at hgone
      case isFalse => cases hgone
      case isTrue hempty =>
        simp only [Bool.and_eq_true, Bool.not_eq_true', List.isEmpty_iff,
          filter_eq_nil_iff] at hempty
        refine ⟨fun m hm => ?_, hempty.2⟩
        simpa using hempty.1 m hm
    · obtain ⟨ch', hch'⟩ := Option.ne_none_iff_exists'.mp hgone
      refine .inl ?_
      have hright := hinv ch' hch'
      rw [members_of_remove hch'] at hright
      obtain ⟨m, hm, hminv⟩ := hasInvisibleUsers_iff.mp (hright.mp hpost).2
      obtain ⟨hm, hne⟩ := mem_filter.mp hm
      exact ⟨m, hm, by simpa using hne, hminv⟩
  · intro hkeeps ch' hch'
    refine h.remove (fun hpost => ?_) hch'
    rcases hkeeps ch rfl hmember hpost with hother | ⟨hall, hperm⟩
    · exact hother
    · have hnone : ch.remove client = none := by
        simpa [Channel.remove, hperm] using hall
      rw [hnone] at hch'
      cases hch'

theorem flagRight_sjoin_iff (h : FlagRight ch) (line : Sjoin) :
    FlagRight (sjoinChannel myConnect ch line) ↔
      KeepsFlag myConnect (some ch) (.inr line) := by
  obtain ⟨hpost, hinv⟩ := @sjoinChannel_keeps myConnect ch line
  simp only [KeepsFlag, Option.some.injEq, forall_eq']
  unfold FlagRight at h ⊢
  rw [hpost, h]
  cases (sjoinChannel myConnect ch line).delayed with
  | true =>
    cases ch.delayed <;> simp
  | false =>
    simp only [Bool.false_eq_true, if_false, true_and]
    exact ⟨Iff.mpr, fun hnew => ⟨fun hold => hinv hold.2, hnew⟩⟩

theorem flagInv_step_iff (h : FlagRight ch) (e : Event) :
    FlagInv (step myConnect (some ch) e).1 ↔
      KeepsFlag myConnect (some ch) (.inl e) := by
  have hsame : FlagInv (some ch) := by
    rintro _ ⟨rfl⟩
    exact h
  have hnot : ∀ {client}, ¬ ch.isMember client = true →
      NotLast (some ch) client := by
    rintro client hmember _ ⟨rfl⟩ hm
    exact absurd hm hmember
  have hpart : ∀ client, FlagInv ((modedPart ch client).remove client) := by
    intro client ch' hch'
    obtain ⟨hright, hother⟩ := h.modedPart client
    exact hright.remove hother hch'
  cases e with
  | join client modes modesOnJoin =>
    refine iff_of_true ?_ trivial
    simp only [step]
    split
    · exact hsame
    · rintro _ ⟨rfl⟩
      exact h.joinChannel client modes
  | part client join0 =>
    simp only [step]
    split
    case isTrue hmember =>
      unfold partHook
      split
      case isTrue hremote =>
        simp only [Bool.and_eq_true, Bool.not_eq_true'] at hremote
        simp only [KeepsFlag, hremote, true_imp_iff]
        exact flagInv_remove_iff h hmember
      case isFalse hlocal =>
        refine iff_of_true (hpart client) fun hjoin hremote => absurd ?_ hlocal
        simp [hjoin, hremote]
    case isFalse hmember =>
      exact iff_of_true hsame fun _ _ => hnot hmember
  | quit client =>
    refine iff_of_true ?_ trivial
    simp only [step]
    split
    · exact hpart client
    · exact hsame
  | kick victim =>
    simp only [step]
    split
    case isTrue hmember => exact flagInv_remove_iff h hmember
    case isFalse hmember => exact iff_of_true hsame (hnot hmember)
  | mode lines =>
    refine iff_of_true ?_ trivial
    simp only [step]
    split
    · rintro _ ⟨⟩
    · rintro _ ⟨rfl⟩
      exact h.modeChange lines
  | message client =>
    refine iff_of_true ?_ trivial
    rintro _ ⟨rfl⟩
    simp only [modedPrechanmsg]
    split
    · exact h.clearUserInvisibleAnnounce client
    · exact h

/-- A channel that goes away is right, since nobody in it is invisible. -/
theorem flagInv_destroy_iff (h : FlagRight ch) (line : Sjoin) :
    FlagInv (netStep myConnect (some ch) (.inr line)) ↔
      FlagRight (sjoinChannel myConnect ch line) := by
  obtain ⟨hpost, hinv⟩ := @sjoinChannel_keeps myConnect ch line
  simp only [netStep]
  split
  case isTrue hempty =>
    have hnone : (sjoinChannel myConnect ch line).hasInvisibleUsers = false := by
      have hnil := isEmpty_iff.mp (Bool.and_eq_true_iff.mp hempty).1
      rw [Channel.hasInvisibleUsers, hnil, any_nil]
    refine iff_of_true (by rintro _ ⟨⟩) (iff_of_false (fun hp => ?_) fun hi => ?_)
    · cases hnone.symm.trans (hinv (h.mp (hpost.symm.trans hp)).2)
    · cases hnone.symm.trans hi.2
  case isFalse =>
    exact ⟨fun hi => hi _ rfl, fun hr _ hch => Option.some.inj hch ▸ hr⟩

/-- An event keeps the mode right exactly under its condition. -/
theorem flagInv_netStep_iff {s : Option Channel} (hs : FlagInv s)
    (e : Event ⊕ Sjoin) :
    FlagInv (netStep myConnect s e) ↔ KeepsFlag myConnect s e := by
  cases s with
  | some ch =>
    have h : FlagRight ch := hs ch rfl
    cases e with
    | inl e => exact flagInv_step_iff h e
    | inr line =>
      exact (flagInv_destroy_iff h line).trans (flagRight_sjoin_iff h line)
  | none =>
    cases e with
    | inr line =>
      refine iff_of_true ?_ fun _ h => nomatch h
      simp only [netStep]
      split
      · exact fun _ h => nomatch h
      · rintro _ ⟨rfl⟩
        exact flagRight_sjoinChannel_nil line.users line.modes
    | inl e =>
      cases e with
      | join client modes modesOnJoin =>
        refine iff_of_true ?_ trivial
        rintro _ ⟨rfl⟩
        simp [FlagRight, joinChannel, modedJoin, Channel.hasInvisibleUsers]
      | kick victim => exact iff_of_true (fun _ h => nomatch h) fun _ h => nomatch h
      | part client join0 =>
        exact iff_of_true (fun _ h => nomatch h) fun _ _ _ h => nomatch h
      | _ => exact iff_of_true (fun _ h => nomatch h) trivial

/-- The channel after a number of events. -/
def channelAfter (myConnect : ClientId → Bool) (events : List (Event ⊕ Sjoin)) :
    Option Channel :=
  events.foldl (netStep myConnect) none

/-- An invisible member is kicked after the channel has lost +D. -/
def kickEvents : List (Event ⊕ Sjoin) :=
  [.inl (.join 1 ['o'] false), .inl (.mode [[.delayed true]]),
    .inl (.join 2 [] false), .inl (.mode [[.delayed false]]), .inl (.kick 2)]

end UnrealIrcd.DelayJoin
