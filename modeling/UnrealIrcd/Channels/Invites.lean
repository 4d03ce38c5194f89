import Mathlib.Data.List.Basic
import Mathlib.Data.PNat.Basic
import Mathlib.Logic.Function.Basic

/-!
# Invite lists

An invite is kept in a list of the user and in a list of the channel.  Both are
changed in pairs, also where an old invite makes room for a new one.
-/

namespace UnrealIrcd.Channels

open Function List

/-- `CLIENT_INVITES` and `CHANNEL_INVITES`, and who is not gone yet. -/
structure Invites (U C : Type) where
  isUser : U → Bool
  isChannel : C → Bool
  ofClient : U → List C
  ofChannel : C → List U

variable {U C : Type} [DecidableEq U] [DecidableEq C]

/-- Whoever comes later has empty lists already. -/
def Invites.start : Invites U C :=
  ⟨fun _ => true, fun _ => true, fun _ => [], fun _ => []⟩

/-- Users and channels change their roles. -/
def Invites.swap (s : Invites U C) : Invites C U :=
  ⟨s.isChannel, s.isUser, s.ofChannel, s.ofClient⟩

def delInvite (client : U) (channel : C) (s : Invites U C) : Invites U C :=
  { s with
    ofChannel := update s.ofChannel channel
      ((s.ofChannel channel).erase client)
    ofClient := update s.ofClient client
      ((s.ofClient client).erase channel) }

def putInvite (client : U) (channel : C) (s : Invites U C) : Invites U C :=
  { s with
    ofChannel := update s.ofChannel channel (client :: s.ofChannel channel)
    ofClient := update s.ofClient client (channel :: s.ofClient client) }

/-- The last entry of a list that is too long is deleted.  There is no result
if there is no entry. -/
def delOldest {A : Type} (limit : ℕ) (list : List A)
    (del : A → Invites U C) (s : Invites U C) : Option (Invites U C) :=
  if limit ≤ list.length then list.getLast?.map del else some s

/-- `add_invite`, where `limit` is `SET_MAX_CHANNELS_PER_USER` of the one who
invites. -/
def addInvite (limit : ℕ) (target : U) (channel : C) (s : Invites U C) :
    Option (Invites U C) := do
  let s := delInvite target channel s
  let s ← delOldest limit (s.ofClient target) (delInvite target · s) s
  let s ← delOldest limit (s.ofChannel channel) (delInvite · channel s) s
  return putInvite target channel s

/-- The loop of `invite_user_quit` along the list of the client. -/
def inviteUserQuit (client : U) (s : Invites U C) : Invites U C :=
  match _h : s.ofClient client with
  | [] => s
  | channel :: _ => inviteUserQuit client (delInvite client channel s)
termination_by (s.ofClient client).length
decreasing_by simp [delInvite, _h]

/-- `invite_channel_destroy` has the same loop, along the list of the
channel. -/
def inviteChannelDestroy (channel : C) (s : Invites U C) : Invites U C :=
  (inviteUserQuit channel s.swap).swap

inductive InviteEvent (U C : Type) where
  | invite (limit : ℕ+) (target : U) (channel : C)
  | join (client : U) (channel : C)
  | quit (client : U)
  | destroy (channel : C) (shouldDestroy : Bool)

/-- Nobody who is gone is invited, or invited to.  The hook of
`sub1_from_channel` runs even if the channel is to stay. -/
def inviteStep (s : Invites U C) : InviteEvent U C → Option (Invites U C)
  | .invite limit target channel =>
    if s.isUser target && s.isChannel channel then
      addInvite limit target channel s
    else some s
  | .join client channel => some (delInvite client channel s)
  | .quit client =>
    some { inviteUserQuit client s with
      isUser := update s.isUser client false }
  | .destroy channel shouldDestroy =>
    some { inviteChannelDestroy channel s with
      isChannel := update s.isChannel channel
        (s.isChannel channel && !shouldDestroy) }

namespace Invites

/-- The lists mention each other at most once, and only who is there. -/
structure Paired (s : Invites U C) : Prop where
  count_eq : ∀ client channel,
    (s.ofClient client).count channel = (s.ofChannel channel).count client
  count_le : ∀ client channel, (s.ofClient client).count channel ≤ 1
  present : ∀ client channel, channel ∈ s.ofClient client →
    s.isUser client = true ∧ s.isChannel channel = true

/-- The same with some invites deleted. -/
structure Reduced (s s' : Invites U C) : Prop where
  paired : s'.Paired
  isUser : s'.isUser = s.isUser
  isChannel : s'.isChannel = s.isChannel
  subset : ∀ client, s'.ofClient client ⊆ s.ofClient client

variable {s : Invites U C}

namespace Paired

theorem swap (h : s.Paired) : s.swap.Paired where
  count_eq channel client := (h.count_eq client channel).symm
  count_le channel client :=
    (h.count_eq client channel).symm.trans_le (h.count_le client channel)
  present channel client hmem := (h.present client channel (count_pos_iff.mp
    ((count_pos_iff.mpr hmem).trans_eq (h.count_eq client channel).symm))).symm

theorem reduced_delInvite (h : s.Paired) (client : U) (channel : C) :
    s.Reduced (delInvite client channel s) := by
  refine ⟨⟨?_, ?_, ?_⟩, rfl, rfl, ?_⟩ <;> intro client' channel' <;>
    simp only [delInvite, update_apply]
  · have heq := h.count_eq client' channel'
    grind
  · have hle := h.count_le client' channel'
    grind
  · have hpresent := h.present client' channel'
    grind
  · grind

theorem putInvite (h : s.Paired) {client : U} {channel : C}
    (hnew : channel ∉ s.ofClient client) (hclient : s.isUser client = true)
    (hchannel : s.isChannel channel = true) :
    (putInvite client channel s).Paired := by
  refine ⟨?_, ?_, ?_⟩ <;> intro client' channel' <;>
    simp only [Channels.putInvite, update_apply]
  · have heq := h.count_eq client' channel'
    grind
  · have hle := h.count_le client' channel'
    grind
  · have hpresent := h.present client' channel'
    grind

theorem delOldest (h : s.Paired) {A : Type} {limit : ℕ} (hlimit : 0 < limit)
    (list : List A) {del : A → Invites U C} (hdel : ∀ a, s.Reduced (del a)) :
    ∃ s', delOldest limit list del s = some s' ∧ s.Reduced s' := by
  unfold Channels.delOldest
  split_ifs with hlong
  · have hne : list ≠ [] := length_pos_iff.mp (hlimit.trans_le hlong)
    exact ⟨del (list.getLast hne), by rw [getLast?_eq_some_getLast hne]; rfl,
      hdel _⟩
  · exact ⟨s, rfl, h, rfl, rfl, fun _ _ hmem => hmem⟩

theorem addInvite (h : s.Paired) {limit : ℕ} (hlimit : 0 < limit) {client : U}
    {channel : C} (hclient : s.isUser client = true)
    (hchannel : s.isChannel channel = true) :
    ∃ s', addInvite limit client channel s = some s' ∧ s'.Paired := by
  have h₀ := h.reduced_delInvite client channel
  obtain ⟨s₁, heq₁, h₁⟩ := h₀.paired.delOldest hlimit _
    (h₀.paired.reduced_delInvite client)
  obtain ⟨s₂, heq₂, h₂⟩ := h₁.paired.delOldest hlimit _
    (h₁.paired.reduced_delInvite · channel)
  have hnew : channel ∉ s₂.ofClient client := fun hmem => by
    have hold := h₁.subset client (h₂.subset client hmem)
    have hle := h.count_le client channel
    simp only [← count_pos_iff, delInvite, update_self, count_erase_self]
      at hold
    omega
  refine ⟨_, Option.bind_eq_some_iff.mpr ⟨s₁, heq₁, Option.bind_eq_some_iff.mpr
    ⟨s₂, heq₂, rfl⟩⟩, h₂.paired.putInvite hnew ?_ ?_⟩
  · rw [h₂.isUser, h₁.isUser, h₀.isUser, hclient]
  · rw [h₂.isChannel, h₁.isChannel, h₀.isChannel, hchannel]

theorem leave (h : s.Paired) (client : U) (stays : Bool) :
    { inviteUserQuit client s with
      isUser := update s.isUser client stays }.Paired := by
  fun_induction inviteUserQuit client s with
  | case1 s hnil =>
    refine ⟨h.count_eq, h.count_le, fun client' channel hmem => ?_⟩
    have hpresent := h.present client' channel hmem
    simp only [update_apply]
    grind
  | case2 s channel _ _ ih =>
    exact ih (h.reduced_delInvite client channel).paired

theorem inviteStep (h : s.Paired) (event : InviteEvent U C) :
    ∃ s', inviteStep s event = some s' ∧ s'.Paired := by
  cases event with
  | invite limit target channel =>
    dsimp only [Channels.inviteStep]
    split_ifs with hthere
    · rw [Bool.and_eq_true] at hthere
      exact h.addInvite limit.pos hthere.1 hthere.2
    · exact ⟨s, rfl, h⟩
  | join client channel =>
    exact ⟨_, rfl, (h.reduced_delInvite client channel).paired⟩
  | quit client => exact ⟨_, rfl, h.leave client false⟩
  | destroy channel shouldDestroy =>
    exact ⟨_, rfl, (h.swap.leave channel _).swap⟩

end Paired
end Invites

/-- Whatever happens, the invite lists stay paired. -/
theorem paired_foldlM_inviteStep (events : List (InviteEvent U C)) :
    ∃ s, events.foldlM inviteStep Invites.start = some s ∧ s.Paired := by
  suffices hrun : ∀ s : Invites U C, s.Paired →
      ∃ s', events.foldlM inviteStep s = some s' ∧ s'.Paired from
    hrun _ ⟨fun _ _ => rfl, fun _ _ => Nat.zero_le 1, fun _ _ hmem =>
      absurd hmem not_mem_nil⟩
  induction events with
  | nil => exact fun s h => ⟨s, rfl, h⟩
  | cons event events ih =>
    intro s h
    obtain ⟨s', hstep, h'⟩ := h.inviteStep event
    rw [foldlM_cons, hstep]
    exact ih s' h'

end UnrealIrcd.Channels
