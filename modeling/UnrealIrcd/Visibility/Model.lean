import Mathlib.Data.Nat.Notation

/-!
# Who sees whom in a channel

A member of a channel can be invisible: it joined under mode +D and nobody but
the channel operators has been told.  `user_can_see_member` says whether one
user can see another one in a channel.

A membership is kept twice in memory, once in the list of the channel and once
in that of the user.  Status and flags are always written to both copies, and
there is one record for the two here.
-/

namespace UnrealIrcd.Visibility

abbrev ClientId := ℕ

abbrev ChannelId := ℕ

/-- `Membership` and the `Member` related to it: `member_modes`, and
`MEMB_FLAG_INVISIBLE` of `memb_flags`. -/
structure Membership where
  memberModes : List Char
  invisible : Bool
deriving DecidableEq, Repr

def checkChannelAccessString (currentModes modes : List Char) : Bool :=
  currentModes.any fun c => modes.contains c

/-- `check_channel_access_member` and `check_channel_access_membership`. -/
def Membership.access (mb : Membership) (modes : List Char) : Bool :=
  checkChannelAccessString mb.memberModes modes

/-- The status modes that are shown the invisible members. -/
def hoaq : List Char := ['h', 'o', 'a', 'q']

/-- The status modes that no invisible member is taken to have. -/
def vhoaq : List Char := ['v', 'h', 'o', 'a', 'q']

/-- `user_can_see_member_fast` and `user_can_see_membership_fast`. -/
def userCanSeeMemberFast (user target : ClientId) (targetMember : Membership)
    (userMemberModes : Option (List Char)) : Bool :=
  if user = target then true
  else if targetMember.invisible && !targetMember.access vhoaq &&
      !(userMemberModes.any fun modes => checkChannelAccessString modes hoaq) then
    false
  else true

/-- The users and channels.  The lists of the channels of a user
(`client->user->channel`) and of the local members of a channel
(`channel->local_members`) have the memberships that there are. -/
structure World where
  membership : ClientId → ChannelId → Option Membership
  channels : ClientId → List ChannelId
  localMembers : ChannelId → List ClientId
  myConnect : ClientId → Bool
  mem_channels : ∀ client channel,
    channel ∈ channels client ↔ (membership client channel).isSome
  mem_localMembers : ∀ client channel,
    client ∈ localMembers channel ↔
      myConnect client = true ∧ (membership client channel).isSome

def userCanSeeMember (W : World) (user target : ClientId)
    (channel : ChannelId) : Bool :=
  if user = target then true
  else
    match W.membership target channel with
    | none => false
    | some targetMember =>
      userCanSeeMemberFast user target targetMember
        ((W.membership user channel).map Membership.memberModes)

def invisibleUserInChannel (W : World) (target : ClientId)
    (channel : ChannelId) : Bool :=
  match W.membership target channel with
  | none => false
  | some targetMember => targetMember.invisible

end UnrealIrcd.Visibility
