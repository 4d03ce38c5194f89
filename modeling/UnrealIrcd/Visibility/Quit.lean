import UnrealIrcd.Support.Runs
import UnrealIrcd.Visibility.Model

/-!
# Who is told that a user quits

Two functions send the QUIT of a user to the local members of its channels.
Both go over the channels of the user and over the local members of each, and
mark a client with the serial number of the message once it has been sent.

Neither of them asks the right question about invisible members.
`sendto_local_common_channels` leaves out those that *can* see the user, and
`quit_sendto_local_common_channels` gives `user_can_see_member_fast` the
membership of the one who looks and the modes of the one who leaves.
-/

namespace UnrealIrcd.Visibility

open Support

/-! ## The two loops -/

/-- `current_serial`, an `int` that wraps around, and the number of the last message
that each client was sent. -/
structure Serials where
  current : BitVec 32
  serial : ClientId → BitVec 32

/-- No client has kept the next number from before the counter wrapped around. -/
def Serials.Fresh (S : Serials) : Prop := ∀ client, S.serial client ≠ S.current + 1

/-- The marks in the course of one message, and the clients it was sent to. -/
structure Sending where
  serial : ClientId → BitVec 32
  sent : List ClientId

/-- One round of the inner loop: `accept` are the tests that the client has to
pass in the channel. -/
def offer (currentSerial : BitVec 32) (accept : ChannelId → ClientId → Bool)
    (channel : ChannelId) (s : Sending) (acptr : ClientId) : Sending :=
  if s.serial acptr = currentSerial then s
  else if accept channel acptr then
    ⟨Function.update s.serial acptr currentSerial, s.sent ++ [acptr]⟩
  else s

/-- The loops over the channels of the user and over the local members. -/
def sendLoop (W : World) (S : Serials) (user : ClientId)
    (accept : ChannelId → ClientId → Bool) : Sending :=
  (W.channels user).foldl
    (fun s channel =>
      (W.localMembers channel).foldl (offer (S.current + 1) accept channel) s)
    ⟨S.serial, []⟩

/-- `sendto_local_common_channels`; `hasCap` stands for the test of the client
capability, which everybody passes if none is asked for. -/
def sendtoLocalCommonChannels (W : World) (S : Serials) (user : ClientId)
    (skip : Option ClientId) (hasCap : ClientId → Bool) : List ClientId :=
  (sendLoop W S user fun channel acptr =>
    let checkInvisible := invisibleUserInChannel W user channel
    hasCap acptr && !(some acptr == skip) &&
      !(checkInvisible && userCanSeeMember W acptr user channel)).sent

def quitSendtoLocalCommonChannels (W : World) (S : Serials)
    (leaving : ClientId) : List ClientId :=
  (sendLoop W S leaving fun channel acptr =>
    W.myConnect acptr &&
      -- `lm->ptr` is the member `acptr`, and `mb` the membership of `leaving`.
      (W.membership acptr channel).any fun lm =>
        userCanSeeMemberFast acptr leaving lm
          ((W.membership leaving channel).map Membership.memberModes)).sent

/-! ## What a loop does -/

section Loop

variable {W : World} {S : Serials} {user u : ClientId}
  {accept : ChannelId → ClientId → Bool} {currentSerial : BitVec 32}

/-- The client has been sent the message exactly if it is marked, and then
once. -/
def Marked (currentSerial : BitVec 32) (s : Sending) : Prop :=
  ∀ u, s.sent.count u = if s.serial u = currentSerial then 1 else 0

theorem marked_offer {s : Sending} (h : Marked currentSerial s)
    (channel : ChannelId) (acptr : ClientId) :
    Marked currentSerial (offer currentSerial accept channel s acptr) := by
  intro u
  unfold offer
  split
  case isTrue => exact h u
  case isFalse hnew =>
    split
    case isFalse => exact h u
    case isTrue =>
      by_cases hu : u = acptr
      · subst hu
        simp [h u, hnew]
      · simp [Function.update_of_ne hu, h u, Ne.symm hu]

theorem marked_sendLoop (hfresh : S.Fresh) :
    Marked (S.current + 1) (sendLoop W S user accept) := by
  have hstart : Marked (S.current + 1) ⟨S.serial, []⟩ := by
    intro u
    rw [if_neg (hfresh u), List.count_nil]
  refine foldl_invariant hstart (fun s channel hs => ?_) (W.channels user)
  exact foldl_invariant hs (fun s acptr hs => marked_offer hs channel acptr)
    (W.localMembers channel)

theorem mark_offer (channel : ChannelId) (s : Sending) (acptr : ClientId) :
    (offer currentSerial accept channel s acptr).serial u = currentSerial ↔
      s.serial u = currentSerial ∨ (u = acptr ∧ accept channel u = true) := by
  unfold offer
  by_cases hu : u = acptr
  · subst hu
    split
    case isTrue hmark => simp [hmark]
    case isFalse hmark =>
      split
      case isTrue hacc => simp [hacc]
      case isFalse hacc => simp [hmark, hacc]
  · split
    case isTrue => simp [hu]
    case isFalse => split <;> simp [hu]

theorem mark_members (channel : ChannelId) (members : List ClientId)
    (s : Sending) :
    (members.foldl (offer currentSerial accept channel) s).serial u =
        currentSerial ↔
      s.serial u = currentSerial ∨ (u ∈ members ∧ accept channel u = true) := by
  induction members generalizing s with
  | nil => simp
  | cons acptr members ih =>
    rw [List.foldl_cons, ih, mark_offer, List.mem_cons]
    tauto

/-- In the end the clients are marked that were accepted in some channel. -/
theorem mark_sendLoop (hfresh : S.Fresh) :
    (sendLoop W S user accept).serial u = S.current + 1 ↔
      ∃ channel ∈ W.channels user, u ∈ W.localMembers channel ∧
        accept channel u = true := by
  have hfold : ∀ (channels : List ChannelId) (s : Sending),
      (channels.foldl (fun s channel => (W.localMembers channel).foldl
        (offer (S.current + 1) accept channel) s) s).serial u =
          S.current + 1 ↔
        s.serial u = S.current + 1 ∨ ∃ channel ∈ channels,
          u ∈ W.localMembers channel ∧ accept channel u = true := by
    intro channels
    induction channels with
    | nil => simp
    | cons channel channels ih =>
      intro s
      rw [List.foldl_cons, ih, mark_members]
      simp only [List.mem_cons, or_and_right, exists_or, exists_eq_left,
        or_assoc]
  rw [sendLoop, hfold]
  exact or_iff_right (hfresh u)

/-- Both are members of the channel. -/
def Shared (W : World) (u leaving : ClientId) (channel : ChannelId) : Prop :=
  (W.membership leaving channel).isSome ∧ (W.membership u channel).isSome

end Loop

/-! ## Who should be told -/

/-- There is a channel in which both are members and in which the user can see
the one who leaves. -/
def SharesVisibly (W : World) (u leaving : ClientId) : Prop :=
  ∃ channel, (W.membership leaving channel).isSome ∧
    (W.membership u channel).isSome ∧
      userCanSeeMember W u leaving channel = true

/-- Every other local user is told once if it can see the one who leaves, and not at
all otherwise. -/
def ToldOnce (W : World) (leaving : ClientId) (sent : List ClientId) : Prop :=
  ∀ u ≠ leaving, W.myConnect u = true →
    (SharesVisibly W u leaving → sent.count u = 1) ∧
      (¬ SharesVisibly W u leaving → sent.count u = 0)

variable {W : World} {accept : ChannelId → ClientId → Bool}

/-- The loop tells the right users exactly if its tests accept a user in some
shared channel just when the user can see the one who leaves in one. -/
theorem toldOnce_sendLoop_iff {S : Serials} (hfresh : S.Fresh)
    {leaving : ClientId} :
    ToldOnce W leaving (sendLoop W S leaving accept).sent ↔
      ∀ u ≠ leaving, W.myConnect u = true →
        ((∃ channel, Shared W u leaving channel ∧ accept channel u = true) ↔
        SharesVisibly W u leaving) := by
  refine forall_congr' fun u => forall_congr' fun _ =>
    imp_congr_right fun hlocal => ?_
  have hmark : (sendLoop W S leaving accept).serial u = S.current + 1 ↔
      ∃ channel, Shared W u leaving channel ∧ accept channel u = true := by
    rw [mark_sendLoop hfresh]
    refine exists_congr fun channel => ?_
    rw [W.mem_channels, W.mem_localMembers, Shared]
    simp [hlocal, and_assoc]
  rw [marked_sendLoop hfresh u, ← hmark]
  split
  case isTrue hmark =>
    simp only [hmark, true_iff, Nat.one_ne_zero, imp_false, not_not,
      implies_true, true_and]
  case isFalse hmark =>
    simp only [hmark, false_iff, Nat.zero_ne_one, imp_false, implies_true,
      and_true]

theorem myConnect_of_mem_sent {S : Serials} (hfresh : S.Fresh)
    {leaving u : ClientId}
    (h : u ∈ (sendLoop W S leaving accept).sent) : W.myConnect u = true := by
  have hcount := List.count_pos_iff.mpr h
  rw [marked_sendLoop hfresh u] at hcount
  split at hcount
  case isTrue hmark =>
    obtain ⟨channel, -, hmem, -⟩ := (mark_sendLoop hfresh).mp hmark
    exact ((W.mem_localMembers u channel).mp hmem).1
  case isFalse => cases hcount

theorem ToldOnce.mem_iff {leaving u : ClientId} {sent : List ClientId}
    (h : ToldOnce W leaving sent) (hother : u ≠ leaving)
    (hlocal : W.myConnect u = true) :
    u ∈ sent ↔ SharesVisibly W u leaving := by
  rw [← List.count_pos_iff]
  constructor
  · intro hcount
    by_contra hnot
    rw [(h u hother hlocal).2 hnot] at hcount
    exact Nat.lt_irrefl 0 hcount
  · intro hshares
    rw [(h u hother hlocal).1 hshares]
    exact Nat.one_pos

/-! ## The conditions -/

/-- The one who leaves is not invisible in some shared channel, or is invisible
in all of them and seen by the user in some, but not in all. -/
def SeenOrMixed (W : World) (u leaving : ClientId) : Prop :=
  (∃ channel, Shared W u leaving channel ∧
      invisibleUserInChannel W leaving channel = false) ∨
    ((∃ channel, Shared W u leaving channel ∧
        userCanSeeMember W u leaving channel = true) ∧
      ∃ channel, Shared W u leaving channel ∧
        userCanSeeMember W u leaving channel = false)

/-- In some shared channel the user is not invisible or has a status mode, or
the one who leaves has one of `hoaq`. -/
def RolesDoNotMatter (W : World) (u leaving : ClientId) : Prop :=
  ∃ channel mb mb', W.membership leaving channel = some mb ∧
    W.membership u channel = some mb' ∧
      (mb'.invisible = false ∨ mb'.access vhoaq = true ∨ mb.access hoaq = true)

variable {u leaving : ClientId}

theorem sharesVisibly_iff :
    SharesVisibly W u leaving ↔ ∃ channel, Shared W u leaving channel ∧
      userCanSeeMember W u leaving channel = true :=
  exists_congr fun _ => and_assoc.symm

theorem SharesVisibly.shared (h : SharesVisibly W u leaving) :
    ∃ channel, Shared W u leaving channel :=
  h.imp fun _ h => ⟨h.1, h.2.1⟩

theorem RolesDoNotMatter.shared (h : RolesDoNotMatter W u leaving) :
    ∃ channel, Shared W u leaving channel := by
  obtain ⟨channel, mb, mb', hmb, hmb', -⟩ := h
  exact ⟨channel, by rw [hmb]; rfl, by rw [hmb']; rfl⟩

theorem SeenOrMixed.sharesVisibly (h : SeenOrMixed W u leaving) :
    SharesVisibly W u leaving := by
  rw [sharesVisibly_iff]
  rcases h with ⟨channel, hshared, hvisible⟩ | ⟨hsees, -⟩
  · refine ⟨channel, hshared, ?_⟩
    obtain ⟨mb, hmb⟩ := Option.isSome_iff_exists.mp hshared.1
    rw [invisibleUserInChannel, hmb] at hvisible
    rw [userCanSeeMember, hmb]
    split
    · rfl
    · simp [userCanSeeMemberFast, show mb.invisible = false from hvisible]
  · exact hsees

theorem accepted_sendto_iff :
    ((∃ channel, Shared W u leaving channel ∧
        (!(invisibleUserInChannel W leaving channel &&
          userCanSeeMember W u leaving channel)) = true) ↔
      SharesVisibly W u leaving) ↔
    ((∃ channel, Shared W u leaving channel) → SeenOrMixed W u leaving) := by
  constructor
  · rintro hiff ⟨channel, hshared⟩
    by_cases hvisible : ∃ channel, Shared W u leaving channel ∧
        invisibleUserInChannel W leaving channel = false
    · exact .inl hvisible
    -- The user is invisible in all shared channels: where it is not seen it is
    -- announced, and where it is seen it is not.
    have hinvisible : ∀ channel, Shared W u leaving channel →
        invisibleUserInChannel W leaving channel = true := by
      intro channel hshared
      by_contra hnot
      exact hvisible ⟨channel, hshared, by simpa using hnot⟩
    rw [sharesVisibly_iff] at hiff
    by_cases hsees : ∃ channel, Shared W u leaving channel ∧
        userCanSeeMember W u leaving channel = true
    · obtain ⟨channel', hshared', hacc⟩ := hiff.mpr hsees
      refine .inr ⟨hsees, channel', hshared', ?_⟩
      rw [hinvisible channel' hshared'] at hacc
      simpa using hacc
    · refine absurd (hiff.mp ⟨channel, hshared, ?_⟩) hsees
      have hnot : userCanSeeMember W u leaving channel = false := by
        by_contra hsee
        exact hsees ⟨channel, hshared, by simpa using hsee⟩
      simp [hnot]
  · intro hcond
    constructor
    · rintro ⟨channel, hshared, -⟩
      exact (hcond ⟨channel, hshared⟩).sharesVisibly
    · rintro ⟨channel, h₁, h₂, -⟩
      rcases hcond ⟨channel, h₁, h₂⟩ with ⟨channel', hshared, hvisible⟩ |
        ⟨-, channel', hshared, hunseen⟩
      · exact ⟨channel', hshared, by simp [hvisible]⟩
      · exact ⟨channel', hshared, by simp [hunseen]⟩

theorem accepted_quitSendto_iff (hlocal : W.myConnect u = true)
    (hother : u ≠ leaving) :
    (∃ channel, Shared W u leaving channel ∧
        (W.myConnect u && (W.membership u channel).any fun lm =>
          userCanSeeMemberFast u leaving lm
            ((W.membership leaving channel).map Membership.memberModes)) = true) ↔
      RolesDoNotMatter W u leaving := by
  constructor
  · rintro ⟨channel, ⟨h₁, h₂⟩, hacc⟩
    obtain ⟨mb, hmb⟩ := Option.isSome_iff_exists.mp h₁
    obtain ⟨mb', hmb'⟩ := Option.isSome_iff_exists.mp h₂
    refine ⟨channel, mb, mb', hmb, hmb', ?_⟩
    rw [hlocal, hmb, hmb'] at hacc
    simp only [Bool.true_and, Option.any_some, Option.map_some,
      userCanSeeMemberFast, if_neg hother] at hacc
    by_contra hno
    rw [not_or, not_or] at hno
    obtain ⟨hinv, hstatus, hops⟩ := hno
    rw [Membership.access] at hops
    simp [hinv, hstatus, hops] at hacc
  · rintro ⟨channel, mb, mb', hmb, hmb', hcase⟩
    refine ⟨channel, ⟨by simp [hmb], by simp [hmb']⟩, ?_⟩
    rw [hlocal, hmb, hmb']
    simp only [Bool.true_and, Option.any_some, Option.map_some,
      userCanSeeMemberFast]
    rcases hcase with hinv | hstatus | hops
    · simp [hinv]
    · simp [hstatus]
    · rw [Membership.access] at hops
      simp [hops]

/-- One channel with the local users 1 and 2, of whom user 1 may be invisible. -/
def sampleWorld (invisible : Bool) : World where
  membership client channel :=
    if channel = 0 then
      if client = 1 then some ⟨[], invisible⟩
      else if client = 2 then some ⟨[], false⟩
      else none
    else none
  channels client := if client = 1 ∨ client = 2 then [0] else []
  localMembers channel := if channel = 0 then [1, 2] else []
  myConnect client := client = 1 ∨ client = 2
  mem_channels client channel := by
    by_cases hc : channel = 0 <;> by_cases h₁ : client = 1 <;>
      by_cases h₂ : client = 2 <;> simp [hc, h₁, h₂]
  mem_localMembers client channel := by
    by_cases hc : channel = 0 <;> by_cases h₁ : client = 1 <;>
      by_cases h₂ : client = 2 <;> simp [hc, h₁, h₂]

/-- The counter is about to wrap around. -/
def sampleSerials : Serials := ⟨-1, fun _ => 1⟩

end UnrealIrcd.Visibility
