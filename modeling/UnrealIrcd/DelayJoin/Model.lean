import UnrealIrcd.Visibility.Model

/-!
# Delayed joins

Under channel mode +D a member stays invisible until it speaks or its status
changes; those with one of the modes `hoaq` see it all the same.  Nothing
records who has been told about whom: it follows from the JOIN, PART and KICK
lines that were sent.  A channel that loses +D while it still has invisible
members gets the mode +d until the last of them has become visible.

One channel is modelled, with the lines about its members that the local users
are sent.
-/

namespace UnrealIrcd.DelayJoin

open Visibility

/-- `Member`: the client, its status modes and whether it is invisible.  The
order of the status modes is left out. -/
structure Member where
  client : ClientId
  membership : Membership
deriving DecidableEq, Repr

/-- The channel: its members and whether it has the modes +D, +d and +P. -/
structure Channel where
  members : List Member
  delayed : Bool
  postDelayed : Bool
  permanent : Bool
deriving DecidableEq, Repr

/-- What a local user is sent about a member.  NAMES comes with its own join. -/
inductive Line where
  | join (who : ClientId)
  | part (who : ClientId)
  | kick (who : ClientId)
  | names (who : List ClientId)
deriving DecidableEq, Repr

abbrev Out := List (ClientId × Line)

namespace Channel

variable (ch : Channel)

/-- `find_membership_link`. -/
def find (client : ClientId) : Option Membership :=
  (ch.members.find? fun m => m.client = client).map Member.membership

def isMember (client : ClientId) : Bool := (ch.find client).isSome

/-- `check_channel_access`. -/
def access (client : ClientId) (modes : List Char) : Bool :=
  (ch.find client).any fun mb => mb.access modes

/-- `invisible_user_in_channel`. -/
def invisibleUser (client : ClientId) : Bool :=
  (ch.find client).any Membership.invisible

/-- `channel_has_invisible_users`. -/
def hasInvisibleUsers : Bool :=
  ch.members.any fun m => m.membership.invisible

def modify (client : ClientId) (f : Membership → Membership) : Channel :=
  { ch with members := ch.members.map fun m =>
      if m.client = client then { m with membership := f m.membership } else m }

def setUserInvisible (client : ClientId) (invisible : Bool) : Channel :=
  ch.modify client fun mb => { mb with invisible := invisible }

/-- `user_can_see_member`, for two members. -/
def canSee (user target : ClientId) : Bool :=
  if user = target then true
  else
    match ch.find target with
    | none => false
    | some targetMember =>
      userCanSeeMemberFast user target targetMember
        ((ch.find user).map Membership.memberModes)

/-- `remove_user_from_channel` and `sub1_from_channel`: an empty channel goes
away unless it is permanent. -/
def remove (client : ClientId) : Option Channel :=
  let members := ch.members.filter fun m => m.client ≠ client
  if members.isEmpty && !ch.permanent then none
  else some { ch with members := members }

end Channel

variable (myConnect : ClientId → Bool)

/-- The local members of the channel to which `sendto_channel` sends. -/
def sendtoChannel (ch : Channel) (accept : Member → Bool) (line : Line) : Out :=
  (ch.members.filter fun m => myConnect m.client && accept m).map
    fun m => (m.client, line)

/-! ## The hooks of the module -/

/-- `clear_post_delayed` if no invisible member is left. -/
def clearPostDelayedIfLast (ch : Channel) : Channel :=
  if ch.postDelayed && !ch.hasInvisibleUsers then
    { ch with postDelayed := false }
  else ch

def clearUserInvisibleAnnounce (ch : Channel) (client : ClientId) :
    Channel × Out :=
  let ch := ch.setUserInvisible client false
  (clearPostDelayedIfLast ch,
    sendtoChannel myConnect ch
      (fun m => !m.membership.access hoaq && m.client != client) (.join client))

def modedJoin (ch : Channel) (client : ClientId) : Channel :=
  if ch.delayed then ch.setUserInvisible client true else ch

/-- `moded_part`, and what `moded_quit` does for each channel. -/
def modedPart (ch : Channel) (client : ClientId) : Channel :=
  if ch.postDelayed then
    clearPostDelayedIfLast (ch.setUserInvisible client false)
  else ch

def modedPrechanmsg (ch : Channel) (client : ClientId) : Channel × Out :=
  if (ch.delayed || ch.postDelayed) && ch.invisibleUser client then
    clearUserInvisibleAnnounce myConnect ch client
  else (ch, [])

/-- One letter of a mode line, with its parameter and its sign. -/
inductive Change where
  | status (add : Bool) (letter : Char) (client : ClientId)
  | delayed (add : Bool)
  | permanent (add : Bool)
deriving DecidableEq, Repr

/-- The body of the loop of `moded_parsemode`. -/
def parseLetter (removed : Bool) : Change → Bool
  | .delayed add => !add
  | _ => removed

/-- `moded_parsemode`: the last `D` of the line has a minus. -/
def modedParsemode (line : List Change) : Bool := line.foldl parseLetter false

/-- The letters that the loop of `moded_chanmode` looks for. -/
def isStatusLetter (letter : Char) : Bool :=
  letter = 'o' || letter = 'h' || letter = 'a' || letter = 'q' || letter = 'v'

/-- The body of the loop of `moded_chanmode`, for one letter.  A user that gains
or loses one of `hoaq` is sent a JOIN or a PART for every other invisible
member. -/
def modedStatus (ch : Channel) (add : Bool) (letter : Char) (user : ClientId) :
    Channel × Out :=
  if isStatusLetter letter then
    let announced :=
      if ch.invisibleUser user then clearUserInvisibleAnnounce myConnect ch user
      else (ch, [])
    if letter = 'v' || !myConnect user then announced
    else
      let others := announced.1.members.filter fun m =>
        m.client != user && m.membership.invisible
      (announced.1, announced.2 ++ others.map fun m =>
        (user, if add then .join m.client else .part m.client))
  else (ch, [])

/-- The loop of `moded_chanmode` over the letters of the line. -/
def modedLoop : List Change → Channel → Channel × Out
  | [], ch => (ch, [])
  | .status add letter user :: line, ch =>
    let r := modedStatus myConnect ch add letter user
    let r' := modedLoop line r.1
    (r'.1, r.2 ++ r'.2)
  | _ :: line, ch => modedLoop line ch

/-- `set_post_delayed` and `clear_post_delayed` at the start of
`moded_chanmode`. -/
def modedUpdate (ch : Channel) (line : List Change) : Channel :=
  if modedParsemode line && !ch.delayed && !ch.postDelayed &&
      ch.hasInvisibleUsers then
    { ch with postDelayed := true }
  else if ch.delayed && ch.postDelayed then { ch with postDelayed := false }
  else ch

def modedChanmode (ch : Channel) (line : List Change) : Channel × Out :=
  let ch := modedUpdate ch line
  if ch.delayed || ch.postDelayed then modedLoop myConnect line ch
  else (ch, [])

/-! ## The commands -/

/-- `set_mode` for one letter; a letter that changes nothing does not get into
the mode line. -/
def applyChange (ch : Channel) : Change → Option Channel
  | .status add letter client =>
    match ch.find client with
    | none => none
    | some mb =>
      if mb.memberModes.contains letter = add then none
      else some (ch.modify client fun mb => { mb with
        memberModes := if add then letter :: mb.memberModes
          else mb.memberModes.filter fun c => c ≠ letter })
  | .delayed add =>
    if ch.delayed = add then none else some { ch with delayed := add }
  | .permanent add =>
    if ch.permanent = add then none else some { ch with permanent := add }

/-- All letters of a request, with those that made a change. -/
def applyLine (ch : Channel) : List Change → Channel × List Change
  | [] => (ch, [])
  | change :: changes =>
    match applyChange ch change with
    | none => applyLine ch changes
    | some ch' =>
      let r := applyLine ch' changes
      (r.1, change :: r.2)

/-- `set_mode`: all changes are made before the first line is sent out. -/
def setMode (ch : Channel) : List (List Change) → Channel × List (List Change)
  | [] => (ch, [])
  | line :: lines =>
    let r := applyLine ch line
    let r' := setMode r.1 lines
    (r'.1, r.2 :: r'.2)

/-- The loop of `do_mode` over the mode lines, up to the hook of the module. -/
def hookLines : List (List Change) → Channel → Channel × Out
  | [], ch => (ch, [])
  | line :: lines, ch =>
    let r := modedChanmode myConnect ch line
    let r' := hookLines lines r.1
    (r'.1, r.2 ++ r'.2)

inductive Event where
  /-- A user joins with the given status; the channel may have to be created,
  and has +D from the start if `set::modes-on-join` says so. -/
  | join (client : ClientId) (modes : List Char) (modesOnJoin : Bool)
  /-- PART, or the part that comes with `JOIN 0`. -/
  | part (client : ClientId) (join0 : Bool)
  | kick (victim : ClientId)
  | quit (client : ClientId)
  /-- A mode change; lines without effective letters are not sent. -/
  | mode (lines : List (List Change))
  | message (client : ClientId)
deriving DecidableEq, Repr

/-- `add_user_to_channel` with its hook, and the JOIN and NAMES that follow. -/
def joinChannel (ch : Channel) (client : ClientId) (modes : List Char) :
    Channel × Out :=
  let ch := modedJoin
    { ch with members := ⟨client, ⟨modes, false⟩⟩ :: ch.members } client
  let invisible := ch.invisibleUser client
  (ch,
    sendtoChannel myConnect ch
      (fun m => !invisible || m.membership.access hoaq || m.client = client)
      (.join client) ++
    if myConnect client then
      [(client, .names ((ch.members.map Member.client).filter
        (ch.canSee client)))]
    else [])

/-- Who is sent the PART or KICK of a member: everybody, or only those with one
of `hoaq` and the member itself. -/
def leaveLines (ch : Channel) (client : ClientId) (line : Line) : Out :=
  sendtoChannel myConnect ch
    (fun m => !ch.invisibleUser client || m.membership.access hoaq ||
      m.client = client) line

/-- The hook of a PART.  That of `JOIN 0` runs it for local users only. -/
def partHook (ch : Channel) (client : ClientId) (join0 : Bool) : Channel :=
  if join0 && !myConnect client then ch else modedPart ch client

/-- One step of the channel; `none` is the channel that does not exist. -/
def step : Option Channel → Event → Option Channel × Out
  | none, .join client modes modesOnJoin =>
    let r := joinChannel myConnect ⟨[], false, false, false⟩ client modes
    (some { r.1 with delayed := modesOnJoin }, r.2)
  | none, _ => (none, [])
  | some ch, .join client modes _ =>
    if ch.isMember client then (some ch, [])
    else
      let r := joinChannel myConnect ch client modes
      (some r.1, r.2)
  | some ch, .part client join0 =>
    if ch.isMember client then
      ((partHook myConnect ch client join0).remove client,
        if join0 then sendtoChannel myConnect ch (fun _ => true) (.part client)
        else leaveLines myConnect ch client (.part client))
    else (some ch, [])
  | some ch, .kick victim =>
    if ch.isMember victim then
      (ch.remove victim, leaveLines myConnect ch victim (.kick victim))
    else (some ch, [])
  | some ch, .quit client =>
    if ch.isMember client then
      ((partHook myConnect ch client false).remove client, [])
    else (some ch, [])
  | some ch, .mode lines =>
    let r := setMode ch lines
    let r' := hookLines myConnect (r.2.filter fun line => !line.isEmpty) r.1
    -- A channel that is empty and no longer permanent goes away.
    (if r'.1.members.isEmpty && !r'.1.permanent then none else some r'.1, r'.2)
  | some ch, .message client =>
    let r := modedPrechanmsg myConnect ch client
    (some r.1, r.2)

/-! ## SJOIN -/

/-- What SJOIN does to the channel: the modes and statuses that it removes, the
users that join, and the modes that it sets.  No hook sees its mode changes. -/
structure Sjoin where
  removed : List (List Change)
  users : List (ClientId × List Char)
  modes : List (List Change)
deriving DecidableEq, Repr

/-- A user of the line joins, unless it is a member. -/
def sjoinUser (ch : Channel) (user : ClientId × List Char) : Channel :=
  if ch.isMember user.1 then ch
  else (joinChannel myConnect ch user.1 user.2).1

def sjoinChannel (ch : Channel) (line : Sjoin) : Channel :=
  (setMode (line.users.foldl (sjoinUser myConnect) (setMode ch line.removed).1)
    line.modes).1

/-- The channel after a command of a user, or after an SJOIN.  A channel that the
SJOIN creates has nothing to remove. -/
def netStep (s : Option Channel) : Event ⊕ Sjoin → Option Channel
  | .inl e => (step myConnect s e).1
  | .inr line =>
    let ch := match s with
      | some ch => sjoinChannel myConnect ch line
      | none => sjoinChannel myConnect ⟨[], false, false, false⟩
        { line with removed := [] }
    if ch.members.isEmpty && !ch.permanent then none else some ch

end UnrealIrcd.DelayJoin
