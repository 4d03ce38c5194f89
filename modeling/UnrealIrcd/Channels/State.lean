import UnrealIrcd.Channels.Bans
import UnrealIrcd.Channels.Params

/-!
# Channels and their members

The state of a channel, what a server knows about users, and the changes of
the status letters of members.  The letters of a member are kept twice, in the
`Member` record of the channel and in the `Membership` record of the user.
-/

namespace UnrealIrcd.Channels

open Support

/-- A user as a server sees it.  `direction` is the link over which it is
reached. -/
structure User where
  id : List Char
  name : List Char
  direction : List Char
  myUser : Bool
  secureConnect : Bool
  uline : Bool
  deriving DecidableEq, Repr

structure Member where
  client : List Char
  memberModes : List Char
  membershipModes : List Char
  deriving DecidableEq, Repr

structure Channel where
  name : List Char
  creationtime : ℤ
  mode : Finset Char
  params : Char → Option ModeParam
  banlist : List Ban
  exlist : List Ban
  invexlist : List Ban
  members : List Member
  modeLock : Option (List Char)

structure Config extends ParamConfig where
  bans : BanConfig

def idlen : ℕ := 12

def validUid (name : List Char) : Bool :=
  decide (6 ≤ name.length) && decide (name.length ≤ idlen) &&
    match name with
    | [] => false
    | c :: name => c.isDigit && name.all fun p => p.isDigit || p.isUpper

/-- A server with the users on the network.  Ids are valid, and nick names are
words.  Both are unique, nick names up to case, and no nick name is an id.
`getHistory` is the hunt for older nick names. -/
structure Server where
  config : Config
  now : ℤ
  users : List User
  getHistory : List Char → Option User
  valid_ids : ∀ u ∈ users, validUid u.id = true
  names_ne_nil : ∀ u ∈ users, u.name ≠ []
  names_word : ∀ u ∈ users, ' ' ∉ u.name
  nodup_ids : (users.map User.id).Nodup
  nodup_names : (users.map fun u => u.name.map Char.toLower).Nodup
  id_ne_name : ∀ u ∈ users, ∀ u' ∈ users, u.id ≠ u'.name
  mem_of_getHistory : ∀ s u, getHistory s = some u → u ∈ users

abbrev Server.params (S : Server) : ParamConfig := S.config.toParamConfig

abbrev Server.table (S : Server) : ModeTable := S.config.table

/-- `find_user`: by id, then by nick name. -/
def Server.findUser (S : Server) (name : List Char) : Option User :=
  (S.users.find? (·.id == name)).or
    (S.users.find? fun u => strcasecmpEq name u.name)

def Server.findChasing (S : Server) (name : List Char) : Option User :=
  (S.findUser name).or (S.getHistory name)

theorem Server.mem_of_findUser {S : Server} {name : List Char} {u : User}
    (h : S.findUser name = some u) : u ∈ S.users := by
  rw [findUser, Option.or_eq_some_iff] at h
  rcases h with h | ⟨-, h⟩
  · exact List.mem_of_find?_eq_some h
  · exact List.mem_of_find?_eq_some h

theorem Server.findUser_id {S : Server} {u : User} (h : u ∈ S.users) :
    S.findUser u.id = some u := by
  have hfind : S.users.find? (·.id == u.id) = some u := by
    cases hfind : S.users.find? (·.id == u.id) with
    | none =>
      have hnone := List.find?_eq_none.mp hfind u h
      simp at hnone
    | some u' =>
      have hid : u'.id = u.id := by simpa using List.find?_some hfind
      rw [List.inj_on_of_nodup_map S.nodup_ids
        (List.mem_of_find?_eq_some hfind) h hid]
  rw [findUser, hfind, Option.some_or]

/-! ## Lists of a channel -/

def Channel.list (ch : Channel) : ListMode → List Ban
  | .ban => ch.banlist
  | .except => ch.exlist
  | .invex => ch.invexlist

def Channel.setList (ch : Channel) (lm : ListMode) (list : List Ban) :
    Channel :=
  match lm with
  | .ban => { ch with banlist := list }
  | .except => { ch with exlist := list }
  | .invex => { ch with invexlist := list }

@[simp] theorem Channel.members_setList (ch : Channel) (lm : ListMode)
    (list : List Ban) : (ch.setList lm list).members = ch.members := by
  cases lm with
  | ban | except | invex => rfl

/-! ## Members -/

/-- `find_membership_link`. -/
def Channel.findMember (ch : Channel) (client : List Char) : Option Member :=
  ch.members.find? (·.client == client)

def Channel.isMember (ch : Channel) (client : List Char) : Bool :=
  ch.members.any (·.client == client)

theorem Channel.isMember_eq_false {ch : Channel} {client : List Char} :
    ch.isMember client = false ↔ ∀ m ∈ ch.members, m.client ≠ client := by
  simp [isMember]

def addMemberModeFast (T : ModeTable) (m : Member) (letter : Char) : Member :=
  { m with
    memberModes := addlettertomstring T m.memberModes letter
    membershipModes := addlettertomstring T m.membershipModes letter }

def delMemberModeFast (m : Member) (letter : Char) : Member :=
  { m with
    memberModes := delletterfromstring m.memberModes letter
    membershipModes := delletterfromstring m.membershipModes letter }

def Channel.modifyMember (ch : Channel) (client : List Char)
    (f : Member → Member) : Channel :=
  { ch with
    members := ch.members.map fun m => if m.client = client then f m else m }

def addUserToChannel (T : ModeTable) (ch : Channel) (client : List Char)
    (modes : List Char) : Channel :=
  { ch with
    members := modes.foldl (addMemberModeFast T) ⟨client, [], []⟩ ::
      ch.members }

def removeUserFromChannel (ch : Channel) (client : List Char) : Channel :=
  { ch with members := ch.members.filter (·.client ≠ client) }

/-! ## A server for examples -/

/-- The default settings, with every channel mode and no extended bans. -/
def sampleConfig : Config where
  table := .full
  flood := ⟨0, 60, true, [("normal".toList, .empty)], by decide, none⟩
  history := ⟨⟨5000, 2678400, by decide, by decide⟩,
    ⟨200, 86400, by decide, by decide⟩⟩
  allowedChannelchars := .ascii
  utf8Validate _ := true
  bans := ⟨[], true, 200⟩

/-- A server with a user of its own and two users behind the link `hub`. -/
def sampleServer : Server where
  config := sampleConfig
  now := 1700000000
  users :=
    [⟨"001AAA".toList, "local".toList, "me".toList, true, true, false⟩,
      ⟨"002AAA".toList, "nick".toList, "hub".toList, false, true, false⟩,
      ⟨"002AAB".toList, "other".toList, "hub".toList, false, true, false⟩]
  getHistory _ := none
  valid_ids := by decide
  names_ne_nil := by decide
  names_word := by decide
  nodup_ids := by decide
  nodup_names := by decide
  id_ne_name := by decide
  mem_of_getHistory := by simp

/-- The server at the other end of the link.  One of its users is not connected
with TLS. -/
def sampleHub : Server :=
  { sampleServer with
    users :=
      [⟨"001AAA".toList, "local".toList, "leaf".toList, false, true, false⟩,
        ⟨"002AAA".toList, "nick".toList, "me".toList, true, true, false⟩,
        ⟨"002AAB".toList, "other".toList, "me".toList, true, false, false⟩]
    valid_ids := by decide
    names_ne_nil := by decide
    names_word := by decide
    nodup_ids := by decide
    nodup_names := by decide
    id_ne_name := by decide
    mem_of_getHistory := by simp [sampleServer] }

/-- A channel with one member, flags, and at most one parameter. -/
def sampleChannel (member : String) (mode : Finset Char)
    (param : Option (Char × ModeParam)) : Channel where
  name := "#test".toList
  creationtime := 1600000000
  mode := mode
  params c := (param.filter (·.1 == c)).map Prod.snd
  banlist := []
  exlist := []
  invexlist := []
  members := [⟨member.toList, [], []⟩]
  modeLock := none

end UnrealIrcd.Channels
