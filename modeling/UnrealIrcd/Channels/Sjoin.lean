import UnrealIrcd.Channels.SetMode

/-!
# The SJOIN command

A server describes a channel to its peer with SJOIN lines: the timestamp, the
modes, and a list of members and list entries.  This file models `cmd_sjoin`,
which merges such a line into the channel here and tells the local clients, and
`send_channel_modes_sjoin3`, which builds the lines.

What `cmd_sjoin` passes on to other servers is not modelled.
-/

namespace UnrealIrcd.Channels

open Support

/-! ## Lines to local clients -/

inductive LocalMessage where
  | join (client : List Char)
  | mode (line : ModeLine)
  | kick (client : List Char)
  deriving DecidableEq, Repr

/-- The buffers `modebuf` and `parabuf`, with what was sent so far. -/
structure ModeBuffer where
  sent : List LocalMessage
  modebuf : List Char
  parabuf : List Char
  deriving DecidableEq, Repr

/-- Empty buffers behind what was sent. -/
def ModeBuffer.start (sent : List LocalMessage) (sign : Char) : ModeBuffer :=
  ⟨sent, [sign], []⟩

/-- `send_local_chan_mode`. -/
def ModeBuffer.send (b : ModeBuffer) : List LocalMessage :=
  b.sent ++ [.mode ⟨b.modebuf, b.parabuf⟩]

/-- `Addit`: a letter with a parameter.  Only the first character of `modebuf`
survives when the line is full. -/
def ModeBuffer.addit (b : ModeBuffer) (mode : Char) (param : List Char) :
    ModeBuffer :=
  if b.parabuf.length + param.length + 11 < modebuflen ∧
      b.modebuf.length ≤ maxmodeparams then
    { b with
      modebuf := b.modebuf ++ [mode]
      parabuf :=
        if b.parabuf = [] then param else b.parabuf ++ ' ' :: param }
  else ⟨b.send, b.modebuf.take 1 ++ [mode], param⟩

/-- `Addsingle`: a letter without a parameter. -/
def ModeBuffer.addsingle (b : ModeBuffer) (mode : Char) : ModeBuffer :=
  { b with modebuf := b.modebuf ++ [mode] }

/-- The rest of the buffers is sent, if there is a letter in it. -/
def ModeBuffer.finish (b : ModeBuffer) : List LocalMessage :=
  if emptyMode b.modebuf then b.sent else b.send

/-- `Addit` for each letter of a member. -/
def ModeBuffer.additAll (b : ModeBuffer) (modes param : List Char) :
    ModeBuffer :=
  modes.foldl (fun b mode => b.addit mode param) b

/-- `Addit` for each entry of a list. -/
def ModeBuffer.additBans (b : ModeBuffer) (mode : Char) (list : List Ban) :
    ModeBuffer :=
  list.foldl (fun b ban => b.addit mode ban.banstr) b

/-! ## The modes of a channel as text -/

/-- The parameters behind each other in a buffer, each with a space. -/
def catParams (params : List (List Char)) : List Char :=
  params.foldl
    (fun buf param => strlcat (strlcat buf param bufsize) [' '] bufsize) []

/-- The modes that `channel_modes` shows to a server. -/
def shownModes (C : ParamConfig) (ch : Channel) : List Cmode :=
  C.table.channelmodes.filter fun cm => !cm.isLocal && cm.letter ∈ ch.mode

/-- `channel_modes` for a server, without local modes. -/
def channelModes (C : ParamConfig) (ch : Channel) : ModeLine :=
  let shown := shownModes C ch
  ⟨'+' :: shown.map Cmode.letter,
    (catParams ((shown.filter (·.paracount ≠ 0)).map fun cm =>
      (ch.getParam C cm.letter).getD [])).dropLast⟩

/-! ## The line -/

/-- An SJOIN line.  `modes` is the mode string with its parameters. -/
structure SjoinMessage where
  ts : ℤ
  modes : Option (List Char × List (List Char))
  items : List Char
  deriving DecidableEq, Repr

/-- The server that sends the line. -/
structure Peer where
  name : List Char
  direction : List Char
  /-- The link supports the setters of list entries. -/
  sjsby : Bool
  unknownParacount : What → Char → ℕ

/-- The peer as the one who changes a mode.  Servers are not asked for
access. -/
def Peer.requester (peer : Peer) : Requester where
  setby := peer.name
  myUser := false
  isMe := false
  policy := ⟨fun _ _ => true, fun _ _ _ _ => true, fun _ _ _ => true,
    fun _ _ _ _ => true⟩
  restricted _ := false
  unknownParacount := peer.unknownParacount

def samplePeer (name : String) : Peer :=
  ⟨name.toList, name.toList, true, fun _ _ => 0⟩

/-- `mp2parv` cuts the parameters. -/
def mp2parv (parabuf : List Char) : List (List Char) :=
  strtokens (· == ' ') parabuf

/-- `set_mode` with the modes of the line. -/
def setSjoinModes (S : Server) (peer : Peer) (ch : Channel)
    (modes : List Char × List (List Char)) : Channel × List ModeChange :=
  setMode S peer.requester ch (modes.1.take (bufsize - 1))
    (mp2parv (catParams modes.2))

/-- `send_local_chan_mode_mlm` for what `set_mode` did. -/
def modeMessages (T : ModeTable) (old : Channel)
    (r : Channel × List ModeChange) : List LocalMessage :=
  (makeModeStr T old.mode r.1.mode r.2).map .mode

/-- Which side keeps its modes. -/
inductive SjoinSide where
  | created
  | removeOurs
  | removeTheirs
  | merge
  deriving DecidableEq, Repr

/-! ## Removing our modes -/

/-- The modes of the channel are unset with one mode line. -/
def removeOurModes (S : Server) (peer : Peer) (ch : Channel) :
    Channel × List LocalMessage :=
  let line := channelModes S.config.toParamConfig ch
  let modebuf := '-' :: line.modeline.drop 1
  if emptyMode modebuf then (ch, [])
  else
    let r := setMode S peer.requester ch modebuf (mp2parv line.paramline)
    (r.1, modeMessages S.config.table ch r)

def Server.nameOf (S : Server) (client : List Char) : List Char :=
  ((S.users.find? (·.id == client)).map User.name).getD client

/-- All that is taken away from a channel with a higher timestamp: modes, list
entries, the status of members and the mode lock. -/
def removeOurs (S : Server) (peer : Peer) (ch : Channel) :
    Channel × List LocalMessage :=
  let r := removeOurModes S peer ch
  let b := ModeBuffer.start r.2 '-'
  let b := b.additBans 'b' r.1.banlist
  let b := b.additBans 'e' r.1.exlist
  let b := b.additBans 'I' r.1.invexlist
  let b := r.1.members.foldl
    (fun b m => b.additAll m.memberModes (S.nameOf m.client)) b
  ({ r.1 with
      banlist := []
      exlist := []
      invexlist := []
      members := r.1.members.map fun m =>
        { m with memberModes := [], membershipModes := [] }
      modeLock := none },
    b.finish)

/-! ## Items -/

/-- An item: who set it and when, the modes of its signs, and the nick name or
mask. -/
structure SjoinItem where
  setby : Option (List Char × ℤ)
  modes : List Char
  item : List Char
  deriving DecidableEq, Repr

/-- The part `<when,who>` of an item, and the rest. -/
def parseSjsby (sjsby : Bool) (s : List Char) :
    Option (Option (List Char × ℤ) × List Char) :=
  if sjsby && s.head? == some '<' then
    match s.dropWhile (· != '>') with
    | [] => none
    | _ :: rest =>
      let text := s.takeWhile (· != '>')
      match text.dropWhile (· != ',') with
      | [] => none
      | _ :: who =>
        some (some (who.take wholen,
          strtol ((text.takeWhile (· != ',')).drop 1)), rest)
  else some (none, s)

/-- The loop over the signs in front of an item: the modes, and the rest. -/
def parseSigns (T : ModeTable) : List Char → List Char →
    List Char × List Char
  | modes, [] => (modes, [])
  | modes, c :: s =>
    match sjoinPrefixToMode T c with
    | none => (modes, c :: s)
    | some m =>
      let modes := strlcatLetter modes m membermodeslen
      if m ∈ ['b', 'e', 'I'] then (modes, s) else parseSigns T modes s

/-- An item, or `none` if `cmd_sjoin` skips it. -/
def parseItem (T : ModeTable) (sjsby : Bool) (s : List Char) :
    Option SjoinItem :=
  match parseSjsby sjsby s with
  | none => none
  | some (setby, rest) =>
    let r := parseSigns T [] rest
    let item := r.2.take 1023
    if item = [] then none else some ⟨setby, r.1, item⟩

def parseItems (T : ModeTable) (sjsby : Bool) (s : List Char) :
    List SjoinItem :=
  (strtokens (· == ' ') s).filterMap (parseItem T sjsby)

/-- The item is a ban, an exception or an invite exception. -/
def SjoinItem.isList (i : SjoinItem) : Bool :=
  i.modes.contains 'b' || i.modes.contains 'e' || i.modes.contains 'I'

/-- A mask that is not an extended ban has a user and a host. -/
def validListItem (item : List Char) : Bool :=
  item.head? == some '~' ||
    (item.contains '!' && item.contains '@' && item.head? != some '!')

/-- The variables of the loop over the items. -/
structure SjoinState where
  channel : Channel
  buffer : ModeBuffer

section

variable (S : Server) (peer : Peer)

/-- An item that is a user. -/
def sjoinUser (side : SjoinSide) (i : SjoinItem) (s : SjoinState) :
    SjoinState :=
  match S.findUser i.item with
  | none => s
  | some acptr =>
    if acptr.direction ≠ peer.direction then s
    else
      let modes := if side = .removeTheirs then [] else i.modes
      let s : SjoinState :=
        if s.channel.isMember acptr.id then s
        else
          ⟨addUserToChannel S.config.table s.channel acptr.id modes,
            { s.buffer with sent := s.buffer.sent ++ [.join acptr.id] }⟩
      { s with buffer := s.buffer.additAll modes acptr.name }

/-- An item that is an entry of a list. -/
def sjoinList (side : SjoinSide) (i : SjoinItem) (s : SjoinState) :
    SjoinState :=
  if side = .removeTheirs ∨ validListItem i.item = false then s
  else
    match i.modes.head?.bind ListMode.ofLetter with
    | none => s
    | some lm =>
      match cleanBanMask S.config.bans ⟨.add, lm, false⟩ i.item with
      | none => s
      | some str =>
        let item := str.take 1023
        let setby := i.setby.getD (peer.name, S.now)
        let r := addListmodeEx S.config.bans false (s.channel.list lm)
          item setby.1 setby.2
        ⟨s.channel.setList lm r.2,
          if r.1 = .added then s.buffer.addit lm.letter item
          else s.buffer⟩

def sjoinItem (side : SjoinSide) (s : SjoinState) (i : SjoinItem) :
    SjoinState :=
  if i.isList then sjoinList S peer side i s else sjoinUser S peer side i s

/-- The user of an item, if this user is reached over the link. -/
def SjoinItem.user (i : SjoinItem) : Option User :=
  if i.isList then none
  else (S.findUser i.item).filter fun u => u.direction = peer.direction

/-- The status that a user is given. -/
def SjoinItem.letters (side : SjoinSide) (i : SjoinItem) : List Char :=
  if side = .removeTheirs then [] else i.modes

variable {S peer} in
theorem SjoinItem.user_eq_some {i : SjoinItem} {u : User} :
    i.user S peer = some u ↔ i.isList = false ∧ S.findUser i.item = some u ∧
      u.direction = peer.direction := by
  unfold user
  simp

variable {S peer} in
/-- What an item can do: nothing, an entry of a list, letters that are announced
for a member, and a user who joins with them. -/
@[elab_as_elim]
theorem sjoinItem_rule {motive : SjoinState → Prop} {side : SjoinSide}
    {s : SjoinState} {i : SjoinItem} (hnone : i.user S peer = none → motive s)
    (hentry : ∀ lm str list buffer, i.user S peer = none →
      cleanBanMask S.config.bans ⟨.add, lm, false⟩ i.item = some str →
      (buffer = s.buffer ∨
        buffer = s.buffer.addit lm.letter (str.take 1023)) →
      motive ⟨s.channel.setList lm list, buffer⟩)
    (hmember : ∀ u, i.user S peer = some u →
      s.channel.isMember u.id = true →
      motive ⟨s.channel, s.buffer.additAll (i.letters side) u.name⟩)
    (hjoin : ∀ u, i.user S peer = some u →
      s.channel.isMember u.id = false →
      motive ⟨addUserToChannel S.table s.channel u.id (i.letters side),
        ModeBuffer.additAll
          { s.buffer with sent := s.buffer.sent ++ [.join u.id] }
          (i.letters side) u.name⟩) :
    motive (sjoinItem S peer side s i) := by
  unfold sjoinItem
  split
  case isTrue hlist =>
    have huser : i.user S peer = none := by rw [SjoinItem.user, if_pos hlist]
    unfold sjoinList
    split
    · exact hnone huser
    split
    · exact hnone huser
    split
    · exact hnone huser
    · next lm _ _ str hclean =>
        refine hentry lm str _ _ huser hclean ?_
        split
        · exact .inr rfl
        · exact .inl rfl
  case isFalse hlist =>
    rw [Bool.not_eq_true] at hlist
    have huser : i.user S peer = (S.findUser i.item).filter
        fun u => u.direction = peer.direction := by
      rw [SjoinItem.user, hlist, if_neg Bool.false_ne_true]
    unfold sjoinUser
    split
    · next hfind => exact hnone (by rw [huser, hfind, Option.filter_none])
    · next u hfind =>
        split
        · next hdir => exact hnone (by simp [huser, hfind, hdir])
        · next hdir =>
            have hu : i.user S peer = some u :=
              SjoinItem.user_eq_some.mpr ⟨hlist, hfind, not_not.mp hdir⟩
            dsimp only
            split
            · next hold => exact hmember u hu hold
            · next hnew => exact hjoin u hu (Bool.eq_false_iff.mpr hnew)

/-! ## Merging the modes -/

/-- `+s` is kept if the other side has `+p`. -/
def keepSecret (old new : Finset Char) : Finset Char :=
  if 's' ∈ old ∧ 'p' ∈ new then insert 's' (new.erase 'p') else new

/-- A mode that only the old channel has. -/
def sayRemoved (C : ParamConfig) (old new : Channel) (b : ModeBuffer)
    (cm : Cmode) : ModeBuffer :=
  if cm.isLocal = false ∧ cm.letter ∈ old.mode ∧ cm.letter ∉ new.mode then
    if cm.paracount ≠ 0 then
      b.addit cm.letter ((old.getParam C cm.letter).getD [])
    else b.addsingle cm.letter
  else b

/-- The sign before the modes that are added. -/
def startAdded (b : ModeBuffer) : ModeBuffer :=
  if 1 < b.modebuf.length then b.addsingle '+'
  else { b with modebuf := ['+'] }

/-- A mode that only the new channel has. -/
def sayAdded (C : ParamConfig) (old new : Channel) (b : ModeBuffer)
    (cm : Cmode) : ModeBuffer :=
  if cm.letter ∉ old.mode ∧ cm.letter ∈ new.mode then
    if cm.paracount ≠ 0 then
      match new.getParam C cm.letter with
      | none => b
      | some param => b.addit cm.letter param
    else b.addsingle cm.letter
  else b

/-- A mode with a parameter that both sides had.  `sjoin_check` compares our
old parameter with the one that `set_mode` has just stored. -/
def mergeParam (C : ParamConfig) (old : Channel) (s : SjoinState)
    (cm : Cmode) : SjoinState :=
  if cm.paracount ≠ 0 ∧ cm.letter ∈ old.mode ∧
      cm.letter ∈ s.channel.mode then
    match paramHandler C cm.letter, old.params cm.letter,
      s.channel.params cm.letter with
    | some h, some our, some their =>
      let r := h.sjoinCheck our their
      let parax := (h.getParam r.2).getD []
      match r.1 with
      | .same => s
      | .weWon => { s with channel := s.channel.putParam C cm.letter parax }
      | .theyWon =>
        { s with
          buffer := s.buffer.addit cm.letter
            ((s.channel.getParam C cm.letter).getD []) }
      | .merge =>
        ⟨s.channel.putParam C cm.letter parax,
          s.buffer.addit cm.letter parax⟩
    | _, _, _ => s
  else s

/-- The modes of the line are merged with ours. -/
def mergeModes (ch : Channel) (modes : List Char × List (List Char)) :
    Channel × List LocalMessage :=
  let C := S.config.toParamConfig
  let new := (setSjoinModes S peer ch modes).1
  let new := { new with mode := keepSecret ch.mode new.mode }
  let b := ModeBuffer.start [] '-'
  let b := C.table.channelmodes.foldl (sayRemoved C ch new) b
  let b := startAdded b
  let b := C.table.channelmodes.foldl (sayAdded C ch new) b
  let s := C.table.channelmodes.foldl (mergeParam C ch) ⟨new, b⟩
  (s.channel, s.buffer.finish)

/-! ## The command -/

/-- The hook `HOOKTYPE_CHANNEL_CREATE`: a default flood profile. -/
def cmodefChannelCreate (C : FloodConfig) : Char → Option ModeParam :=
  match C.defaultProfile with
  | none => fun _ => none
  | some default =>
    let base := floodProfileBase C default
    Function.update (fun _ => none) 'F' (some (.profile
      ⟨some base.1, base.2⟩))

def makeChannel (name : List Char) : Channel where
  name := name
  creationtime := S.now
  mode := ∅
  params := cmodefChannelCreate S.config.flood
  banlist := []
  exlist := []
  invexlist := []
  members := []
  modeLock := none

def isInvalidChannelTS (ts : ℤ) : Bool := decide (ts ≤ 1000000)

/-- The timestamp of the line, or ours if it is not valid. -/
def SjoinMessage.timestamp (msg : SjoinMessage) (ch : Channel) : ℤ :=
  if isInvalidChannelTS msg.ts then ch.creationtime else msg.ts

/-- Which side keeps its modes.  The lower timestamp wins. -/
def sjoinSide (created : Bool) (ch : Channel) (ts : ℤ) : SjoinSide :=
  if created then .created
  else if ts < ch.creationtime then .removeOurs
  else if ch.creationtime < ts then .removeTheirs
  else .merge

/-- The local users that `secureonly_kick_insecure_users` removes. -/
def insecureMembers (ch : Channel) : List (List Char) :=
  if 'z' ∈ ch.mode then
    (ch.members.map Member.client).filter fun client =>
      S.users.any fun u =>
        u.id == client && u.myUser && !u.secureConnect && !u.uline
  else []

/-- The hook `HOOKTYPE_CHANNEL_SYNCED` of `+z`. -/
def secureonlyChannelSync (side : SjoinSide) (nomode : Bool) (ch : Channel) :
    Channel × List LocalMessage :=
  if (side = .created ∨ side = .removeOurs) ∧ nomode = false then
    let kicked := insecureMembers S ch
    (kicked.foldl removeUserFromChannel ch, kicked.map .kick)
  else (ch, [])

/-- A channel without users is destroyed, unless it is permanent. -/
def destroyIfEmpty (ch : Channel) : Option Channel :=
  if ch.members = [] ∧ 'P' ∉ ch.mode then none else some ch

/-- The modes of the line, as the side decides. -/
def sjoinModes (side : SjoinSide) (ch : Channel)
    (modes : Option (List Char × List (List Char))) :
    Channel × List LocalMessage :=
  match side, modes with
  | .removeTheirs, _ => (ch, [])
  | _, none => (ch, [])
  | .merge, some modes => mergeModes S peer ch modes
  | _, some modes =>
    let r := setSjoinModes S peer ch modes
    (r.1, modeMessages S.config.table ch r)

/-- The channel when the items are processed, and what was said before. -/
def sjoinStart (side : SjoinSide) (ts : ℤ) (ch : Channel) :
    Channel × List LocalMessage :=
  match side with
  | .created => ({ ch with creationtime := ts }, [])
  | .removeOurs => removeOurs S peer { ch with creationtime := ts }
  | .removeTheirs | .merge => (ch, [])

/-- The steps of `cmd_sjoin` for a channel that exists, up to the last check of
its members. -/
def sjoinChannel (side : SjoinSide) (ts : ℤ) (ch : Channel)
    (msg : SjoinMessage) : Channel × List LocalMessage :=
  let r := sjoinStart S peer side ts ch
  let items := parseItems S.config.table peer.sjsby msg.items
  let s := items.foldl (sjoinItem S peer side) ⟨r.1, .start r.2 '+'⟩
  let r' := sjoinModes S peer side s.channel msg.modes
  let r'' := secureonlyChannelSync S side msg.modes.isNone r'.1
  (r''.1, s.buffer.finish ++ r'.2 ++ r''.2)

/-- `cmd_sjoin`: the channel afterwards, if it still exists, and what the local
clients are told. -/
def cmdSjoin (name : List Char) (channel : Option Channel)
    (msg : SjoinMessage) : Option Channel × List LocalMessage :=
  let ch := channel.getD (makeChannel S name)
  let ts := msg.timestamp ch
  let r := sjoinChannel S peer (sjoinSide channel.isNone ch ts) ts ch msg
  (destroyIfEmpty r.1, r.2)

end

/-! ## Building the lines -/

def addSjsby (ban : Ban) : List Char :=
  '<' :: (decimal ban.when ++ ',' :: (ban.who ++ ['>']))

def memberItem (T : ModeTable) (m : Member) : List Char :=
  modesToSjoinPrefix T m.memberModes ++ m.client

def banItem (sjsby : Bool) (sign : Char) (ban : Ban) : List Char :=
  (if sjsby then addSjsby ban else []) ++ sign :: ban.banstr

/-- The items of a channel, in the order in which they are sent. -/
def burstItems (T : ModeTable) (sjsby : Bool) (ch : Channel) :
    List (List Char) :=
  ch.members.map (memberItem T) ++ ch.banlist.map (banItem sjsby '&') ++
    ch.exlist.map (banItem sjsby '"') ++
      ch.invexlist.map (banItem sjsby '\x27')

/-- The first line without its items. -/
def burstStart (C : ParamConfig) (ch : Channel) : SjoinMessage :=
  let line := channelModes C ch
  { ts := ch.creationtime
    modes :=
      if line.modeline.drop 1 = [] then none
      else some (line.modeline, mp2parv line.paramline)
    items := [] }

/-- The line up to its items. -/
def sjoinHead (id name : List Char) (msg : SjoinMessage) : List Char :=
  ':' :: (id ++ " SJOIN ".toList ++ decimal msg.ts ++ ' ' :: name ++
    (match msg.modes with
      | none => []
      | some (modes, params) =>
        ' ' :: modes ++ params.flatMap (' ' :: ·)) ++ " :".toList)

/-- The loop over the items.  `len` is the length of the text before the items
in the line in progress, and `len'` in the lines that follow. -/
def packItems (len' : ℕ) : Bool → ℕ → SjoinMessage → List (List Char) →
    List SjoinMessage
  | sent, _, line, [] => if line.items ≠ [] ∨ sent = false then [line] else []
  | sent, len, line, item :: items =>
    let tbuf := item ++ [' ']
    if tbuf.length + (len + line.items.length) > bufsize - 8 then
      line :: packItems len' true len' ⟨line.ts, none, tbuf⟩ items
    else
      packItems len' sent len { line with items := line.items ++ tbuf } items

/-- `send_channel_modes_sjoin3`.  Only channels of the whole network are
described. -/
def sendChannelModesSjoin3 (C : ParamConfig) (id : List Char) (sjsby : Bool)
    (ch : Channel) : List SjoinMessage :=
  if ch.name.head? ≠ some '#' then []
  else
    let first := burstStart C ch
    packItems (sjoinHead id ch.name { first with modes := none }).length
      false (sjoinHead id ch.name first).length first
      (burstItems C.table sjsby ch)

end UnrealIrcd.Channels
