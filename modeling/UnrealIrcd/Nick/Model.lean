import UnrealIrcd.Support.Decimal
import UnrealIrcd.Support.Network

/-!
# Nicks between two servers

The commands `UID`, `NICK`, `KILL` and `QUIT` as a server gets them over a link
(`src/modules/nick.c`, `src/modules/kill.c`, `src/modules/quit.c`), on its table of
clients.  The server has this one link, so what goes to all servers but the
sender's side goes nowhere.

* `nickCollision` kills the losers of a collision.
* `cmdUid` and `cmdNickRemote` decide who loses.
* `handleNick` is the server as part of a network of two.
-/

namespace UnrealIrcd.Nick

open Support

/-! ## Names -/

def nickLen : ℕ := 30

def userLen : ℕ := 10

def hostLen : ℕ := 63

/-- `smycmp` and `mycmp` find no difference. -/
def sameName (s t : List Char) : Bool :=
  s.map Char.toUpper == t.map Char.toUpper

def illegalNickChars : List Char := "!+%@&~#$:'\"?*,.".toList

/-- `do_remote_nick_name`, with a nick that is not empty. -/
def doRemoteNickName (nick : List Char) : Bool :=
  match nick with
  | [] => false
  | c :: _ => c != '-' && !c.isDigit &&
      nick.all fun c => decide (' ' < c) && !illegalNickChars.contains c

/-- A nick that another server may use. -/
def legalNick (nick : List Char) : Bool :=
  doRemoteNickName nick && !sameName "ircd".toList nick &&
    !sameName "irc".toList nick

def validUid (name : List Char) : Bool :=
  decide (6 ≤ name.length) && decide (name.length ≤ 12) &&
    match name with
    | [] => false
    | c :: name => c.isDigit && name.all fun c => c.isDigit || c.isUpper

abbrev Uid := {s : List Char // validUid s = true}

/-- What the buffer for a nick can hold.  No nick starts with a digit. -/
def NickText (s : List Char) : Prop :=
  s.length ≤ nickLen ∧ ∀ c ∈ s.head?, c.isDigit = false

abbrev NickName := {s : List Char // NickText s}

theorem nickText_take {param : List Char}
    (h : legalNick (param.take nickLen) = true) :
    NickText (param.take nickLen) := by
  refine ⟨List.length_take_le _ _, ?_⟩
  simp only [legalNick, Bool.and_eq_true] at h
  cases hnick : param.take nickLen with
  | nil =>
    intro c hc
    cases hc
  | cons d nick =>
    intro c hc
    cases hc
    have hd := h.1.1
    simp only [hnick, doRemoteNickName, Bool.and_eq_true,
      Bool.not_eq_true'] at hd
    exact hd.1.2

/-! ## Clients -/

/-- A client in the tables of a server.  It is remote when it is behind the link,
and unknown while it is still in the handshake. -/
structure Client where
  id : Uid
  name : NickName
  lastnick : ℤ
  username : List Char
  realhost : List Char
  remote : Bool
  unknown : Bool
deriving DecidableEq

def hashFindId (clients : List Client) (name : List Char) : Option Client :=
  clients.find? fun c => sameName name c.id.val

def hashFindClient (clients : List Client) (name : List Char) :
    Option Client :=
  clients.find? fun c => sameName name c.name.val

def findClient (clients : List Client) (name : List Char) : Option Client :=
  (hashFindId clients name).or (hashFindClient clients name)

def findUser (clients : List Client) (name : List Char) : Option Client :=
  (findClient clients name).filter fun c => !c.unknown

/-- `exit_one_client`: the client leaves the tables. -/
def exitClient (clients : List Client) (client : Client) : List Client :=
  clients.filter fun c => c.id != client.id

/-! ## Messages -/

structure UidParams where
  nick : List Char
  stamp : List Char
  username : List Char
  hostname : List Char
  uid : List Char
  umodes : List Char
  virthost : List Char
  ip : List Char
deriving DecidableEq

inductive Message where
  | uid (params : UidParams)
  | nick (source : Uid) (nick : List Char) (stamp : Option (List Char))
  | kill (target : List Char)
  | quit (source : Uid)
deriving DecidableEq

/-- The clients afterwards and what is sent over the link. -/
abbrev Reaction := List Client × List Message

/-- `sendto_server`, which leaves out the side that the client is on. -/
def sendtoServer (remote : Bool) (m : Message) : List Message :=
  if remote then [] else [m]

/-- What a server has set up, and its clock. -/
structure Config where
  now : ℤ
  peerSid : List Char
  validHost : List Char → Bool
  decodeIp : List Char → Bool
  quarantined : Bool

/-! ## Collisions -/

inductive NickCol where
  | equal
  | newWon
  | existingWon
deriving DecidableEq

/-- The user that comes in is killed.  It is in the tables if it changes its
nick. -/
def killNew (clients : List Client) (newid : List Char) (new : Option Client) :
    Reaction :=
  match new with
  | none => (clients, [.kill newid])
  | some new =>
    (exitClient clients new,
      .kill newid :: sendtoServer true (.kill new.id.val))

def killExisting (clients : List Client) (existing : Client) : Reaction :=
  (exitClient clients existing, sendtoServer false (.kill existing.id.val))

/-- `nick_collision`: who is killed. -/
def nickCollision (clients : List Client) (newid : List Char)
    (new : Option Client) (existing : Client) : NickCol → Reaction
  | .existingWon => killNew clients newid new
  | .newWon => killExisting clients existing
  | .equal =>
    let r := killNew clients newid new
    let r' := killExisting r.1 existing
    (r'.1, r.2 ++ r'.2)

/-- Another user name or host than the existing client. -/
def userDiffers (acptr : Client) (username hostname : List Char) : Bool :=
  !sameName acptr.username username || !sameName acptr.realhost hostname

/-- The comparison of the time stamps when they are not equal. -/
def newWins (differ : Bool) (existing new : ℤ) : Bool :=
  (differ && decide (new < existing)) || (!differ && decide (existing < new))

/-! ## UID -/

/-- The checks of `cmd_uid` after which only the sender is told. -/
def refuses (cfg : Config) (p : UidParams) : Bool :=
  p.uid.take 3 != cfg.peerSid.take 3 || !cfg.validHost p.hostname ||
    (p.virthost != ['*'] && !cfg.validHost p.virthost) ||
    (p.ip != ['*'] && !cfg.decodeIp p.ip) ||
    (cfg.quarantined && p.umodes.contains 'o')

def uidClient (p : UidParams) (id : Uid) (nick : NickName) : Client where
  id := id
  name := nick
  lastnick := strtol p.stamp
  username := p.username.take userLen
  realhost := p.hostname.take hostLen
  remote := true
  unknown := false

/-- `cmd_uid` from the search for the nick on. -/
def uidIntroduce (clients : List Client) (p : UidParams) (new : Client)
    (nick : List Char) : Reaction :=
  match findClient clients nick with
  | none => (new :: clients, [])
  | some acptr =>
    if !acptr.remote && acptr.unknown then
      (new :: exitClient clients acptr, [])
    else if acptr.lastnick = strtol p.stamp then
      nickCollision clients p.uid none acptr .equal
    else if newWins (userDiffers acptr p.username p.hostname) acptr.lastnick
        (strtol p.stamp) || acptr.remote then
      -- with one link, a remote client comes from the same direction
      let r := nickCollision clients p.uid none acptr .newWon
      (new :: r.1, r.2)
    else nickCollision clients p.uid none acptr .existingWon

/-- `cmd_uid`: a user is introduced. -/
def cmdUid (cfg : Config) (clients : List Client) (p : UidParams) : Reaction :=
  if hnick : legalNick (p.nick.take nickLen) = true then
    if hid : validUid p.uid = true then
      if refuses cfg p then (clients, [.kill p.uid])
      else
        uidIntroduce clients p
          (uidClient p ⟨p.uid, hid⟩ ⟨p.nick.take nickLen, nickText_take hnick⟩)
          (p.nick.take nickLen)
    else (clients, [.kill p.uid])
  else (clients, [.kill p.nick])

/-! ## NICK -/

def rename (clients : List Client) (client : Client) (nick : NickName)
    (lastnick : ℤ) : List Client :=
  clients.map fun c =>
    if c.id = client.id then { c with name := nick, lastnick := lastnick }
    else c

/-- `cmd_nick_remote` for a nick that is legal. -/
def nickChange (cfg : Config) (clients : List Client) (client : Client)
    (nick : NickName) (stamp : Option (List Char)) : Reaction :=
  let lastnick := stamp.elim 0 strtol
  let time := if lastnick = 0 then cfg.now else lastnick
  let change (clients : List Client) : Reaction :=
    (rename clients client nick time,
      sendtoServer true (.nick client.id nick.val (some (decimal time))))
  match findClient clients nick.val with
  | none => change clients
  | some acptr =>
    if !acptr.remote && acptr.unknown then
      change (exitClient clients acptr)
    else if acptr.id = client.id then
      if acptr.name = nick then (clients, []) else change clients
    else if stamp = none ∨ lastnick = acptr.lastnick then
      nickCollision clients client.id.val (some client) acptr .equal
    else if newWins (userDiffers acptr client.username client.realhost)
        acptr.lastnick lastnick then
      let r := nickCollision clients client.id.val (some client) acptr .newWon
      ((change r.1).1, r.2 ++ (change r.1).2)
    else nickCollision clients client.id.val (some client) acptr .existingWon

/-- `cmd_nick_remote`: a user of another server changes nick. -/
def cmdNickRemote (cfg : Config) (clients : List Client) (client : Client)
    (param : List Char) (stamp : Option (List Char)) : Reaction :=
  if h : legalNick (param.take nickLen) = true then
    nickChange cfg clients client ⟨param.take nickLen, nickText_take h⟩ stamp
  else (exitClient clients client, [.kill client.id.val])

/-! ## KILL and QUIT -/

/-- `cmd_kill` from the other server.  A client of this server leaves as if it had
quit. -/
def cmdKill (clients : List Client) (target : List Char) : Reaction :=
  match findUser clients target with
  | none => (clients, [])
  | some target =>
    (exitClient clients target,
      if target.remote then sendtoServer true (.kill target.id.val)
      else sendtoServer target.remote (.quit target.id))

/-- `cmd_quit` of a client of the other server. -/
def cmdQuit (clients : List Client) (client : Client) : Reaction :=
  (exitClient clients client, sendtoServer client.remote (.quit client.id))

/-- The parser looks the source up.  A source that is not known is killed, and one
that cannot come over this link is ignored. -/
def withSource (clients : List Client) (source : Uid)
    (command : Client → Reaction) : Reaction :=
  match findClient clients source.val with
  | none => (clients, [.kill source.val])
  | some client => if client.remote then command client else (clients, [])

/-- A server gets a message over its link. -/
def handleMessage (cfg : Config) (clients : List Client) : Message → Reaction
  | .uid p => cmdUid cfg clients p
  | .nick source nick stamp =>
    withSource clients source fun client =>
      cmdNickRemote cfg clients client nick stamp
  | .kill target => cmdKill clients target
  | .quit source => withSource clients source (cmdQuit clients)

/-- Two servers with a link between them. -/
def handleNick (cfg : Bool → Config) : Handler Bool (List Client) Message :=
  fun v clients _ m =>
    let r := handleMessage (cfg v) clients m
    (r.1, fun y => if y = !v then r.2 else [])

end UnrealIrcd.Nick
