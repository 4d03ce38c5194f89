import UnrealIrcd.Matching.Ipv6Mask
import UnrealIrcd.Support.ChainedHash

/-!
# Connections per IP

The accounting of `maxperip.c`: a bucket for every IPv4 address and for every
masked IPv6 prefix, which is changed when a client is let in and when it is
freed, and rebuilt from the lists of clients when the module is reloaded.

The clients are those of `client_list` and `unknown_list`: a local client is in
both from `add_connection` on, and leaves the latter in `register_user`.
-/

namespace UnrealIrcd.MaxPerIp

open Matching Support

/-! ## Clients and buckets -/

/-- An IP address with its family.  An IPv4 address takes the first four bytes
of `rawip`. -/
structure Address where
  isIPv6 : Bool
  rawip : RawIp

/-- What the module reads of a client.  `ip` is the address that `client->ip` and
`client->rawip` hold, and none where `client->ip` is `NULL`; `bumped` is
`CLIENT_FLAG_IPUSERS_BUMPED`. -/
structure Client where
  ip : Option Address
  /-- `CLIENT_FLAG_IPV6`, which need not be the family of `ip`. -/
  flagIPv6 : Bool
  myConnect : Bool
  bumped : Bool

/-- An address as the modules read it: the family is `IsIPV6(client)`. -/
def flagged (ip : Option Address) (flagIPv6 : Bool) : Option Address :=
  ip.map ({ · with isIPv6 := flagIPv6 })

/-- `CLIENT_FLAG_IPV6` of a remote user: `set_client_ip` sets it by the address,
and then `cmd_uid` lets the user inherit the flags of its server. -/
def inheritedFlag (ip : Option Address) (uplinkIPv6 : Bool) : Bool :=
  ip.any (·.isIPv6) || uplinkIPv6

theorem flagged_inheritedFlag {ip : Option Address} {uplinkIPv6 : Bool} :
    flagged ip (inheritedFlag ip uplinkIPv6) = ip ↔
      ∀ a ∈ ip, uplinkIPv6 = true → a.isIPv6 = true := by
  cases ip with
  | none => exact iff_of_true rfl nofun
  | some a =>
    obtain ⟨isIPv6, rawip⟩ := a
    cases isIPv6 <;> cases uplinkIPv6 <;>
      simp [flagged, inheritedFlag]

def Client.readIp (client : Client) : Option Address :=
  flagged client.ip client.flagIPv6

/-- The client of `add_connection`. -/
def localClient (a : Address) : Client := ⟨some a, a.isIPv6, true, false⟩

/-- The client of `cmd_uid`. -/
def remoteClient (ip : Option Address) (uplinkIPv6 : Bool) : Client :=
  ⟨ip, inheritedFlag ip uplinkIPv6, false, false⟩

/-- `set_client_ip`. -/
def Client.setClientIp (client : Client) (a : Address) : Client :=
  { client with ip := some a, flagIPv6 := a.isIPv6 }

abbrev ClientId := ℕ

structure IpUsersBucket where
  rawip : List UInt8
  localClients : ℤ
  globalClients : ℤ
  deriving DecidableEq, Repr

def ipusersHashTableSize : ℕ := 8192

/-- The state of the server, where `siphash` is the hash with the key that was
generated when the module was loaded, `cloneMask` is
`iConf.default_ipv6_clone_mask`, and the two tables are told apart by
`isIPv6`. -/
structure State where
  clients : ClientId → Client
  clientList : List ClientId
  unknownList : List ClientId
  ipUsersHash : Bool → Chains IpUsersBucket
  cloneMask : ℤ
  siphash : List UInt8 → ℕ

/-- Which bucket an address belongs to: its table and its raw address. -/
abbrev BucketKey := Bool × List UInt8

/-- `make_ipusers_rawip`, with the table. -/
def makeIpusersRawip (cloneMask : ℤ) (a : Address) : BucketKey :=
  if a.isIPv6 then (true, List.ofFn (maskIpv6Rawip a.rawip cloneMask))
  else (false, (List.ofFn a.rawip).take 4)

theorem fst_makeIpusersRawip (cloneMask : ℤ) (a : Address) :
    (makeIpusersRawip cloneMask a).1 = a.isIPv6 := by
  unfold makeIpusersRawip
  cases a.isIPv6 <;> rfl

namespace State

def hashIpusers (S : State) (rawip : List UInt8) : ℕ :=
  S.siphash rawip % ipusersHashTableSize

def findIpusersBucket (S : State) (k : BucketKey) : Option IpUsersBucket :=
  Chains.find IpUsersBucket.rawip S.hashIpusers (S.ipUsersHash k.1) k.2

def addIpusersBucket (S : State) (k : BucketKey)
    (localClients globalClients : ℤ) : State :=
  { S with
    ipUsersHash := Function.update S.ipUsersHash k.1
      (Chains.insert IpUsersBucket.rawip S.hashIpusers (S.ipUsersHash k.1)
        ⟨k.2, localClients, globalClients⟩) }

/-- The counts of a bucket are changed. -/
def modifyIpusersBucket (S : State) (k : BucketKey)
    (f : IpUsersBucket → IpUsersBucket) : State :=
  { S with
    ipUsersHash := Function.update S.ipUsersHash k.1
      (Chains.modify IpUsersBucket.rawip S.hashIpusers (S.ipUsersHash k.1)
        k.2 f) }

def delIpusersBucket (S : State) (k : BucketKey) : State :=
  { S with
    ipUsersHash := Function.update S.ipUsersHash k.1
      (Chains.remove IpUsersBucket.rawip S.hashIpusers (S.ipUsersHash k.1)
        k.2) }

def setClient (S : State) (id : ClientId) (client : Client) : State :=
  { S with clients := Function.update S.clients id client }

end State

/-- One more client, which is one more local client if it is ours. -/
def IpUsersBucket.increase (myConnect : Bool) (b : IpUsersBucket) :
    IpUsersBucket :=
  { b with
    globalClients := b.globalClients + 1
    localClients := if myConnect then b.localClients + 1 else b.localClients }

def IpUsersBucket.decrease (myConnect : Bool) (b : IpUsersBucket) :
    IpUsersBucket :=
  { b with
    globalClients := b.globalClients - 1
    localClients := if myConnect then b.localClients - 1 else b.localClients }

/-! ## Letting in and freeing -/

/-- The limits of an allow block. -/
structure Allow where
  maxperip : ℤ
  globalMaxperip : ℤ
  deriving DecidableEq, Repr

/-- `exceeds_maxperip`: count the client if that was not done, and say whether
there are too many.  `exempt` is `find_tkl_exception(TKL_MAXPERIP, client)`. -/
def exceedsMaxperip (S : State) (id : ClientId) (aconf : Option Allow)
    (exempt : Bool) : State × Bool :=
  let client := S.clients id
  match client.readIp with
  | none => (S, false)
  | some a =>
    let k := makeIpusersRawip S.cloneMask a
    match S.findIpusersBucket k with
    | none =>
      ((S.setClient id { client with bumped := true }).addIpusersBucket k
        (if client.myConnect then 1 else 0) 1, false)
    | some b =>
      let S' := if client.bumped then S else
        (S.modifyIpusersBucket k
          (IpUsersBucket.increase client.myConnect)).setClient id
            { client with bumped := true }
      let b := if client.bumped then b else b.increase client.myConnect
      if exempt then (S', false)
      else
        match aconf with
        | none => (S', false)
        | some aconf =>
          (S', decide (aconf.maxperip < b.localClients) ||
            decide (aconf.globalMaxperip < b.globalClients))

/-- `decrease_ipusers_bucket`, the hook of `free_user`. -/
def decreaseIpusersBucket (S : State) (id : ClientId) : State :=
  let client := S.clients id
  if client.bumped then
    let S := S.setClient id { client with bumped := false }
    match client.readIp with
    | none => S -- a counted client has an address
    | some a =>
      let k := makeIpusersRawip S.cloneMask a
      match S.findIpusersBucket k with
      | none => S
      | some b =>
        let b := b.decrease client.myConnect
        if b.globalClients = 0 ∧ b.localClients = 0 then
          S.delIpusersBucket k
        else S.modifyIpusersBucket k
          (IpUsersBucket.decrease client.myConnect)
  else S

/-- One client of a list in `rebuild_ipusers_buckets`. -/
def restoreBucket (S : State) (id : ClientId) : State :=
  let client := S.clients id
  if client.bumped then
    match client.readIp with
    | none => S
    | some a =>
      let k := makeIpusersRawip S.cloneMask a
      match S.findIpusersBucket k with
      | none =>
        (S.addIpusersBucket k 0 0).modifyIpusersBucket k
          (IpUsersBucket.increase client.myConnect)
      | some _ =>
        S.modifyIpusersBucket k (IpUsersBucket.increase client.myConnect)
  else S

/-- Both lists are walked. -/
def rebuildIpusersBuckets (S : State) : State :=
  let S := S.clientList.foldl restoreBucket S
  S.unknownList.foldl restoreBucket S

/-! ## Runs -/

/-- How `register_user` goes on once the client is allowed in: the client is
held, as by `authprompt`, or killed, or becomes a user. -/
inductive Outcome
  | held
  | killed
  | registered
  deriving DecidableEq, Repr

inductive Event
  /-- `add_connection`, with a place in memory and an address. -/
  | addConnection (id : ClientId) (a : Address)
  /-- `set_client_ip` by `WEBIRC`. -/
  | webirc (id : ClientId) (a : Address)
  /-- `register_user` with the allow block that matches. -/
  | registerUser (id : ClientId) (aconf : Allow) (exempt : Bool)
      (outcome : Outcome)
  /-- A remote user, of which services have no address, and `IsIPV6` of its
  server. -/
  | remoteConnect (id : ClientId) (ip : Option Address) (uplinkIPv6 : Bool)
  /-- The client exits. -/
  | exitClient (id : ClientId)
  /-- The module is loaded again, with another key and perhaps another
  mask. -/
  | reload (cloneMask : ℤ) (siphash : List UInt8 → ℕ)

/-- `remove_client_from_list`.  A counted client has a `client->user`, so that
`free_user` is called for it. -/
def removeClientFromList (S : State) (id : ClientId) : State :=
  decreaseIpusersBucket
    { S with
      clientList := S.clientList.erase id
      unknownList := S.unknownList.erase id } id

/-- The client moves to `lclient_list`. -/
def leaveUnknownList (S : State) (id : ClientId) : State :=
  { S with unknownList := S.unknownList.erase id }

def registerUser (S : State) (id : ClientId) (aconf : Allow) (exempt : Bool)
    (outcome : Outcome) : State :=
  let r := exceedsMaxperip S id (some aconf) exempt
  if r.2 then removeClientFromList r.1 id
  else
    match outcome with
    | .held => r.1
    | .killed => removeClientFromList r.1 id
    | .registered => leaveUnknownList r.1 id

/-- An event changes the state, if it can happen: memory is not given twice,
and only a local client that is not yet a user registers. -/
def step (S : State) : Event → State
  | .addConnection id a =>
    if id ∈ S.clientList then S
    else
      { S.setClient id (localClient a) with
        clientList := id :: S.clientList
        unknownList := id :: S.unknownList }
  | .webirc id a =>
    if id ∈ S.unknownList then
      S.setClient id ((S.clients id).setClientIp a)
    else S
  | .registerUser id aconf exempt outcome =>
    if id ∈ S.unknownList then registerUser S id aconf exempt outcome else S
  | .remoteConnect id ip uplinkIPv6 =>
    if id ∈ S.clientList then S
    else
      (exceedsMaxperip
        { S.setClient id (remoteClient ip uplinkIPv6) with
          clientList := id :: S.clientList } id none false).1
  | .exitClient id =>
    if id ∈ S.clientList then removeClientFromList S id else S
  | .reload cloneMask siphash =>
    rebuildIpusersBuckets
      { S with
        ipUsersHash := fun _ _ => []
        cloneMask := cloneMask
        siphash := siphash }

def start (cloneMask : ℤ) (siphash : List UInt8 → ℕ) : State where
  clients := fun _ => ⟨none, false, false, false⟩
  clientList := []
  unknownList := []
  ipUsersHash := fun _ _ => []
  cloneMask := cloneMask
  siphash := siphash

def run (S : State) (events : List Event) : State :=
  events.foldl step S

end UnrealIrcd.MaxPerIp
