import UnrealIrcd.MaxPerIp.Model

/-!
# Unknown users of an IPv6 prefix

The buckets of `connthrottle.c`: for each of three prefix lengths a table that
counts the known, the excepted and the unknown users of a prefix.  The category of
a client is stored with the client, where it outlives the tables: when the module
is loaded again, the tables are built from the clients.

The clients are those of `client_list` and `unknown_list`, as in `maxperip.c`.
-/

namespace UnrealIrcd.ConnThrottle

open Matching Support
open MaxPerIp (Address ClientId flagged inheritedFlag)

/-! ## Clients and buckets -/

/-- `ConnThrottleCategory`. -/
inductive Category where
  | none
  | knownUsers
  | exceptedUnknowns
  | unknownUsers
deriving DecidableEq, Repr

/-- What the module reads of a client.  `ip` is the address that `client->ip` and
`client->rawip` hold, and none where `client->ip` is `NULL`. -/
structure Client where
  ip : Option Address
  /-- `CLIENT_FLAG_IPV6`, which need not be the family of `ip`. -/
  flagIPv6 : Bool
  isUser : Bool
  isULine : Bool
  knownUserCached : Bool
  category : Category

/-- The client of `add_connection`. -/
def localClient (a : Address) : Client :=
  ⟨some a, a.isIPv6, false, false, false, .none⟩

/-- The client of `cmd_uid`. -/
def remoteClient (ip : Option Address) (uplinkIPv6 isULine known : Bool) :
    Client :=
  ⟨ip, inheritedFlag ip uplinkIPv6, true, isULine, known, .none⟩

/-- `set_client_ip`. -/
def Client.setClientIp (client : Client) (a : Address) : Client :=
  { client with ip := some a, flagIPv6 := a.isIPv6 }

/-- The bytes of an IPv6 address. -/
def ipv6Of (ip : Option Address) : Option RawIp :=
  match ip with
  | some a => if a.isIPv6 then some a.rawip else none
  | none => none

/-- `client->rawip` of a client with `IsIPV6(client)` and `client->ip`. -/
def Client.ipv6 (client : Client) : Option RawIp :=
  ipv6Of (flagged client.ip client.flagIPv6)

theorem ipv6Of_inheritedFlag {ip : Option Address} {uplinkIPv6 : Bool} :
    ipv6Of (flagged ip (inheritedFlag ip uplinkIPv6)) = ipv6Of ip ↔
      ∀ a ∈ ip, uplinkIPv6 = true → a.isIPv6 = true := by
  cases ip with
  | none => exact iff_of_true rfl nofun
  | some a =>
    obtain ⟨isIPv6, rawip⟩ := a
    cases isIPv6 <;> cases uplinkIPv6 <;>
      simp [ipv6Of, flagged, inheritedFlag]

/-- An inherited flag can only add an IPv6 address. -/
theorem ipv6Of_none_or_eq {ip : Option Address} {uplinkIPv6 : Bool} :
    ipv6Of ip = none ∨
      ipv6Of ip = ipv6Of (flagged ip (inheritedFlag ip uplinkIPv6)) := by
  cases ip with
  | none => exact .inl rfl
  | some a =>
    obtain ⟨isIPv6, rawip⟩ := a
    cases isIPv6 with
    | false => exact .inl rfl
    | true => exact .inr rfl

/-- `ConnThrottleBucket`. -/
structure Bucket where
  rawip : List UInt8
  knownUsers : ℤ
  exceptedUnknowns : ℤ
  unknownUsers : ℤ
deriving DecidableEq, Repr

/-- One of the `CT_NUM_TIERS` tiers. -/
abbrev Tier := Fin 3

def ctTierPrefix : Tier → ℤ
  | 0 => 56
  | 1 => 48
  | 2 => 32

def tiers : List Tier := [0, 1, 2]

def ctBucketHashSize : ℕ := 2048

/-- The state of the server, where `siphash` is the hash with the key that was
generated when the module was loaded. -/
structure State where
  clients : ClientId → Client
  clientList : List ClientId
  unknownList : List ClientId
  ctBucketHash : Tier → Chains Bucket
  siphash : List UInt8 → ℕ

/-- Which bucket: the tier and the masked address. -/
abbrev BucketKey := Tier × List UInt8

/-- `ct_make_rawip`, with the tier. -/
def ctMakeRawip (rawip : RawIp) (tier : Tier) : BucketKey :=
  (tier, List.ofFn (maskIpv6Rawip rawip (ctTierPrefix tier)))

namespace State

def ctHashBucket (S : State) (masked : List UInt8) : ℕ :=
  S.siphash masked % ctBucketHashSize

def ctFindBucket (S : State) (k : BucketKey) : Option Bucket :=
  Chains.find Bucket.rawip S.ctHashBucket (S.ctBucketHash k.1) k.2

def ctAddBucket (S : State) (k : BucketKey) : State :=
  { S with
    ctBucketHash := Function.update S.ctBucketHash k.1
      (Chains.insert Bucket.rawip S.ctHashBucket (S.ctBucketHash k.1)
        ⟨k.2, 0, 0, 0⟩) }

def modifyBucket (S : State) (k : BucketKey) (f : Bucket → Bucket) : State :=
  { S with
    ctBucketHash := Function.update S.ctBucketHash k.1
      (Chains.modify Bucket.rawip S.ctHashBucket (S.ctBucketHash k.1) k.2 f) }

def delBucket (S : State) (k : BucketKey) : State :=
  { S with
    ctBucketHash := Function.update S.ctBucketHash k.1
      (Chains.remove Bucket.rawip S.ctHashBucket (S.ctBucketHash k.1) k.2) }

def setClient (S : State) (id : ClientId) (client : Client) : State :=
  { S with clients := Function.update S.clients id client }

/-- `CT_CATEGORY(client) = category`. -/
def setCategory (S : State) (id : ClientId) (category : Category) : State :=
  S.setClient id { S.clients id with category := category }

end State

def Bucket.change (category : Category) (n : ℤ) (b : Bucket) : Bucket :=
  match category with
  | .none => b
  | .knownUsers => { b with knownUsers := b.knownUsers + n }
  | .exceptedUnknowns => { b with exceptedUnknowns := b.exceptedUnknowns + n }
  | .unknownUsers => { b with unknownUsers := b.unknownUsers + n }

def ctBucketIncrement (category : Category) (b : Bucket) : Bucket :=
  b.change category 1

def ctBucketDecrement (category : Category) (b : Bucket) : Bucket :=
  b.change category (-1)

def Bucket.isEmpty (b : Bucket) : Bool :=
  b.knownUsers == 0 && b.exceptedUnknowns == 0 && b.unknownUsers == 0

/-! ## Classification -/

/-- `ct_classify`.  `excepted` is whether the security group of the exceptions or a
`TKL_MAXPERIP` exception matches the client. -/
def ctClassify (client : Client) (excepted : Bool) : Category :=
  if client.knownUserCached then .knownUsers
  else if excepted then .exceptedUnknowns
  else .unknownUsers

/-- One tier of `ct_bucket_bump_client`. -/
def bumpTier (category : Category) (rawip : RawIp) (S : State)
    (tier : Tier) : State :=
  let k := ctMakeRawip rawip tier
  match S.ctFindBucket k with
  | some _ => S.modifyBucket k (ctBucketIncrement category)
  | none => (S.ctAddBucket k).modifyBucket k (ctBucketIncrement category)

def ctBucketBumpClient (S : State) (client : Client) (category : Category) :
    State :=
  match client.ipv6 with
  | none => S
  | some rawip => tiers.foldl (bumpTier category rawip) S

/-- One tier of `ct_bucket_unbump_client`. -/
def unbumpTier (category : Category) (rawip : RawIp) (S : State)
    (tier : Tier) : State :=
  let k := ctMakeRawip rawip tier
  match S.ctFindBucket k with
  | none => S
  | some b =>
    if (ctBucketDecrement category b).isEmpty then S.delBucket k
    else S.modifyBucket k (ctBucketDecrement category)

def ctBucketUnbumpClient (S : State) (client : Client) (category : Category) :
    State :=
  match client.ipv6 with
  | none => S
  | some rawip => tiers.foldl (unbumpTier category rawip) S

/-! ## Hooks -/

/-- What `ct_allow_client` reads besides the client. -/
structure Limits where
  ipv6UnknownUsersLimit : Tier → ℤ
  /-- `allow::global-maxperip` of the allow block. -/
  globalMaxperip : Option ℤ
  disabled : Bool
  stillReputationGathering : Bool

def exceededTier (S : State) (rawip : RawIp) (limits : Limits) :
    Option Tier :=
  tiers.find? fun tier =>
    let globalLimit := limits.ipv6UnknownUsersLimit tier
    if globalLimit = 0 then false
    else
      let effectiveLimit := limits.globalMaxperip.elim globalLimit
        (max globalLimit)
      match S.ctFindBucket (ctMakeRawip rawip tier) with
      | some b => effectiveLimit < b.unknownUsers
      | none => false

/-- The client is classified and counted. -/
def classify (S : State) (id : ClientId) (excepted : Bool) : State :=
  let category := ctClassify (S.clients id) excepted
  ctBucketBumpClient (S.setCategory id category) (S.clients id) category

/-- `ct_allow_client`, which returns the prefix for the message if the client is to
be rejected. -/
def ctAllowClient (S : State) (id : ClientId) (limits : Limits)
    (excepted : Bool) : State × Option BucketKey :=
  match (S.clients id).ipv6 with
  | none => (S, none)
  | some rawip =>
    if (S.clients id).category ≠ .none then (S, none)
    else
      let S' := classify S id excepted
      if ctClassify (S.clients id) excepted ≠ .unknownUsers ∨
          limits.disabled ∨ limits.stillReputationGathering then (S', none)
      else (S', (exceededTier S' rawip limits).map (ctMakeRawip rawip))

def ctRemoteConnectBuckets (S : State) (id : ClientId) (excepted : Bool) :
    State :=
  if (S.clients id).isULine then S
  else if (S.clients id).ipv6 = none then S
  else if (S.clients id).category ≠ .none then S
  else classify S id excepted

def ctQuit (S : State) (id : ClientId) : State :=
  let category := (S.clients id).category
  if category = .none then S
  else (ctBucketUnbumpClient S (S.clients id) category).setCategory id .none

/-- One tier of `ct_known_user_cache_change`. -/
def changeTier (old new : Category) (rawip : RawIp) (S : State)
    (tier : Tier) : State :=
  let k := ctMakeRawip rawip tier
  match S.ctFindBucket k with
  | none => S
  | some _ =>
    S.modifyBucket k fun b =>
      ctBucketIncrement new (ctBucketDecrement old b)

def ctKnownUserCacheChange (S : State) (id : ClientId) (excepted : Bool) :
    State :=
  match (S.clients id).ipv6 with
  | none => S
  | some rawip =>
    let old := (S.clients id).category
    let new := ctClassify (S.clients id) excepted
    if old = .none ∨ new = old then S
    else (tiers.foldl (changeTier old new rawip) S).setCategory id new

/-- One client of a list in `ct_buckets_rebuild`. -/
def rebuildClient (excepted : ClientId → Bool) (S : State) (id : ClientId) :
    State :=
  if !(S.clients id).isUser || (S.clients id).isULine then S
  else if (S.clients id).ipv6 = none then S
  else classify S id (excepted id)

def ctBucketsRebuild (S : State) (excepted : ClientId → Bool) : State :=
  let S := S.clientList.foldl (rebuildClient excepted) S
  S.unknownList.foldl (rebuildClient excepted) S

/-! ## Runs -/

/-- `update_known_user_cache`, which calls the hook if there is a change. -/
def updateKnownUserCache (S : State) (id : ClientId) (known excepted : Bool) :
    State :=
  let S' := S.setClient id { S.clients id with knownUserCached := known }
  if (S.clients id).knownUserCached = known then S'
  else ctKnownUserCacheChange S' id excepted

/-- A client exits: one of the quit hooks is called and it leaves the lists. -/
def exitClient (S : State) (id : ClientId) : State :=
  let S := ctQuit S id
  { S with
    clientList := S.clientList.erase id
    unknownList := S.unknownList.erase id }

inductive Event where
  /-- `add_connection`, with a place in memory and an address. -/
  | addConnection (id : ClientId) (a : Address)
  /-- `set_client_ip` by `WEBIRC`. -/
  | webirc (id : ClientId) (a : Address)
  /-- A matching allow block in `AllowClient`. -/
  | allowClient (id : ClientId) (known excepted : Bool) (limits : Limits)
  /-- The end of `register_user`. -/
  | registered (id : ClientId)
  /-- A remote user, and `IsIPV6` of its server. -/
  | remoteConnect (id : ClientId) (ip : Option Address)
      (uplinkIPv6 isULine known excepted : Bool)
  /-- The client may have become a known user, or no longer is one. -/
  | knownUserChange (id : ClientId) (known excepted : Bool)
  /-- The client exits. -/
  | exit (id : ClientId)
  /-- The module is loaded again, with another key. -/
  | reload (siphash : List UInt8 → ℕ) (excepted : ClientId → Bool)

/-- An event changes the state, if it can happen: memory is not given twice, and
only a local client that is not yet a user registers. -/
def step (S : State) : Event → State
  | .addConnection id a =>
    if id ∈ S.clientList then S
    else
      { S.setClient id (localClient a) with
        clientList := id :: S.clientList
        unknownList := id :: S.unknownList }
  | .webirc id a =>
    if id ∈ S.unknownList then
      S.setClient id ((S.clients id).setClientIp a)
    else S
  | .allowClient id known excepted limits =>
    if id ∈ S.unknownList then
      let r := ctAllowClient (updateKnownUserCache S id known excepted) id
        limits excepted
      if r.2.isSome then exitClient r.1 id else r.1
    else S
  | .registered id =>
    if id ∈ S.unknownList then
      { S.setClient id { S.clients id with isUser := true } with
        unknownList := S.unknownList.erase id }
    else S
  | .remoteConnect id ip uplinkIPv6 isULine known excepted =>
    if id ∈ S.clientList then S
    else
      ctRemoteConnectBuckets
        { S.setClient id (remoteClient ip uplinkIPv6 isULine known) with
          clientList := id :: S.clientList } id excepted
  | .knownUserChange id known excepted =>
    if id ∈ S.clientList then updateKnownUserCache S id known excepted else S
  | .exit id => if id ∈ S.clientList then exitClient S id else S
  | .reload siphash excepted =>
    ctBucketsRebuild
      { S with ctBucketHash := fun _ _ => [], siphash := siphash } excepted

def start (siphash : List UInt8 → ℕ) : State where
  clients := fun _ => ⟨none, false, false, false, false, .none⟩
  clientList := []
  unknownList := []
  ctBucketHash := fun _ _ => []
  siphash := siphash

def run (S : State) (events : List Event) : State := events.foldl step S

end UnrealIrcd.ConnThrottle
