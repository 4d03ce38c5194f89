import UnrealIrcd.Tkl.MatchUser

/-!
# Security groups

`securitygroup.c`: running the items of a `match` block fills in a
`SecurityGroup`, and clients are checked against that.  The items are looked at by
name, in the order of the source.

A function that follows a NULL pointer has the result `none`.
-/

namespace UnrealIrcd.SecurityGroup

open Support Matching

/-! ## The configuration -/

inductive ConfigEntry where
  | mk (name : String) (value : Option String) (items : List ConfigEntry)

namespace ConfigEntry

def name : ConfigEntry → String
  | .mk name _ _ => name

def value : ConfigEntry → Option String
  | .mk _ value _ => value

def items : ConfigEntry → List ConfigEntry
  | .mk _ _ items => items

/-- `cep->value ? cep->value : cep->name`. -/
def valueOrName (e : ConfigEntry) : String := e.value.getD e.name

end ConfigEntry

/-- `Extban`: the flags `EXTBOPT_TKL` and `BANCHK_TKL`. -/
structure Extban where
  optionsTkl : Bool
  eventsTkl : Bool

/-- Functions that belong to other modules. -/
structure Modules (Node : Type) where
  findmodByBantypeRaw : String → Option Extban
  cruleParse : String → Option Node
  /-- `config_checkval` with `CFG_TIME`. -/
  checkvalTime : String → ℤ

/-- `config_checkval` with `CFG_YESNO`. -/
def checkvalYesno : List Char → Bool
  | [] => false
  | c :: text =>
    if !c.isAlphanum then checkvalYesno text
    else if c.toLower = 'y' ∨
        (c.toLower = 'o' ∧ (text.headD '\x00').toLower = 'n') ∨ c = '1' ∨
          c.toLower = 't' then true
    else checkvalYesno text

/-- The flag in a value, which may be missing. -/
def yesno (value : Option String) : Bool :=
  checkvalYesno (value.getD "").toList

/-- The name without `exclude-`, if it starts with that. -/
def stripExclude (name : String) : String :=
  if "exclude-".toList.isPrefixOf name.toList then
    String.ofList (name.toList.drop 8)
  else name

variable {Node : Type}

/-! ## Security groups -/

/-- The items that are switched on. -/
inductive Flag where
  | identified
  | webirc
  | websocket
  | tls
  deriving DecidableEq, Repr

/-- The items that are lists of names. -/
inductive NameKind where
  | ip
  | serverPort
  | securityGroup
  | destination
  deriving DecidableEq, Repr

/-- The fields of a `SecurityGroup` that there are once for the items and once,
with `exclude_` in front, for the items that exclude. -/
structure Criteria (Node : Type) where
  flags : Flag → Bool
  reputationScore : ℤ
  connectTime : ℤ
  mask : List String
  names : NameKind → List String
  rule : Option Node
  extended : List (String × Option String)

inductive Side where
  | included
  | excluded
  deriving DecidableEq, Repr

/-- `SecurityGroup`. -/
abbrev Group (Node : Type) := Side → Criteria Node

def Criteria.empty : Criteria Node :=
  ⟨fun _ => false, 0, 0, [], fun _ => [], none, []⟩

namespace Criteria

def setFlag (flag : Flag) (value : Bool) (c : Criteria Node) : Criteria Node :=
  { c with flags := Function.update c.flags flag value }

def addNames (kind : NameKind) (e : ConfigEntry) (c : Criteria Node) :
    Criteria Node :=
  let names := c.names kind
  let names :=
    if e.items ≠ [] then e.items.foldl (fun l i => i.valueOrName :: l) names
    else
      match e.value with
      | some v => v :: names
      | none => names
  { c with names := Function.update c.names kind names }

def addMasks (e : ConfigEntry) (c : Criteria Node) : Criteria Node :=
  { c with
    mask :=
      if e.items ≠ [] then e.items.foldl (fun l i => i.valueOrName :: l) c.mask
      else e.valueOrName :: c.mask }

/-- The value in `add_nvplist`. -/
def nvpValue (v : String) : Option String := if v = "" then none else some v

/-- `unreal_add_name_values` for `extended`. -/
def addNameValues (name : String) (e : ConfigEntry) (c : Criteria Node) :
    Criteria Node :=
  { c with
    extended :=
      if e.items ≠ [] then
        e.items.foldl (fun l i => (name, nvpValue i.valueOrName) :: l) c.extended
      else
        match e.value with
        | some v => (name, nvpValue v) :: c.extended
        | none => c.extended }

/-- A bound, which is negative if the value starts with `<`. -/
def signedBound (read : String → ℤ) (v : String) : ℤ :=
  match v.toList with
  | '<' :: rest => 0 - read (String.ofList rest)
  | _ => read v

def atoiText (v : String) : ℤ := atoi v.toList

end Criteria

def Group.modify (s : Group Node) (side : Side)
    (f : Criteria Node → Criteria Node) : Group Node :=
  Function.update s side (f (s side))

/-! ## Running the configuration -/

section Run

open Criteria

/-- `conf_match_item`, with a group that is there.  There is no `else` after
`webirc`, and nothing for `exclude-connect-time`. -/
def confMatchItem (M : Modules Node) (e : ConfigEntry) (s : Group Node) :
    Option (Group Node × Bool) :=
  let s :=
    if e.name = "webirc" then
      s.modify .included (setFlag .webirc (yesno e.value))
    else s
  let set (side : Side) (f : Criteria Node → Criteria Node) :
      Option (Group Node × Bool) := some (s.modify side f, true)
  let setValue (side : Side) (f : String → Criteria Node → Criteria Node) :
      Option (Group Node × Bool) := e.value.bind fun v => set side (f v)
  if e.name = "websocket" then
    set .included (setFlag .websocket (yesno e.value))
  else if e.name = "identified" then
    set .included (setFlag .identified (yesno e.value))
  else if e.name = "tls" then set .included (setFlag .tls (yesno e.value))
  else if e.name = "reputation-score" then
    setValue .included fun v c =>
      { c with reputationScore := signedBound atoiText v }
  else if e.name = "connect-time" then
    setValue .included fun v c =>
      { c with connectTime := signedBound M.checkvalTime v }
  else if e.name = "mask" ∨ e.name = "include-mask" then
    set .included (addMasks e)
  else if e.name = "ip" then set .included (addNames .ip e)
  else if e.name = "server-port" then set .included (addNames .serverPort e)
  else if e.name = "security-group" then
    set .included (addNames .securityGroup e)
  else if e.name = "rule" then
    setValue .included fun v c => { c with rule := M.cruleParse v }
  else if e.name = "destination" then set .included (addNames .destination e)
  else if e.name = "exclude-webirc" then
    set .excluded (setFlag .webirc (yesno e.value))
  else if e.name = "exclude-websocket" then
    set .excluded (setFlag .websocket (yesno e.value))
  else if e.name = "exclude-identified" then
    set .excluded (setFlag .identified (yesno e.value))
  else if e.name = "exclude-tls" then
    set .excluded (setFlag .tls (yesno e.value))
  else if e.name = "exclude-reputation-score" then
    setValue .excluded fun v c =>
      { c with reputationScore := signedBound atoiText v }
  else if e.name = "exclude-mask" then set .excluded (addMasks e)
  else if e.name = "exclude-ip" then set .excluded (addNames .ip e)
  else if e.name = "exclude-server-port" then
    set .excluded (addNames .serverPort e)
  else if e.name = "exclude-security-group" then
    set .excluded (addNames .securityGroup e)
  else if e.name = "exclude-rule" then
    setValue .excluded fun v c => { c with rule := M.cruleParse v }
  else if e.name = "exclude-destination" then
    set .excluded (addNames .destination e)
  else
    let name := stripExclude e.name
    let side := if name = e.name then Side.included else .excluded
    if (M.findmodByBantypeRaw name).isSome then set side (addNameValues name e)
    else some (s, false)

/-- The items in `conf_match_block`: a name alone is a mask. -/
def confMatchItems (M : Modules Node) :
    List ConfigEntry → Group Node → Option (Group Node)
  | [], s => some s
  | e :: es, s =>
    match confMatchItem M e s with
    | none => none
    | some (s, handled) =>
      if !handled && e.value.isNone && e.items.isEmpty then
        confMatchItems M es (s.modify .included (addMasks e))
      else confMatchItems M es s

/-- `conf_match_block` for a new group. -/
def confMatchBlock (M : Modules Node) (ce : ConfigEntry) :
    Option (Group Node) :=
  let s : Group Node := fun _ => Criteria.empty
  let s := if ce.value.isSome then s.modify .included (addMasks ce) else s
  confMatchItems M ce.items s

abbrev Groups (Node : Type) := List (String × Group Node)

def findSecurityGroup (G : Groups Node) (name : String) : Option (Group Node) :=
  (G.find? fun p => strcasecmpEq name.toList p.1.toList).map Prod.snd

end Run

/-! ## Checking a client -/

/-- `crule_context`, apart from the client. -/
structure Context where
  text : Option (List Char)
  destination : Option (List Char)
  clictx : Bool

/-- The context of `user_allowed_by_security_group`. -/
def Context.none : Context := ⟨.none, .none, false⟩

/-- What is known about a client.  `tkl` is what `match_user` reads.  The answers
of extended server bans and rules may depend on the groups that the client is
in. -/
structure Client (Node : Type) where
  tkl : Tkl.Client Unit
  isLoggedIn : Bool
  webirc : Bool
  websocket : Bool
  reputation : ℤ
  connectedTime : ℤ
  isSecureConnect : Bool
  myConnect : Bool
  isUser : Bool
  isSecure : Bool
  serverPort : ℤ
  /-- `match_user_extended_server_ban`. -/
  serverBan : (String → Bool) → List Char → Bool
  /-- `is_banned` of an extban. -/
  isBanned : (String → Bool) → String → Option String → Bool
  cruleEval : (String → Bool) → Context → Node → Bool

/-- `unreal_mask_match`, with the answers of `match_user`. -/
def unrealMaskMatch (matches' : List Char → Bool) (masks : List String) : Bool :=
  if masks = [] then false
  else
    let normal := masks.filter fun m => m.toList.headD '\x00' != '!'
    let retval := normal.isEmpty || normal.any fun m => matches' m.toList
    retval && !masks.any fun m =>
      m.toList.headD '\x00' == '!' && matches' m.toList.tail

/-- One name of `unreal_match_iplist`: an answer, or none if the search ends. -/
def ipNameMatches (N : Tkl.InetPton) (ip : List Char) (clientip : List UInt8)
    (name : List Char) : Option Bool :=
  let text := snprintf 512 name
  let mask := text.takeWhile (· != '/')
  let cidr := atoi (text.dropWhile (· != '/')).tail
  if '/' ∈ text ∧ cidr ≤ 0 then none
  else if '*' ∈ mask ∨ '?' ∈ mask then some (matchSimple mask ip)
  else
    let v6 := decide (':' ∈ mask)
    let bits : ℕ := if v6 then 128 else 32
    if v6 ≠ decide (':' ∈ ip) then some false
    else
      match if v6 then N.inet6 mask else N.inet mask with
      | none => some false
      | some maskip =>
        if '/' ∉ text then some (Tkl.compWithMask clientip maskip bits)
        else if cidr > bits then some false
        else some (Tkl.compWithMask clientip maskip cidr.toNat)

/-- The loop of `unreal_match_iplist`. -/
def matchIpnames (N : Tkl.InetPton) (ip : List Char) (clientip : List UInt8) :
    List String → Bool
  | [] => false
  | name :: names =>
    match ipNameMatches N ip clientip name.toList with
    | none => false
    | some true => true
    | some false => matchIpnames N ip clientip names

def unrealMatchIplist (N : Tkl.InetPton) (ip : Option (List Char))
    (names : List String) : Bool :=
  match ip with
  | none => false
  | some ip =>
    match if ':' ∈ ip then N.inet6 ip else N.inet ip with
    | none => false
    | some clientip => matchIpnames N ip clientip names

section Check

variable (M : Modules Node) (N : Tkl.InetPton) (client : Client Node)

/-- `match_user` with `MATCH_CHECK_REAL | MATCH_CHECK_EXTENDED`. -/
def Client.matchUser (inGroup : String → Bool) (mask : List Char) : Bool :=
  Tkl.matchUser N mask
    { client.tkl with extendedBan := client.serverBan inGroup }

def userMatchesExtendedServerBan (inGroup : String → Bool) (name : String)
    (value : Option String) : Bool :=
  match M.findmodByBantypeRaw name with
  | none => false
  | some extban =>
    extban.optionsTkl && extban.eventsTkl &&
      client.isBanned inGroup name value

/-- What an item that is switched on asks for, apart from TLS. -/
def Client.hasFlag (tls : Bool) : Flag → Bool
  | .identified => client.isLoggedIn
  | .webirc => client.webirc
  | .websocket => client.websocket
  | .tls => tls

/-- A number is compared with a bound of `signedBound`. -/
def boundHolds (bound n : ℤ) : Bool :=
  (decide (0 < bound) && decide (bound ≤ n)) ||
    (decide (bound < 0) && decide (n < 0 - bound))

def namesHold (inGroup : String → Bool) (ctx : Context) (kind : NameKind)
    (names : List String) : Bool :=
  match kind with
  | .ip => unrealMatchIplist N client.tkl.ip names
  | .serverPort =>
    names.any fun n => strcasecmpEq n.toList (decimal client.serverPort)
  | .securityGroup => names.any inGroup
  | .destination =>
    match ctx.destination with
    | none => false
    | some destination => names.any fun n => matchSimple n.toList destination

/-- The checks of `user_allowed_by_security_group_context`, which are the same for
both sides apart from that of TLS. -/
def checks (inGroup : String → Bool) (ctx : Context) (tls : Bool)
    (c : Criteria Node) : Bool :=
  (c.flags .identified && client.hasFlag tls .identified) ||
  (c.flags .webirc && client.hasFlag tls .webirc) ||
  (c.flags .websocket && client.hasFlag tls .websocket) ||
  boundHolds c.reputationScore client.reputation ||
  boundHolds c.connectTime client.connectedTime ||
  (c.flags .tls && client.hasFlag tls .tls) ||
  unrealMaskMatch (client.matchUser N inGroup) c.mask ||
  namesHold N client inGroup ctx .ip (c.names .ip) ||
  namesHold N client inGroup ctx .serverPort (c.names .serverPort) ||
  c.rule.any (client.cruleEval inGroup ctx) ||
  (c.extended.any fun p =>
    userMatchesExtendedServerBan M client inGroup p.1 p.2) ||
  namesHold N client inGroup ctx .securityGroup (c.names .securityGroup) ||
  namesHold N client inGroup ctx .destination (c.names .destination)

def Client.tlsExcluded : Bool :=
  client.isSecureConnect || (client.myConnect && client.isSecure)

def Client.tlsIncluded : Bool :=
  client.isSecureConnect ||
    (client.myConnect && !client.isUser && client.isSecure)

def resolve (G : Groups Node) (name : String) : Option (Group Node) :=
  if name = "unknown-users" ∨ name = "known-users" then
    findSecurityGroup G "known-users"
  else findSecurityGroup G name

/-- `user_allowed_by_security_group_name`, where `allowed` is
`user_allowed_by_security_group_context`. -/
def allowedByName (G : Groups Node) (allowed : Group Node → Context → Bool)
    (name : String) : Bool :=
  match resolve G name with
  | none => false
  | some s =>
    if name = "unknown-users" then !allowed s .none else allowed s .none

/-- The body of `user_allowed_by_security_group_context`, where `allowed` is the
function for the groups that it refers to. -/
def allowedBody (G : Groups Node) (allowed : Group Node → Context → Bool)
    (s : Group Node) (ctx : Context) : Bool :=
  let inGroup := allowedByName G allowed
  !checks M N client inGroup ctx client.tlsExcluded (s .excluded) &&
    checks M N client inGroup ctx client.tlsIncluded (s .included)

/-- `user_allowed_by_security_group_context` with `n` levels left. -/
def allowedTo (G : Groups Node) : ℕ → Group Node → Context → Bool
  | 0 => fun _ _ => false
  | n + 1 => allowedBody M N client G (allowedTo G n)

/-- `user_allowed_by_security_group_context`, which is left if
`recursion_security_group` is greater than 8. -/
def userAllowedBySecurityGroupContext (G : Groups Node) (s : Group Node)
    (ctx : Context) : Bool :=
  allowedTo M N client G 9 s ctx

end Check

end UnrealIrcd.SecurityGroup
