import UnrealIrcd.Channels.Floodprot
import UnrealIrcd.Channels.History

/-!
# Parameters of channel modes

The handlers that a module registers for a mode with a parameter, and the six
modes that have them: `+f`, `+F`, `+H`, `+k`, `+l` and `+L`.
-/

namespace UnrealIrcd.Channels

open Support

/-! ## Channel key, `+k` -/

def keylen : ℕ := 23

def validKeyChar (c : Char) : Bool :=
  c != ' ' && c != ':' && c != ',' && decide (32 < c.toNat)

def isValidKey (key : List Char) : Bool :=
  decide (key.length ≤ keylen) && key.all validKeyChar

def transformChannelKey (i : List Char) : List Char :=
  (i.takeWhile validKeyChar).take keylen

def cmodeKeyConvParam (param : List Char) : Option (List Char) :=
  if transformChannelKey param = [] then none
  else some (transformChannelKey param)

/-! ## Channel limit, `+l` -/

def transformChannelLimit (param : List Char) : ℤ :=
  if atoi param ≤ 0 then 1
  else if 1000000 < atoi param then 1000000
  else atoi param

/-! ## Linked channel, `+L` -/

/-- The setting `set::allowed-channelchars`. -/
inductive AllowedChannelchars where
  | any
  | ascii
  | utf8
  deriving DecidableEq, Repr

def channellen : ℕ := 32

/-- `valid_channelname`.  `utf8Validate` is the UTF-8 validator. -/
def validChannelname (allowed : AllowedChannelchars)
    (utf8Validate : List Char → Bool) (cname : List Char) : Bool :=
  cname.head? == some '#' && decide (cname.length ≤ channellen) &&
    cname.all (fun c => decide (33 ≤ c.toNat) && c != ',' && c != ':') &&
    match allowed with
    | .any => true
    | .ascii => cname.all fun c => decide (c.toNat ≤ 127)
    | .utf8 => utf8Validate cname

/-! ## Handlers -/

/-- The record behind a parameter, for all modes that have one. -/
inductive ModeParam where
  | flood (fld : FloodSettings)
  | profile (fld : FloodProfile)
  | history (h : HistoryChanMode)
  | key (key : List Char)
  | limit (limit : ℤ)
  | link (linked : List Char)
  deriving DecidableEq

/-- What a handler can see of the request and of the channel. -/
structure ParamContext where
  localclient : Bool
  registered : Bool
  channelName : List Char

/-- The results of `sjoin_check`. -/
inductive SjoinCheck where
  | same
  | weWon
  | theyWon
  | merge
  deriving DecidableEq, Repr

/-- The handlers of a mode with a parameter.  `sjoinCheck` also returns what
it leaves in our record, and `freeParam` what is left of the record. -/
structure ParamHandler where
  isOk : ParamContext → List Char → Bool
  convParam : ParamContext → List Char → Option (List Char)
  putParam : Option ModeParam → List Char → Option ModeParam
  getParam : ModeParam → Option (List Char)
  sjoinCheck : ModeParam → ModeParam → SjoinCheck × ModeParam
  freeParam : ModeParam → Option ModeParam

structure ParamConfig where
  table : ModeTable
  flood : FloodConfig
  history : HistoryConfig
  allowedChannelchars : AllowedChannelchars
  utf8Validate : List Char → Bool

/-- Comparison by `strcmp`: the greater string wins. -/
def strcmpCheck (our their : List Char) : SjoinCheck :=
  match compare our their with
  | .eq => .same
  | .gt => .weWon
  | .lt => .theyWon

/-- Comparison of numbers: the greater number wins. -/
def limitCheck (our their : ℤ) : SjoinCheck :=
  if our = their then .same else if our > their then .weWon else .theyWon

variable (C : ParamConfig)

/-- Mode `+f`. -/
def floodHandler : ParamHandler where
  isOk ctx param := cmodefIsOk C.flood C.table ctx.localclient param
  convParam ctx param := cmodefConvParam C.flood C.table ctx.localclient param
  putParam r param :=
    let fld := match r with
      | some (.flood fld) => some fld
      | _ => none
    some (.flood (cmodefPutParam C.flood C.table fld param))
  getParam
    | .flood fld => some (channelModefString fld)
    | _ => none
  sjoinCheck
    | .flood our, .flood their =>
      if compareFloodprotModes our their then (.same, .flood our)
      else (.merge, .flood (our.merge their))
    | our, _ => (.same, our)
  freeParam _ := none

/-- Mode `+F`. -/
def profileHandler : ParamHandler where
  isOk _ param := (getChannelFloodProfile C.flood param).isSome
  convParam _ param := cmodefProfileConvParam C.flood param
  putParam _ param := some (.profile (cmodefProfilePutParam C.flood param))
  getParam
    | .profile fld => some (cmodefProfileGetParam fld)
    | _ => none
  sjoinCheck
    | .profile our, .profile their =>
      (strcmpCheck (our.profile.getD []) (their.profile.getD []),
        .profile our)
    | our, _ => (.same, our)
  freeParam
    | .profile fld => (cmodefProfileFreeParam C.flood fld).map .profile
    | _ => none

/-- Mode `+H`. -/
def historyHandler : ParamHandler where
  isOk ctx param := historyChanmodeIsOk C.history ctx.registered param
  convParam ctx param :=
    historyChanmodeConvParam C.history ctx.registered param
  putParam _ param :=
    (historyChanmodePutParam C.history param).map .history
  getParam
    | .history h => some (historyChanmodeHelper h)
    | _ => none
  sjoinCheck
    | .history our, .history their =>
      if our = their then (.same, .history our)
      else (.merge, .history (our.merge their))
    | our, _ => (.same, our)
  freeParam _ := none

/-- Mode `+k`. -/
def keyHandler : ParamHandler where
  isOk _ param := isValidKey param
  convParam _ param := cmodeKeyConvParam param
  putParam _ param := some (.key (transformChannelKey param))
  getParam
    | .key key => some key
    | _ => none
  sjoinCheck
    | .key our, .key their => (strcmpCheck our their, .key our)
    | our, _ => (.same, our)
  freeParam _ := none

/-- Mode `+l`. -/
def limitHandler : ParamHandler where
  isOk _ param := decide (0 < atoi param)
  convParam _ param := some (decimal (transformChannelLimit param))
  putParam _ param := some (.limit (transformChannelLimit param))
  getParam
    | .limit limit => some (decimal limit)
    | _ => none
  sjoinCheck
    | .limit our, .limit their => (limitCheck our their, .limit our)
    | our, _ => (.same, our)
  freeParam _ := none

/-- Mode `+L`. -/
def linkHandler : ParamHandler where
  isOk ctx param := !param.contains ',' &&
    validChannelname C.allowedChannelchars C.utf8Validate param &&
    !strcasecmpEq param ctx.channelName
  convParam _ param :=
    if validChannelname C.allowedChannelchars C.utf8Validate param then
      some param
    else none
  putParam _ param := some (.link (param.take channellen))
  getParam
    | .link linked => some linked
    | _ => none
  sjoinCheck
    | .link our, .link their => (strcmpCheck our their, .link our)
    | our, _ => (.same, our)
  freeParam _ := none

/-- `GETPARAMHANDLERBYLETTER`. -/
def paramHandler (letter : Char) : Option ParamHandler :=
  if letter = 'f' then some (floodHandler C)
  else if letter = 'F' then some (profileHandler C)
  else if letter = 'H' then some (historyHandler C)
  else if letter = 'k' then some keyHandler
  else if letter = 'l' then some limitHandler
  else if letter = 'L' then some (linkHandler C)
  else none

end UnrealIrcd.Channels
