import UnrealIrcd.Support.CString

/-!
# Ban, exempt and invex lists

The masks of the list modes `+b`, `+e` and `+I`: how a mask is brought into its
proper form (`clean_ban_mask`), and the lists of them.  Extended bans are
registered by modules, so the model takes the registered ones as given.
-/

namespace UnrealIrcd.Channels

open Support

/-- A mode is set or unset. -/
inductive What where
  | add
  | del
  deriving DecidableEq, Repr

inductive ListMode where
  | ban
  | except
  | invex
  deriving DecidableEq, Repr

def ListMode.letter : ListMode → Char
  | .ban => 'b'
  | .except => 'e'
  | .invex => 'I'

/-- The search in `corechannelmodetable`. -/
def ListMode.ofLetter (c : Char) : Option ListMode :=
  if c = 'b' then some .ban
  else if c = 'e' then some .except
  else if c = 'I' then some .invex
  else none

structure Ban where
  banstr : List Char
  who : List Char
  when : ℤ
  deriving DecidableEq, Repr

/-! ## Masks -/

/-- What an extended ban can see of the request. -/
structure BanContext where
  what : What
  banType : ListMode
  localclient : Bool

structure Extban where
  letter : Char
  name : List Char
  convParam : Option (BanContext → List Char → Option (List Char))

structure BanConfig where
  extbans : List Extban
  namedExtendedBans : Bool
  maxbans : ℤ

def nicklen : ℕ := 30
def userlen : ℕ := 10
def hostlen : ℕ := 63
def maxbanlen : ℕ := 200

def isExtendedBan (str : List Char) : Bool :=
  match str with
  | '~' :: p => p.contains ':'
  | _ => false

def findmodByBantypeRaw (C : BanConfig) (name : List Char) : Option Extban :=
  C.extbans.find? fun e => name == [e.letter] || name == e.name

/-- `findmod_by_bantype`: the extended ban and the text behind its name. -/
def findmodByBantype (C : BanConfig) (str : List Char) :
    Option (Extban × List Char) :=
  let remainder := (str.dropWhile (· != ':')).drop 1
  if remainder = [] then none
  else
    (findmodByBantypeRaw C ((str.takeWhile (· != ':')).drop 1)).map
      (·, remainder)

def prefixWithExtban (C : BanConfig) (extban : Extban)
    (remainder : List Char) : List Char :=
  snprintf 512 ('~' ::
    ((if C.namedExtendedBans then extban.name else [extban.letter]) ++
      ':' :: remainder))

/-- `trim_str`: the end of a string that is too long, behind an asterisk. -/
def trimStr (str : List Char) (len : ℕ) : List Char :=
  if len < str.length then '*' :: str.drop (str.length - len + 1) else str

/-- `check_string`, for text without blanks. -/
def checkString (s : List Char) : List Char := if s = [] then ['*'] else s

/-- `make_nick_user_host_r`, in a buffer that is large enough. -/
def makeNickUserHost (nick name host : List Char) : List Char :=
  (checkString nick).take (nicklen + 1) ++ '!' ::
    ((checkString name).take (userlen + 1) ++ '@' ::
      (checkString host).take (hostlen + 1))

/-- The text before and behind the last `@`. -/
def splitHost (s : List Char) : Option (List Char × List Char) :=
  if s.contains '@' then
    some ((s.reverse.dropWhile (· != '@')).tail.reverse,
      (s.reverse.takeWhile (· != '@')).reverse)
  else none

def convertRegularBan (mask : List Char) : Option (List Char) :=
  if mask = [] then none
  else if mask.head? = some '~' ∧ '@' ∉ mask then none
  else if '!' ∈ mask then
    let nick := mask.takeWhile (· != '!')
    let user := (mask.dropWhile (· != '!')).drop 1
    match splitHost user with
    | some (user, host) =>
      some (makeNickUserHost (trimStr nick nicklen) (trimStr user userlen)
        (trimStr host hostlen))
    | none =>
      some (makeNickUserHost (trimStr nick nicklen) (trimStr user userlen)
        [])
  else
    match splitHost mask with
    | some (user, host) =>
      some (makeNickUserHost [] (trimStr user userlen)
        (trimStr host hostlen))
    | none =>
      if '.' ∈ mask ∨ ':' ∈ mask then
        some (makeNickUserHost [] [] (trimStr mask hostlen))
      else
        some (makeNickUserHost (trimStr mask nicklen) [] [])

/-- `clean_ban_mask` for an extended ban. -/
def cleanExtban (C : BanConfig) (ctx : BanContext) (mask : List Char) :
    Option (List Char) :=
  match findmodByBantype C mask with
  | none =>
    if ctx.what = .add ∧ mask.dropWhile (· != ':') = [':'] then none
    else if ctx.localclient = false ∨ ctx.what = .del then
      some (if ctx.what = .add then mask.take maxbanlen else mask)
    else none
  | some (extban, nextbanstr) =>
    match extban.convParam with
    | some convParam =>
      (convParam ctx nextbanstr).map fun ret =>
        (prefixWithExtban C extban ret).take maxbanlen
    | none =>
      match mask with
      | _ :: ':' :: _ :: _ => some (mask.take 80)
      | _ => none

def cleanBanMask (C : BanConfig) (ctx : BanContext) (maskIn : List Char) :
    Option (List Char) :=
  let maskIn := maskIn.dropWhile (· == ':')
  if maskIn = [] then none
  else
    let mask := (maskIn.take 511).takeWhile (· != ' ')
    if mask.any (fun c => decide (c.toNat ≤ 32)) then none
    else if isExtendedBan mask then cleanExtban C ctx mask
    else convertRegularBan mask

/-! ## Lists -/

def identicalBan (one two : List Char) : Bool := strcasecmpEq one two

inductive AddListmode where
  | added
  | updated
  | full
  deriving DecidableEq, Repr

def wholen : ℕ := nicklen + userlen + hostlen + 3

def storedBan (banid setby : List Char) (seton : ℤ) : Ban :=
  ⟨banid.take maxbanlen, setby.take wholen, seton⟩

/-- The existing entry is replaced by an older one, unless it is as old. -/
def updateListmode (banid setby : List Char) (seton : ℤ) :
    List Ban → AddListmode × List Ban
  | [] => (.full, [])
  | ban :: list =>
    if identicalBan ban.banstr banid then
      if 0 < ban.when ∧ ban.when ≤ seton then (.full, ban :: list)
      else (.updated, storedBan banid setby seton :: list)
    else
      let r := updateListmode banid setby seton list
      (r.1, ban :: r.2)

/-- `add_listmode_ex`.  The number of entries is only limited for local users
and for the server itself. -/
def addListmodeEx (C : BanConfig) (limited : Bool) (list : List Ban)
    (banid setby : List Char) (seton : ℤ) : AddListmode × List Ban :=
  if list.any (fun ban => identicalBan ban.banstr banid) then
    updateListmode banid setby seton list
  else if (list = [] ∧ C.maxbans < 1) ∨
      (limited = true ∧ list ≠ [] ∧ C.maxbans ≤ list.length) then
    (.full, list)
  else
    (.added, storedBan banid setby seton :: list)

/-- `del_listmode`: the list without the entry, if there is one. -/
def delListmode (list : List Ban) (banid : List Char) : Option (List Ban) :=
  if list.any (fun ban => identicalBan banid ban.banstr) then
    some (list.eraseP fun ban => identicalBan banid ban.banstr)
  else none

end UnrealIrcd.Channels
