import UnrealIrcd.Channels.Cmode
import UnrealIrcd.Support.Decimal
import Mathlib.Data.Char
import Mathlib.Data.Fintype.Basic

/-!
# Channel modes `+f` and `+F`

The settings of the flood protection, `+f [5j#R10,40m]:15`, and the named
profiles of them, `+F strict`.  Counters and timers, which the module keeps in
the same record, are not part of the settings.
-/

namespace UnrealIrcd.Channels

open Support

inductive Flood where
  | ctcp
  | join
  | knock
  | msg
  | nick
  | text
  | repeating
  | paste
  deriving DecidableEq, Repr

instance : Fintype Flood where
  elems := {.ctcp, .join, .knock, .msg, .nick, .text, .repeating, .paste}
  complete i := by cases i <;> decide

structure FloodType where
  letter : Char
  index : Flood
  defaultAction : Char
  actions : List Char
  timedbanRequired : Bool
  deriving DecidableEq, Repr

/-- The table `floodtypes`.  No default action is NUL. -/
def floodtypes : List FloodType :=
  [⟨'c', .ctcp, 'C', [], false⟩, ⟨'j', .join, 'i', ['R'], false⟩,
    ⟨'k', .knock, 'K', [], false⟩, ⟨'m', .msg, 'm', ['M'], false⟩,
    ⟨'n', .nick, 'N', [], false⟩, ⟨'p', .paste, '\x00', ['m', 'M'], false⟩,
    ⟨'t', .text, '\x00', ['b', 'd'], true⟩,
    ⟨'r', .repeating, '\x00', ['b', 'd'], true⟩]

structure FloodLimit where
  limit : ℕ
  action : Char
  removeAfter : ℕ
  deriving DecidableEq, Repr

def FloodLimit.off : FloodLimit := ⟨0, '\x00', 0⟩

/-- The settings in `ChannelFloodProtection`. -/
@[ext]
structure FloodSettings where
  per : ℕ
  limits : Flood → FloodLimit
  deriving DecidableEq

def FloodSettings.empty : FloodSettings := ⟨0, fun _ => .off⟩

def validFloodProfileName (str : List Char) : Bool :=
  decide (str.length ≤ 24) &&
    str.all fun c => c.isLower || c.isDigit || c == '_' || c == '-'

/-- Configuration of the flood protection.  The times are of type
`unsigned char`, and the names of profiles were checked. -/
structure FloodConfig where
  modefDefaultUnsettime : Fin 256
  modefMaxUnsettime : Fin 256
  timedbanAvailable : Bool
  profiles : List (List Char × FloodSettings)
  profiles_valid : ∀ p ∈ profiles, validFloodProfileName p.1 = true
  defaultProfile : Option (List Char)

/-! ## Parsing -/

def findFloodprotByLetter (c : Char) : Option FloodType :=
  floodtypes.find? (·.letter == c)

def floodprotValidAlternateAction
    (T : ModeTable) (action : Char) (floodtype : FloodType) : Bool :=
  floodtype.actions.contains action ||
    match T.findChannelModeHandler action with
    | none => false
    | some cm => cm.floodTypeAction == some floodtype.letter

/-- The tokens between the brackets as `strtok` cuts them at commas, each with
the memory behind its NUL.  Behind the last one that is `after`, the text
behind the closing bracket. -/
def floodTokens (after : List Char) :
    List Char → List Char → List (List Char × List Char)
  | token, [] => if token = [] then [] else [(token, after)]
  | token, c :: s =>
    if c = ',' then
      if token = [] then floodTokens after [] s
      else (token, s) :: floodTokens after [] s
    else floodTokens after (token ++ [c]) s

/-- What the parser knows about the caller. -/
structure FloodParse where
  strict : Bool
  localclient : Bool

/-- The minutes after which an action is undone.  They are read behind the
action letter; if that is missing, behind the NUL of the token. -/
def floodRemoveAfter (C : FloodConfig) (o : FloodParse)
    (option after : List Char) : ℕ :=
  let default := if o.localclient then C.modefDefaultUnsettime.val else 0
  let text :=
    match option with
    | ['#'] => after
    | '#' :: _ :: text => text
    | _ => []
  if text = [] then default
  else
    let tv := min (max (atoi text) 0) 255
    (if o.strict && o.localclient then min tv C.modefMaxUnsettime.val
      else tv).toNat

/-- The action letter behind the hash sign. -/
def floodActionLetter (option : List Char) : Char :=
  match option with
  | '#' :: a :: _ => a
  | _ => '\x00'

/-- The settings from one token of a known type.  The count is `v`. -/
def floodLimitOf (C : FloodConfig) (T : ModeTable) (o : FloodParse)
    (floodtype : FloodType) (v : ℤ) (option after : List Char) : FloodLimit :=
  let a := floodActionLetter option
  { limit := (min (max v 1) 999).toNat
    action :=
      if a ≠ '\x00' ∧ floodprotValidAlternateAction T a floodtype then a
      else floodtype.defaultAction
    removeAfter :=
      if floodtype.timedbanRequired && !C.timedbanAvailable then 0
      else floodRemoveAfter C o option after }

/-- The loop over the tokens: the limits and the letters of unknown types, or
the error. -/
def parseFloodTokens (C : FloodConfig) (T : ModeTable) (o : FloodParse) :
    List (List Char × List Char) → (Flood → FloodLimit) → List Char →
      Except String ((Flood → FloodLimit) × List Char)
  | [], limits, unknown => .ok (limits, unknown)
  | (token, after) :: tokens, limits, unknown =>
    let number := token.takeWhile Char.isDigit
    let c := (token.dropWhile Char.isDigit).headD '\x00'
    match findFloodprotByLetter c with
    | none =>
      -- a token of digits only has its NUL added, which changes nothing
      parseFloodTokens C T o tokens limits
        (if c = '\x00' then unknown else strlcatLetter unknown c 32)
    | some floodtype =>
      let v := atoi number
      if o.strict ∧ (v < 1 ∨ 999 < v) then
        .error s!"Flood count for '{c}' must be 1-999 (got {v})"
      else
        let entry := floodLimitOf C T o floodtype v
          ((token.dropWhile Char.isDigit).drop 1) after
        parseFloodTokens C T o tokens
          (Function.update limits floodtype.index entry) unknown

/-- The outcome of `parse_channel_mode_flood`: the record, and the error or
the warning. -/
structure FloodResult where
  ok : Bool
  fld : FloodSettings
  error : Option String

def parseChannelModeFloodFailed (per : ℕ) (error : String) : FloodResult :=
  ⟨false, ⟨per, fun _ => .off⟩, some error⟩

def parseChannelModeFlood (C : FloodConfig) (T : ModeTable) (o : FloodParse)
    (param : List Char) (fld : FloodSettings) : FloodResult :=
  match param.take 255 with
  | '[' :: text =>
    let inside := text.takeWhile (· != ']')
    match text.dropWhile (· != ']') with
    | [] => parseChannelModeFloodFailed fld.per
        "Invalid format (brackets missing)"
    | _ :: after =>
      if after.head? ≠ some ':' then
        parseChannelModeFloodFailed fld.per
          "Invalid format (:XX period missing)"
      else
        match parseFloodTokens C T o (floodTokens after [] inside)
          (fun _ => .off) [] with
        | .error e => parseChannelModeFloodFailed fld.per e
        | .ok (limits, unknown) =>
          if after.drop 1 = [] then
            parseChannelModeFloodFailed fld.per
              "Invalid format (:XX period missing)"
          else
            let per := (max (atoi (after.drop 1)) 1).toNat % 2 ^ 16
            let warning :=
              s!"Unknown flood type(s) '{String.ofList unknown}'"
            if ∀ i, (limits i).limit = 0 then
              parseChannelModeFloodFailed per
                (if unknown ≠ [] then warning
                  else "None of the floodtypes set")
            else
              ⟨true, ⟨per, limits⟩,
                if unknown ≠ [] then some warning else none⟩
  | _ => parseChannelModeFloodFailed fld.per
      "Invalid format (brackets missing)"

/-! ## Printing -/

/-- The conversion `%hd` of `printf`. -/
def shortDecimal (n : ℕ) : List Char := decimal (Int.bmod n (2 ^ 16))

/-- `chmodefstrhelper`, without the comma. -/
def chmodefstrhelper (floodtype : FloodType) (l : FloodLimit) : List Char :=
  shortDecimal l.limit ++ floodtype.letter ::
    if l.action ≠ '\x00' ∧
        (l.action ≠ floodtype.defaultAction ∨ l.removeAfter ≠ 0) then
      '#' :: l.action ::
        if l.removeAfter ≠ 0 then shortDecimal l.removeAfter else []
    else []

def channelModefString (x : FloodSettings) : List Char :=
  let entries := floodtypes.filter fun f => (x.limits f.index).limit ≠ 0
  '[' :: (List.intercalate [',']
      (entries.map fun f => chmodefstrhelper f (x.limits f.index)) ++
    ']' :: ':' :: shortDecimal x.per)

/-! ## The handlers of `+f` -/

/-- `cmodef_is_ok` for the parameter. -/
def cmodefIsOk (C : FloodConfig) (T : ModeTable) (localclient : Bool)
    (param : List Char) : Bool :=
  (parseChannelModeFlood C T ⟨true, localclient⟩ param .empty).ok

def cmodefPutParam (C : FloodConfig) (T : ModeTable)
    (fld : Option FloodSettings) (param : List Char) : FloodSettings :=
  (parseChannelModeFlood C T ⟨false, false⟩ param (fld.getD .empty)).fld

def cmodefConvParam (C : FloodConfig) (T : ModeTable) (localclient : Bool)
    (param : List Char) : Option (List Char) :=
  let r := parseChannelModeFlood C T ⟨false, localclient⟩ param .empty
  if r.ok then some (channelModefString r.fld) else none

/-- `compare_floodprot_modes` says that the two are the same.  It does not
compare `per`. -/
def compareFloodprotModes (a b : FloodSettings) : Bool :=
  decide (∀ i, (a.limits i).limit = (b.limits i).limit) &&
    decide (∀ i, (a.limits i).action = (b.limits i).action) &&
    decide (∀ i, (a.limits i).removeAfter = (b.limits i).removeAfter)

/-- The merge of `cmodef_sjoin_check`, which is left in our settings. -/
def FloodSettings.merge (our their : FloodSettings) : FloodSettings where
  per := max our.per their.per
  limits i :=
    { limit := max (our.limits i).limit (their.limits i).limit
      action := max (our.limits i).action (their.limits i).action
      removeAfter :=
        max (our.limits i).removeAfter (their.limits i).removeAfter }

/-! ## The handlers of `+F` -/

/-- The record of `+F`: the name and the settings of a profile. -/
structure FloodProfile where
  profile : Option (List Char)
  settings : FloodSettings
  deriving DecidableEq

def getChannelFloodProfile (C : FloodConfig) (name : List Char) :
    Option (List Char × FloodSettings) :=
  C.profiles.find? fun p => strcasecmpEq p.1 name

/-- The profile `name`, or the fallback `normal`. -/
def floodProfileBase (C : FloodConfig) (name : List Char) :
    List Char × FloodSettings :=
  ((getChannelFloodProfile C name).orElse fun _ =>
    getChannelFloodProfile C "normal".toList).getD
      ("normal".toList, .empty)

def cmodefProfilePutParam (C : FloodConfig) (param : List Char) :
    FloodProfile :=
  ⟨some param, (floodProfileBase C param).2⟩

def cmodefProfileGetParam (r : FloodProfile) : List Char :=
  (r.profile.getD "???".toList).take 511

def cmodefProfileConvParam (C : FloodConfig) (param : List Char) :
    Option (List Char) :=
  (getChannelFloodProfile C param).map fun p => p.1.take 255

/-- `cmodef_free_param` with `soft`, for the record of `+F`: a channel keeps
the default profile. -/
def cmodefProfileFreeParam (C : FloodConfig) (fld : FloodProfile) :
    Option FloodProfile :=
  match fld.profile, C.defaultProfile with
  | some profile, some default =>
    if profile ≠ default then
      let base := floodProfileBase C default
      some ⟨some base.1, base.2⟩
    else some fld
  | _, _ => none

end UnrealIrcd.Channels
