import UnrealIrcd.Support.Decimal
import Mathlib.Data.List.DropRight

/-!
# Channel mode `+H`

The limits of the channel history, `+H 50:1d`: a number of lines and a time.
The time is a number of minutes or a time value of the configuration file.
-/

namespace UnrealIrcd.Channels

open Support

/-! ## Time values -/

/-- The seconds in the unit that begins with this letter. -/
def timeFactor (c : Char) : ℤ :=
  if c.toLower = 'w' then 604800
  else if c.toLower = 'd' then 86400
  else if c.toLower = 'h' then 3600
  else if c.toLower = 'm' then 60
  else 1

/-- The loop of `config_checkval` for times: every run of letters counts the
digits right before it, with the factor of its first letter. -/
def checkvalUnits : List Char → Bool → List Char → ℤ
  | _, _, [] => 0
  | digits, inUnit, c :: s =>
    if c.isAlpha then
      (if inUnit then 0 else toInt (atoi digits * timeFactor c)) +
        checkvalUnits [] true s
    else
      checkvalUnits (if c.isDigit then digits ++ [c] else []) false s

/-- The digits behind the last unit are seconds.  The last character is not
looked at when the start of the number is searched. -/
def checkvalSeconds (s : List Char) : ℤ :=
  match s.getLast? with
  | none => 0
  | some c =>
    if c.isAlpha then 0
    else atoi (s.dropLast.rtakeWhile Char.isDigit ++ [c])

def checkvalTime (s : List Char) : ℤ :=
  checkvalUnits [] false s + checkvalSeconds s

/-! ## The handlers of `+H` -/

structure HistoryChanMode where
  maxLines : ℤ
  maxTime : ℤ
  deriving DecidableEq, Repr

/-- The configured limits for one kind of channel.  The configuration test
requires them to be positive. -/
structure HistoryStorage where
  lines : ℤ
  time : ℤ
  lines_pos : 1 ≤ lines
  time_pos : 1 ≤ time

/-- Configured limits for registered and for other channels. -/
structure HistoryConfig where
  registered : HistoryStorage
  unregistered : HistoryStorage

def HistoryConfig.storage (C : HistoryConfig) (registered : Bool) :
    HistoryStorage :=
  if registered then C.registered else C.unregistered

def HistoryStorage.cut (S : HistoryStorage) (h : HistoryChanMode) :
    HistoryChanMode :=
  ⟨min h.maxLines S.lines, min h.maxTime S.time⟩

/-- The first half of `history_parse_chanmode`: the numbers in the
parameter, if they are large enough. -/
def historyReadChanmode (param : List Char) : Option HistoryChanMode :=
  let buf := param.take 63
  match buf.dropWhile (· != ':') with
  | [] => none
  | _ :: p =>
    let lines := atoi (buf.takeWhile (· != ':'))
    let t := if p.all Char.isDigit then toInt (atoi p * 60)
      else checkvalTime p
    if lines < 1 then none
    else if t < 60 then none
    else some ⟨lines, t⟩

def historyParseChanmode (C : HistoryConfig) (registered : Bool)
    (param : List Char) : Option HistoryChanMode :=
  (historyReadChanmode param).map (C.storage registered).cut

def historyChanmodeHelper (h : HistoryChanMode) : List Char :=
  if h.maxTime % 86400 = 0 then
    decimal h.maxLines ++ ':' :: (decimal (h.maxTime / 86400) ++ ['d'])
  else if h.maxTime % 3600 = 0 then
    decimal h.maxLines ++ ':' :: (decimal (h.maxTime / 3600) ++ ['h'])
  else
    decimal h.maxLines ++ ':' :: (decimal (h.maxTime / 60) ++ ['m'])

/-- `history_chanmode_is_ok` for the parameter. -/
def historyChanmodeIsOk (C : HistoryConfig) (registered : Bool)
    (param : List Char) : Bool :=
  (historyParseChanmode C registered param).isSome

def historyChanmodeConvParam (C : HistoryConfig) (registered : Bool)
    (param : List Char) : Option (List Char) :=
  (historyParseChanmode C registered param).map historyChanmodeHelper

/-- `history_chanmode_put_param`.  There is no channel, so the limits for
registered channels are used. -/
def historyChanmodePutParam (C : HistoryConfig) (param : List Char) :
    Option HistoryChanMode :=
  historyParseChanmode C true param

/-- The merge of `history_chanmode_sjoin_check`. -/
def HistoryChanMode.merge (our their : HistoryChanMode) : HistoryChanMode :=
  ⟨max our.maxLines their.maxLines, max our.maxTime their.maxTime⟩

end UnrealIrcd.Channels
