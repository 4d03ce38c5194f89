import UnrealIrcd.Channels.State

/-!
# Setting channel modes

The function `set_mode`, which applies a mode string with its parameters to a
channel, and `make_mode_str`, which builds the lines that are sent for it.

The access checks of local users are functions that modules register, so the
model takes their answers as given (`Policy`).  Servers and remote users are
not asked.
-/

namespace UnrealIrcd.Channels

open Support

def maxmodeparams : ℕ := 12
def modebuflen : ℕ := 200
def bufsize : ℕ := 512

/-- The answers to the access checks of a local user. -/
structure Policy where
  /-- The mode is not locked. -/
  mlock : Channel → Char → Bool
  /-- `is_ok` for the access, with the override for operators. -/
  access : Channel → Cmode → Option (List Char) → What → Bool
  /-- The hook against taking away a status. -/
  deop : Channel → User → Char → Bool
  /-- `is_ok` of an extended ban. -/
  extban : Channel → What → ListMode → List Char → Bool

/-- Who changes a mode.  `restricted` are the modes that the configuration
forbids, and `unknownParacount` the number of parameters of a mode that is not
known here. -/
structure Requester where
  setby : List Char
  myUser : Bool
  isMe : Bool
  policy : Policy
  restricted : Char → Bool
  unknownParacount : What → Char → ℕ

/-- An entry of `pvar`: a change with its parameter. -/
structure ModeChange where
  what : What
  letter : Char
  param : List Char
  deriving DecidableEq, Repr

/-- The state of the loop of `set_mode`: the channel, the changes with a
parameter so far, and the parameters that are left. -/
structure ModeState where
  channel : Channel
  pvar : List ModeChange
  args : List (List Char)

def doModeCharWrite (pvar : List ModeChange) (what : What) (letter : Char)
    (str : List Char) : List ModeChange :=
  if maxmodeparams ≤ pvar.length then pvar
  else pvar ++ [⟨what, letter, str.take modebuflen⟩]

section

variable (S : Server) (R : Requester)

/-! ## List modes -/

/-- `mode_ban_handler`: the channel, and the mask if the list has changed. -/
def modeBanHandler (ch : Channel) (param : List Char) (what : What)
    (lm : ListMode) : Channel × Option (List Char) :=
  match cleanBanMask S.config.bans ⟨what, lm, R.myUser⟩ param with
  | none => (ch, none)
  | some [] => (ch, none)
  | some tmpstr =>
    if R.myUser && isExtendedBan param &&
        !R.policy.extban ch what lm tmpstr then (ch, none)
    else
      match what with
      | .add =>
        let r := addListmodeEx S.config.bans (R.myUser || R.isMe)
          (ch.list lm) tmpstr R.setby S.now
        (ch.setList lm r.2, if r.1 = .added then some tmpstr else none)
      | .del =>
        match delListmode (ch.list lm) tmpstr with
        | none => (ch, none)
        | some list => (ch.setList lm list, some tmpstr)

def doModeCharListMode (what : What) (lm : ListMode) (s : ModeState) :
    ModeState :=
  match s.args with
  | [] => s
  | param :: args =>
    if maxmodeparams ≤ s.pvar.length then s
    else
      let r := modeBanHandler S R s.channel (param.take modebuflen) what lm
      ⟨r.1,
        match r.2 with
        | none => s.pvar
        | some tmpstr => doModeCharWrite s.pvar what lm.letter tmpstr,
        args⟩

/-! ## Member modes -/

def doModeCharMemberModeNew (cm : Cmode) (what : What) (param : List Char)
    (ch : Channel) (pvar : List ModeChange) : Channel × List ModeChange :=
  match S.findChasing param with
  | none => (ch, pvar)
  | some target =>
    match ch.findMember target.id with
    | none => (ch, pvar)
    | some member =>
      match what with
      | .add =>
        if cm.letter ∈ member.memberModes then (ch, pvar)
        else
          (ch.modifyMember target.id
              (addMemberModeFast S.config.table · cm.letter),
            doModeCharWrite pvar what cm.letter target.name)
      | .del =>
        if cm.letter ∉ member.memberModes then (ch, pvar)
        else if R.myUser && !R.policy.deop ch target cm.letter then
          (ch, pvar)
        else
          (ch.modifyMember target.id (delMemberModeFast · cm.letter),
            doModeCharWrite pvar what cm.letter target.name)

/-! ## Other modes -/

/-- The hook `HOOKTYPE_MODECHAR_ADD`: `+p` and `+s` exclude each other. -/
def modecharAdd (mode : Finset Char) (letter : Char) : Finset Char :=
  if letter = 'p' then mode.erase 's'
  else if letter = 's' then mode.erase 'p'
  else mode

/-- The hook `HOOKTYPE_MODECHAR_DEL`: `-i` also removes `+K`. -/
def modecharDel (mode : Finset Char) (letter : Char) : Finset Char :=
  if letter = 'i' then mode.erase 'K' else mode

def Channel.getParam (C : ParamConfig) (ch : Channel) (letter : Char) :
    Option (List Char) :=
  (paramHandler C letter).bind fun h => (ch.params letter).bind h.getParam

/-- `cm_putparameter`. -/
def Channel.putParam (C : ParamConfig) (ch : Channel) (letter : Char)
    (param : List Char) : Channel :=
  match paramHandler C letter with
  | none => ch
  | some h =>
    { ch with
      params := Function.update ch.params letter
        (h.putParam (ch.params letter) param) }

/-- `cm_freeparameter`. -/
def Channel.freeParam (C : ParamConfig) (ch : Channel) (letter : Char) :
    Channel :=
  match paramHandler C letter with
  | none => ch
  | some h =>
    { ch with
      params := Function.update ch.params letter
        ((ch.params letter).bind h.freeParam) }

def Channel.addFlag (ch : Channel) (letter : Char) : Channel :=
  { ch with mode := modecharAdd (insert letter ch.mode) letter }

def Channel.delFlag (ch : Channel) (letter : Char) : Channel :=
  { ch with mode := modecharDel (ch.mode.erase letter) letter }

def paramContext (ch : Channel) : ParamContext :=
  ⟨R.myUser, decide ('r' ∈ ch.mode), ch.name⟩

/-- The end of `do_extmode_char` for a mode with a parameter that is set. -/
def addParamMode (cm : Cmode) (param : List Char) (ch : Channel)
    (pvar : List ModeChange) : Channel × List ModeChange :=
  match paramHandler S.config.toParamConfig cm.letter with
  | none => (ch, pvar)
  | some h =>
    if h.isOk (paramContext R ch) param = false then (ch, pvar)
    else
      match h.convParam (paramContext R ch) param with
      | none => (ch, pvar)
      | some morphed =>
        if cm.letter ∈ ch.mode ∧
            ch.getParam S.config.toParamConfig cm.letter =
              some morphed then
          (ch, pvar)
        else
          ((ch.addFlag cm.letter).putParam S.config.toParamConfig
              cm.letter morphed,
            doModeCharWrite pvar .add cm.letter morphed)

/-- The end of `do_extmode_char` for a mode with a parameter that is unset. -/
def delParamMode (cm : Cmode) (ch : Channel) (pvar : List ModeChange) :
    Channel × List ModeChange :=
  if cm.letter ∉ ch.mode then (ch, pvar)
  else
    ((ch.delFlag cm.letter).freeParam S.config.toParamConfig cm.letter,
      if cm.unsetWithParam then
        doModeCharWrite pvar .del cm.letter
          ((ch.getParam S.config.toParamConfig cm.letter).getD [])
      else pvar)

/-- The number of parameters a change of the mode takes. -/
def Cmode.paracountFor (cm : Cmode) (what : What) : ℕ :=
  match what with
  | .add => cm.paracount
  | .del => if cm.unsetWithParam then 1 else 0

def doExtmodeChar (cm : Cmode) (what : What) (s : ModeState) : ModeState :=
  let paracnt := cm.paracountFor what
  if paracnt ≠ 0 ∧ (s.args = [] ∨ maxmodeparams ≤ s.pvar.length) then s
  else
    let param := s.args.head?.map (·.take modebuflen)
    let left := s.args.drop paracnt
    if cm.isLocal = true ∧ R.myUser = false then { s with args := left }
    else if R.myUser && !R.policy.access s.channel cm param what then
      { s with args := left }
    else if cm.type = .member then
      let r := doModeCharMemberModeNew S R cm what (param.getD []) s.channel
        s.pvar
      ⟨r.1, r.2, left⟩
    else if s.pvar.any (·.letter == cm.letter) then { s with args := left }
    else if cm.paracount ≠ 0 then
      let r :=
        match what with
        | .add => addParamMode S R cm (param.getD []) s.channel s.pvar
        | .del => delParamMode S cm s.channel s.pvar
      ⟨r.1, r.2, left⟩
    else
      match what with
      | .add => { s with channel := s.channel.addFlag cm.letter, args := left }
      | .del => { s with channel := s.channel.delFlag cm.letter, args := left }

/-! ## The mode string -/

def paracountForChanmode (T : ModeTable) (what : What) (mode : Char) : ℕ :=
  if (ListMode.ofLetter mode).isSome then 1
  else
    match T.findChannelModeHandler mode with
    | none => 0
    | some cm => if cm.type = .member then 0 else cm.paracountFor what

def setModeChar (what : What) (c : Char) (s : ModeState) : ModeState :=
  if R.myUser && !R.policy.mlock s.channel c then s
  else
    match ListMode.ofLetter c, S.config.table.findChannelModeHandler c with
    | none, none =>
      if R.myUser then s
      else { s with args := s.args.drop (R.unknownParacount what c) }
    | some lm, _ =>
      if R.restricted c then { s with args := s.args.drop 1 }
      else doModeCharListMode S R what lm s
    | none, some cm =>
      if R.restricted c then
        { s with
          args := s.args.drop
            (paracountForChanmode S.config.table what c) }
      else doExtmodeChar S R cm what s

/-- The loop of `set_mode` over the mode string. -/
def setModeLoop : What → List Char → ModeState → ModeState
  | _, [], s => s
  | what, c :: modes, s =>
    if c = '+' then setModeLoop .add modes s
    else if c = '-' then setModeLoop .del modes s
    else setModeLoop what modes (setModeChar S R what c s)

/-- `set_mode`: the channel and the changes with a parameter. -/
def setMode (ch : Channel) (modes : List Char) (args : List (List Char)) :
    Channel × List ModeChange :=
  let s := setModeLoop S R .add modes ⟨ch, [], args⟩
  (s.channel, s.pvar)

end

/-! ## Building the lines -/

/-- A line of a mode change: the letters and the parameters. -/
structure ModeLine where
  modeline : List Char
  paramline : List Char
  deriving DecidableEq, Repr

/-- A letter behind its sign.  The sign is written if it was another one. -/
def signedLetter (sign : Option What) (what : What) (letter : Char) :
    List Char :=
  if sign = some what then [letter]
  else [if what = .add then '+' else '-', letter]

/-- The flags that were set and those that were unset, in the first line. -/
def flagLetters (T : ModeTable) (what : What) (old new : Finset Char) :
    List Char :=
  (T.channelmodes.filter fun cm =>
    match what with
    | .add => decide (cm.paracount = 0 ∧ cm.letter ∈ new ∧ cm.letter ∉ old)
    | .del => decide (cm.unsetWithParam = false ∧ cm.letter ∉ new ∧
        cm.letter ∈ old)).map Cmode.letter

def withSign (sign : Char) (letters : List Char) : List Char :=
  if letters = [] then [] else sign :: letters

def signAfter (added removed : List Char) : Option What :=
  if removed ≠ [] then some .del
  else if added ≠ [] then some .add
  else none

/-- The loop of `make_mode_str` over `pvar`: the finished lines, the line in
progress and the sign in force in it.  A change that needs a fifth line is
dropped, with all that follow. -/
def makeModeStrLoop : List ModeLine → ModeLine → Option What →
    List ModeChange → List ModeLine
  | lines, line, _, [] => lines ++ [line]
  | lines, line, sign, change :: pvar =>
    let letter sign := signedLetter sign change.what change.letter
    let next (line : ModeLine) (sign : Option What) : ModeLine :=
      ⟨(line.modeline ++ letter sign).take (bufsize - 1),
        strlcat (strlcat line.paramline change.param bufsize) [' ']
          bufsize⟩
    if line.modeline.length + line.paramline.length +
        change.param.length > 507 then
      if lines.length = 3 then lines ++ [line]
      else
        makeModeStrLoop (lines ++ [line]) (next ⟨[], []⟩ none)
          (some change.what) pvar
    else
      makeModeStrLoop lines (next line sign) (some change.what) pvar

def ModeLine.strip (line : ModeLine) : ModeLine :=
  if line.paramline.getLast? = some ' ' then
    { line with paramline := line.paramline.dropLast }
  else line

def emptyMode (m : List Char) : Bool :=
  m == [] || m == ['+'] || m == ['-']

def makeModeStr (T : ModeTable) (old new : Finset Char)
    (pvar : List ModeChange) : List ModeLine :=
  let added := flagLetters T .add old new
  let removed := flagLetters T .del old new
  let lines := (makeModeStrLoop []
    ⟨withSign '+' added ++ withSign '-' removed, []⟩
    (signAfter added removed) pvar).map ModeLine.strip
  match lines with
  | [line] => if emptyMode line.modeline then [] else lines
  | _ => lines

end UnrealIrcd.Channels
