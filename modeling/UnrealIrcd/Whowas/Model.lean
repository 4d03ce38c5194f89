import Mathlib.Data.Int.Notation
import UnrealIrcd.Support.KeyedList
import UnrealIrcd.Support.ChainFamily

/-!
# The nick history

`whowas.c` records the users that left or changed their nick in the array
`WHOWAS`, which is filled round and round.  A record is threaded into the hash
chain of its nick, and, while its user is still online, into the chain of the
user.  Before a slot is used again its old record is taken out of both.
-/

namespace UnrealIrcd.Whowas

open Support

abbrev Nick := List Char

abbrev ClientId := ℕ

/-- The index of a record in `WHOWAS`; pointers to records are such indices. -/
abbrev Slot := ℕ

def whowasHashTableSize : ℕ := 32768

/-- `NICKNAMEHISTORYLENGTH` is set when the server is built.  Nick comparison
and the hash look at the folded characters only. -/
structure Config where
  nicknameHistoryLength : ℕ
  nicknameHistoryLength_pos : 0 < nicknameHistoryLength
  casing : Casing

def Config.hashWhowasName (cfg : Config) (name : Nick) : ℕ :=
  cfg.casing.bucket whowasHashTableSize name

inductive WhoWasEvent where
  | quit
  | nickChange
  | serverTerminating
deriving DecidableEq, Repr

/-- `WhoWas`, without its links.  The hash value -1 of a free slot is `none`. -/
structure WhoWas where
  hashv : Option ℕ
  name : Nick
  event : WhoWasEvent
  logoff : ℤ
  online : Option ClientId
deriving DecidableEq, Repr

/-- The array with its two kinds of chains: by hash value (`next`, `prev`,
`WHOWASHASH`) and by client (`cnext`, `cprev`, `client->user->whowas`). -/
structure State where
  slots : Slot → WhoWas
  hashChains : ChainFamily ℕ
  clientChains : ChainFamily ClientId
  whowasNext : Slot

/-- A record after `memset`, and `hashv = -1`. -/
def WhoWas.free : WhoWas := ⟨none, [], .quit, 0, none⟩

def initwhowas : State where
  slots _ := .free
  hashChains := ⟨fun _ => none, fun _ => some ⟨none, none, ()⟩⟩
  clientChains := ⟨fun _ => none, fun _ => some ⟨none, none, ()⟩⟩
  whowasNext := 0

variable (cfg : Config)

def freeWhowasFields (e : WhoWas) : WhoWas :=
  { e with hashv := none, name := [], event := .quit, logoff := 0 }

/-- `if (e->online) del_whowas_from_clist(&(e->online->user->whowas), e)`. -/
def delFromClientChain (chains : ChainFamily ClientId)
    (online : Option ClientId) (s : Slot) : Option (ChainFamily ClientId) :=
  match online with
  | some client => chains.unlink client s
  | none => some chains

/-- `free_whowas_entry`, for a slot in use. -/
def freeWhowasEntry (S : State) (s : Slot) (hashv : ℕ) : Option State :=
  let S₁ := { S with
    slots := Function.update S.slots s (freeWhowasFields (S.slots s)) }
  (delFromClientChain S₁.clientChains (S₁.slots s).online s).bind
    fun clientChains =>
    (S₁.hashChains.unlink hashv s).map fun hashChains =>
      { S₁ with hashChains := hashChains, clientChains := clientChains }

/-- `create_whowas_entry`; the client's name and the time are all that is
looked at later. -/
def createWhowasEntry (name : Nick) (now : ℤ) (e : WhoWas)
    (event : WhoWasEvent) : WhoWas :=
  { e with
    hashv := some (cfg.hashWhowasName name)
    event := event
    logoff := now
    name := name }

/-- The second part of `add_history`: the record is written and linked. -/
def storeEntry (S : State) (client : ClientId) (name : Nick) (now : ℤ)
    (online : Bool) (event : WhoWasEvent) : Option State :=
  let s := S.whowasNext
  let new := createWhowasEntry cfg name now (S.slots s) event
  let new := { new with online := if online then some client else none }
  let clientChains :=
    if online then S.clientChains.push client s else some S.clientChains
  clientChains.bind fun clientChains =>
    (S.hashChains.push (cfg.hashWhowasName name) s).map fun hashChains =>
      { slots := Function.update S.slots s new
        hashChains := hashChains
        clientChains := clientChains
        whowasNext :=
          if s + 1 = cfg.nicknameHistoryLength then 0 else s + 1 }

/-- `if (new->hashv != -1) free_whowas_entry(new)`. -/
def freeNextSlot (S : State) : Option State :=
  match (S.slots S.whowasNext).hashv with
  | some hashv => freeWhowasEntry S S.whowasNext hashv
  | none => some S

def addHistory (S : State) (client : ClientId) (name : Nick) (now : ℤ)
    (online : Bool) (event : WhoWasEvent) : Option State :=
  (freeNextSlot S).bind fun S => storeEntry cfg S client name now online event

/-- The loop of `off_history`, for at most `n` records. -/
def offHistoryLoop (client : ClientId) : ℕ → Option Slot → State → Option State
  | _, none, S => some S
  | 0, some _, _ => none
  | n + 1, some temp, S =>
    (S.clientChains.nodes temp).bind fun node =>
      (S.clientChains.unlink client temp).bind fun clientChains =>
        offHistoryLoop client n node.next
          { S with
            slots := Function.update S.slots temp
              { S.slots temp with online := none }
            clientChains := clientChains }

def offHistory (S : State) (client : ClientId) : Option State :=
  offHistoryLoop client cfg.nicknameHistoryLength (S.clientChains.head client) S

/-- The loop of `get_history`, for at most `n` records. -/
def getHistoryLoop (S : State) (nick : Nick) (timelimit : ℤ) :
    ℕ → Option Slot → Option (Option ClientId)
  | _, none => some none
  | 0, some _ => none
  | n + 1, some temp =>
    (S.hashChains.nodes temp).bind fun node =>
      if ¬ cfg.casing.same nick (S.slots temp).name then
        getHistoryLoop S nick timelimit n node.next
      else if (S.slots temp).logoff < timelimit then
        getHistoryLoop S nick timelimit n node.next
      else some (S.slots temp).online

/-- `get_history`: the client that had the nick not longer ago than the limit,
if it is still online. -/
def getHistory (S : State) (nick : Nick) (now timelimit : ℤ) :
    Option (Option ClientId) :=
  getHistoryLoop cfg S nick (now - timelimit) cfg.nicknameHistoryLength
    (S.hashChains.head (cfg.hashWhowasName nick))

/-! ## Runs -/

inductive Call where
  | addHistory (client : ClientId) (name : Nick) (now : ℤ) (online : Bool)
      (event : WhoWasEvent)
  | offHistory (client : ClientId)
  | getHistory (nick : Nick) (now timelimit : ℤ)
deriving DecidableEq, Repr

/-- `none` stands for a loop that does not end or a bad pointer. -/
def step (S : State) : Call → Option State
  | .addHistory client name now online event =>
    addHistory cfg S client name now online event
  | .offHistory client => offHistory cfg S client
  | .getHistory nick now timelimit =>
    (getHistory cfg S nick now timelimit).map fun _ => S

def run (S : State) : List Call → Option State
  | [] => some S
  | call :: calls => (step cfg S call).bind fun S' => run S' calls

end UnrealIrcd.Whowas
