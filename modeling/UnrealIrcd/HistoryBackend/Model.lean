import UnrealIrcd.MessageTags.Model
import UnrealIrcd.Support.Decimal
import UnrealIrcd.Support.LinkedList
import Mathlib.Data.Char
import Mathlib.Data.List.Lex

/-!
# The history backend

The history log of one object in `history_backend_mem.c`: a doubly linked list
of lines in memory, with a count of the lines and the time of the oldest one.

A function has no result if it follows a NULL pointer or aborts.  Memory is
handed out in the order of addresses and not used again, so that an address
also tells when a line arrived.  Loops over the list take a bound on the number
of rounds; no list has more nodes than there were allocations.
-/

namespace UnrealIrcd.HistoryBackend

open Support MessageTags

/-! ## Time -/

/-- The fields of a `struct tm` that are set from a timestamp. -/
structure Tm where
  year : ℤ
  mon : ℤ
  mday : ℤ
  hour : ℤ
  min : ℤ
  sec : ℤ
  deriving DecidableEq, Repr

/-- The `sscanf` call of `server_time_to_unix_time`, if it makes all its
conversions. -/
def scanTimestamp (tbuf : List Char) : Option Tm := do
  let (year, s) ← scanInt tbuf
  let s ← scanChar '-' s
  let (mon, s) ← scanInt s
  let s ← scanChar '-' s
  let (mday, s) ← scanInt s
  let s ← scanChar 'T' s
  let (hour, s) ← scanInt s
  let s ← scanChar ':' s
  let (min, s) ← scanInt s
  let s ← scanChar ':' s
  let (sec, s) ← scanInt s
  let s ← scanChar '.' s
  let _ ← scanInt s
  return { year := year - 1900, mon := mon - 1, mday, hour, min, sec }

section

variable (timegm : Tm → ℤ)

/-- `server_time_to_unix_time`, with the library function `timegm`. -/
def serverTimeToUnixTime (tbuf : List Char) : ℤ :=
  if tbuf.length < 20 then 0
  else
    match scanTimestamp tbuf with
    | none => 0
    | some tm => timegm tm

/-! ## Lines -/

/-- A line of the log.  `batch` are the further lines of a multi-line batch,
each with its `concat` flag; they are not part of the linked list. -/
structure HistoryLogLine where
  t : ℤ
  time : List Char
  msgid : List Char
  mtags : List MessageTag
  line : List Char
  numLines : ℤ
  numBytes : ℤ
  batch : List (List Char × Bool)
  deriving DecidableEq, Repr

structure HistoryLogObject where
  heap : Heap HistoryLogLine
  fresh : ℕ
  head : Option ℕ
  tail : Option ℕ
  numLines : ℤ
  oldestT : ℤ
  maxLines : ℤ
  maxTime : ℤ
  dirty : Bool

/-- What the environment provides when a line is added: the current time as a
timestamp and a random identifier, for lines that come without. -/
structure Env where
  nowTag : List Char
  randomMsgid : List Char

def findMtag (mtags : List MessageTag) (name : String) : Option MessageTag :=
  mtags.find? fun m => m.name = name.toList

/-- `hbm_duplicate_mtags`, for a new line with the given text. -/
def hbmDuplicateMtags (env : Env) (mtags : List MessageTag)
    (line : List Char) : HistoryLogLine :=
  let time := (findMtag mtags "time").elim env.nowTag
    fun m => m.value.getD []
  let mtags :=
    if (findMtag mtags "time").isNone then
      ⟨"time".toList, some env.nowTag⟩ :: mtags
    else mtags
  let found := (findMtag mtags "msgid").bind MessageTag.value
  { t := serverTimeToUnixTime timegm time
    time := time
    msgid := found.getD env.randomMsgid
    mtags :=
      if found.isNone then ⟨"msgid".toList, some env.randomMsgid⟩ :: mtags
      else mtags
    line := line
    numLines := 1
    numBytes := line.length
    batch := [] }

/-! ## The list -/

def hbmHistoryAddLineAfterPosition
    (h : HistoryLogObject) (after : Option ℕ) (n : ℕ) :
    Option HistoryLogObject :=
  match after with
  | none => do
      -- New head
      let heap ← h.heap.setNext n h.head
      let head ← h.head
      let heap ← heap.setPrev head (some n)
      return { h with heap, head := some n }
  | some after => do
      let node ← h.heap after
      match node.next with
      | none =>
        -- New tail
        if some after ≠ h.tail then none
        else do
          let heap ← h.heap.setNext after (some n)
          let heap ← heap.setPrev n h.tail
          return { h with heap, tail := some n }
      | some next => do
          let heap ← h.heap.setPrev next (some n)
          let heap ← heap.setNext n (some next)
          let heap ← heap.setNext after (some n)
          let heap ← heap.setPrev n (some after)
          return { h with heap }

/-- What the walk through the log finds. -/
inductive Position where
  /-- The line is there already. -/
  | duplicate
  /-- The line belongs after this one, or at the beginning. -/
  | after (e : Option ℕ)
  deriving DecidableEq, Repr

/-- The walk backwards in `hbm_history_add_line_in_time`. -/
def findPosition (heap : Heap HistoryLogLine) (l : HistoryLogLine) :
    ℕ → Option ℕ → Option Position
  | _, none => some (.after none)
  | 0, some _ => none
  | fuel + 1, some e => do
      let node ← heap e
      if node.val.t < l.t then return .after (some e)
      else if node.val.msgid = l.msgid then return .duplicate
      else if node.val.t = l.t ∧ node.val.time ≤ l.time then
        return .after (some e)
      else findPosition heap l fuel node.prev

def allocLine (h : HistoryLogObject) (l : HistoryLogLine) :
    HistoryLogObject :=
  { h with
    heap := h.heap.write h.fresh ⟨none, none, l⟩
    fresh := h.fresh + 1 }

/-- `hbm_history_add_line_in_time`, for the line in `n`.  The flag is `false`
if the line was there already. -/
def hbmHistoryAddLineInTime
    (h : HistoryLogObject) (n : ℕ) (l : HistoryLogLine) :
    Option (HistoryLogObject × Bool) := do
  match ← findPosition h.heap l h.fresh h.tail with
  | .duplicate => return (h, false)
  | .after e => return (← hbmHistoryAddLineAfterPosition h e n, true)

/-- The first part of `hbm_history_add_line`: the line is put into the list,
unless it is there already. -/
def placeLine (h : HistoryLogObject) (n : ℕ) (l : HistoryLogLine) :
    Option (HistoryLogObject × Bool) :=
  match h.tail with
  | none => some ({ h with head := some n, tail := some n }, true)
  | some tail => do
      let node ← h.heap tail
      if l.t > node.val.t then
        -- Append to tail
        let heap ← h.heap.setNext tail (some n)
        let heap ← heap.setPrev n (some tail)
        return ({ h with heap, tail := some n }, true)
      else
        hbmHistoryAddLineInTime h n l

/-- The time of the oldest line, after one more line. -/
def olderOf (oldestT t : ℤ) : ℤ :=
  if oldestT = 0 ∨ t < oldestT then t else oldestT

/-- `hbm_history_add_line`.  The result has the address of the line, unless it
was there already. -/
def hbmHistoryAddLine (env : Env) (h : HistoryLogObject)
    (mtags : List MessageTag) (line : List Char) :
    Option (HistoryLogObject × Option ℕ) := do
  let l := hbmDuplicateMtags timegm env mtags line
  let (placed, added) ← placeLine (allocLine h l) h.fresh l
  if added then
    return ({ placed with
      dirty := true
      numLines := placed.numLines + 1
      oldestT := olderOf placed.oldestT l.t }, some h.fresh)
  else
    return ({ placed with heap := placed.heap.erase h.fresh }, none)

def hbmHistoryDelLine (h : HistoryLogObject) (l : ℕ) :
    Option HistoryLogObject := do
  let node ← h.heap l
  let heap ← h.heap.setNextIf node.prev node.next
  let heap ← heap.setPrevIf node.next node.prev
  return { h with
    heap := heap.erase l
    head := if h.head = some l then node.next else h.head
    tail := if h.tail = some l then node.prev else h.tail
    dirty := true
    numLines := h.numLines - node.val.numLines }

/-! ## Additions -/

def defaultLimits (h : HistoryLogObject) : HistoryLogObject :=
  if h.maxLines = 0 then { h with maxLines := 50, maxTime := 86400 } else h

/-- The loop that makes room for `incoming` lines. -/
def evict (incoming : ℤ) : ℕ → HistoryLogObject → Option HistoryLogObject
  | 0, _ => none
  | fuel + 1, h =>
    match h.head with
    | none => some h
    | some head =>
      if h.numLines + incoming > h.maxLines then do
        evict incoming fuel (← hbmHistoryDelLine h head)
      else some h

def hbmHistoryAdd (env : Env) (h : HistoryLogObject)
    (mtags : List MessageTag) (line : List Char) :
    Option HistoryLogObject := do
  let h := defaultLimits h
  let h ← evict 1 (h.fresh + 1) h
  let (h, _) ← hbmHistoryAddLine timegm env h mtags line
  return h

/-- The text of a line, as `snprintf` writes it into a buffer of 512 bytes. -/
def batchLine (source cmd target text : List Char) : List Char :=
  (':' :: source ++ ' ' :: cmd ++ ' ' :: target ++ ' ' :: ':' :: text).take 511

/-- `hbm_history_add_multiline`.  The lines of the batch have a text and a
`concat` flag. -/
def hbmHistoryAddMultiline (env : Env) (h : HistoryLogObject)
    (mtags : List MessageTag) (source cmd target : List Char)
    (lines : List (List Char × Bool)) : Option HistoryLogObject := do
  let h := defaultLimits h
  match lines with
  | [] => return h
  | first :: rest =>
    let h ← evict lines.length (h.fresh + 1) h
    let (h, added) ← hbmHistoryAddLine timegm env h mtags
      (batchLine source cmd target first.1)
    match added with
    | none => return h
    | some n =>
      let node ← h.heap n
      let batch := rest.map fun ml =>
        (batchLine source cmd target ml.1, ml.2)
      let val := { node.val with
        numLines := lines.length
        numBytes := node.val.numBytes +
          (batch.map fun b => (b.1.length : ℤ)).sum
        batch := batch }
      return { h with
        heap := h.heap.write n { node with val }
        numLines := h.numLines + rest.length
        dirty := true }

/-! ## Removals -/

/-- What `hbm_history_delete` looks for. -/
structure HistoryFilter where
  timestampA : Option (List Char)
  msgidA : Option (List Char)
  timestampB : Option (List Char)
  msgidB : Option (List Char)
  account : Option (List Char)
  limit : ℤ
  deriving DecidableEq, Repr

/-- The first line that the filter covers. -/
def HistoryFilter.starts (filter : HistoryFilter) (l : HistoryLogLine) :
    Bool :=
  filter.timestampA.any (fun a => decide (a < l.time)) ||
    filter.msgidA.any (fun a => decide (l.msgid = a))

/-- The first line that the filter no longer covers. -/
def HistoryFilter.stops (filter : HistoryFilter) (l : HistoryLogLine) :
    Bool :=
  filter.timestampB.any (fun b => decide (b ≤ l.time)) ||
    filter.msgidB.any (fun b => decide (l.msgid = b))

/-- The line is kept because it belongs to another account. -/
def HistoryFilter.rejects (filter : HistoryFilter) (l : HistoryLogLine) :
    Bool :=
  filter.account.any fun account =>
    decide ((findMtag l.mtags "account").bind MessageTag.value ≠ some account)

/-- The loop of `hbm_history_delete`.  The result has the number of lines
deleted, and of those that were kept because of their account. -/
def deleteLoop (filter : HistoryFilter) :
    ℕ → HistoryLogObject → Option ℕ → Bool → ℤ → ℤ →
      Option (HistoryLogObject × ℤ × ℤ)
  | _, h, none, _, deleted, rejected => some (h, deleted, rejected)
  | 0, _, some _, _, _, _ => none
  | fuel + 1, h, some l, started, deleted, rejected => do
      let node ← h.heap l
      let started := started || filter.starts node.val
      if started then
        if filter.stops node.val then return (h, deleted, rejected)
        else if filter.rejects node.val then
          deleteLoop filter fuel h node.next started deleted (rejected + 1)
        else do
          let h ← hbmHistoryDelLine h l
          if deleted + 1 ≥ filter.limit then return (h, deleted + 1, rejected)
          else
            deleteLoop filter fuel h node.next started (deleted + 1) rejected
      else if deleted ≥ filter.limit then return (h, deleted, rejected)
      else deleteLoop filter fuel h node.next started deleted rejected

def hbmHistoryDelete (filter : HistoryFilter) (h : HistoryLogObject) :
    Option (HistoryLogObject × ℤ × ℤ) :=
  deleteLoop filter (h.fresh + 1) h h.head false 0 0

/-- The loop of `hbm_history_cleanup` that enforces the maximum time. -/
def timeLoop (redline : ℤ) :
    ℕ → HistoryLogObject → Option ℕ → Option HistoryLogObject
  | _, h, none => some h
  | 0, _, some _ => none
  | fuel + 1, h, some l => do
      let node ← h.heap l
      if node.val.t < redline then do
        let h ← hbmHistoryDelLine h l
        timeLoop redline fuel h node.next
      else
        timeLoop redline fuel
          { h with oldestT := olderOf h.oldestT node.val.t } node.next

/-- The loop of `hbm_history_cleanup` that enforces the maximum number of
lines.  The most recent entry is kept. -/
def linesLoop : ℕ → HistoryLogObject → Option ℕ → Option HistoryLogObject
  | _, h, none => some h
  | 0, _, some _ => none
  | fuel + 1, h, some l => do
      let node ← h.heap l
      if h.numLines > h.maxLines then
        if node.next = none then return h
        else do
          let h ← hbmHistoryDelLine h l
          linesLoop fuel h node.next
      else
        linesLoop fuel { h with oldestT := olderOf h.oldestT node.val.t }
          node.next

/-- The part of `hbm_history_cleanup` that enforces the maximum time. -/
def cleanupTime (now : ℤ) (h : HistoryLogObject) : Option HistoryLogObject :=
  if h.oldestT < now - h.maxTime then
    timeLoop (now - h.maxTime) (h.fresh + 1) { h with oldestT := 0 } h.head
  else some h

/-- The part of `hbm_history_cleanup` that enforces the maximum number of
lines. -/
def cleanupLines (h : HistoryLogObject) : Option HistoryLogObject :=
  if h.numLines > h.maxLines then
    linesLoop (h.fresh + 1) { h with oldestT := 0 } h.head
  else some h

def hbmHistoryCleanup (now : ℤ) (h : HistoryLogObject) :
    Option HistoryLogObject := do
  cleanupLines (← cleanupTime now h)

def hbmHistorySetLimit (now maxLines maxTime : ℤ) (h : HistoryLogObject) :
    Option HistoryLogObject :=
  hbmHistoryCleanup now { h with maxLines, maxTime }

/-! ## Runs -/

inductive HistoryOp where
  | add (env : Env) (mtags : List MessageTag) (line : List Char)
  | addMultiline (env : Env) (mtags : List MessageTag)
      (source cmd target : List Char) (lines : List (List Char × Bool))
  | delete (filter : HistoryFilter)
  | cleanup (now : ℤ)
  | setLimit (now maxLines maxTime : ℤ)

def HistoryOp.apply (h : HistoryLogObject) :
    HistoryOp → Option HistoryLogObject
  | .add env mtags line => hbmHistoryAdd timegm env h mtags line
  | .addMultiline env mtags source cmd target lines =>
    hbmHistoryAddMultiline timegm env h mtags source cmd target lines
  | .delete filter => (hbmHistoryDelete filter h).map Prod.fst
  | .cleanup now => hbmHistoryCleanup now h
  | .setLimit now maxLines maxTime => hbmHistorySetLimit now maxLines maxTime h

def emptyObject : HistoryLogObject :=
  { heap := fun _ => none
    fresh := 0
    head := none
    tail := none
    numLines := 0
    oldestT := 0
    maxLines := 0
    maxTime := 0
    dirty := false }

def historyRun (ops : List HistoryOp) : Option HistoryLogObject :=
  ops.foldlM (HistoryOp.apply timegm) emptyObject

end

end UnrealIrcd.HistoryBackend
