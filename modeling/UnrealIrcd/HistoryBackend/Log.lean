import UnrealIrcd.HistoryBackend.Model

/-!
# History logs as lists

What the history backend computes, without pointers: the log is the list of its
lines, each with the number of its arrival, and every call is a function on such
a list.
-/

namespace UnrealIrcd.HistoryBackend

open Support MessageTags

/-- A line with the number of its arrival. -/
abbrev Entry : Type := ℕ × HistoryLogLine

structure Log where
  entries : List Entry
  fresh : ℕ
  numLines : ℤ
  oldestT : ℤ
  maxLines : ℤ
  maxTime : ℤ
  deriving DecidableEq, Repr

namespace Log

/-- Behind the lines kept so far, one more is kept. -/
def keep (log : Log) (e : Entry) : Log :=
  { log with entries := log.entries ++ [e] }

/-- Behind the lines kept so far, one is dropped. -/
def drop (log : Log) (e : Entry) : Log :=
  { log with numLines := log.numLines - e.2.numLines }

/-- Behind the lines kept so far, the rest stays as it is. -/
def keepAll (log : Log) (rest : List Entry) : Log :=
  { log with entries := log.entries ++ rest }

/-- The time of a line is taken into account. -/
def note (log : Log) (e : Entry) : Log :=
  { log with oldestT := olderOf log.oldestT e.2.t }

/-- No line is kept yet. -/
def start (log : Log) : Log := { log with entries := [] }

/-! ## Additions -/

def defaultLimits (log : Log) : Log :=
  if log.maxLines = 0 then { log with maxLines := 50, maxTime := 86400 }
  else log

/-- Lines are dropped from the front until there is room. -/
def evictFrom (incoming : ℤ) (log : Log) : List Entry → Log
  | [] => log
  | e :: rest =>
    if log.numLines + incoming > log.maxLines then
      evictFrom incoming (log.drop e) rest
    else log.keepAll (e :: rest)

def evict (incoming : ℤ) (log : Log) : Log :=
  evictFrom incoming log.start log.entries

/-- The walk backwards: `before` in reverse order is still to be passed, and
`passed` was.  There is no result if the line is there already. -/
def split (l : HistoryLogLine) :
    List Entry → List Entry → Option (List Entry × List Entry)
  | [], passed => some ([], passed)
  | e :: before, passed =>
    if e.2.t < l.t then some ((e :: before).reverse, passed)
    else if e.2.msgid = l.msgid then none
    else if e.2.t = l.t ∧ e.2.time ≤ l.time then
      some ((e :: before).reverse, passed)
    else split l before (e :: passed)

/-- A line is put into its place, unless it is there already. -/
def place (log : Log) (l : HistoryLogLine) : Log × Bool :=
  match split l log.entries.reverse [] with
  | none => ({ log with fresh := log.fresh + 1 }, false)
  | some (before, after) =>
    ({ log with
      entries := before ++ (log.fresh, l) :: after
      fresh := log.fresh + 1
      numLines := log.numLines + l.numLines
      oldestT := olderOf log.oldestT l.t }, true)

def add (log : Log) (l : HistoryLogLine) : Log :=
  ((log.defaultLimits.evict l.numLines).place l).1

section

variable (timegm : Tm → ℤ)

/-- The line that stands for a batch. -/
def batchEntry (env : Env) (mtags : List MessageTag)
    (source cmd target : List Char) (first : List Char × Bool)
    (rest : List (List Char × Bool)) : HistoryLogLine :=
  let l := hbmDuplicateMtags timegm env mtags (batchLine source cmd target first.1)
  let batch := rest.map fun ml => (batchLine source cmd target ml.1, ml.2)
  { l with
    numLines := ((first :: rest).length : ℤ)
    numBytes := l.numBytes + (batch.map fun b => (b.1.length : ℤ)).sum
    batch := batch }

def addMultiline (log : Log) (env : Env) (mtags : List MessageTag)
    (source cmd target : List Char) : List (List Char × Bool) → Log
  | [] => log.defaultLimits
  | first :: rest =>
    log.add (batchEntry timegm env mtags source cmd target first rest)

/-! ## Removals -/

/-- The outcome of deleting lines: the log, and how many lines were deleted and
kept because of their account. -/
def deleteFrom (filter : HistoryFilter) (log : Log) (started : Bool)
    (deleted rejected : ℤ) : List Entry → Log × ℤ × ℤ
  | [] => (log, deleted, rejected)
  | e :: rest =>
    if started || filter.starts e.2 then
      if filter.stops e.2 then
        (log.keepAll (e :: rest), deleted, rejected)
      else if filter.rejects e.2 then
        deleteFrom filter (log.keep e) true deleted (rejected + 1) rest
      else if deleted + 1 ≥ filter.limit then
        ((log.drop e).keepAll rest, deleted + 1, rejected)
      else deleteFrom filter (log.drop e) true (deleted + 1) rejected rest
    else if deleted ≥ filter.limit then
      (log.keepAll (e :: rest), deleted, rejected)
    else deleteFrom filter (log.keep e) false deleted rejected rest

def delete (filter : HistoryFilter) (log : Log) : Log × ℤ × ℤ :=
  deleteFrom filter log.start false 0 0 log.entries

/-- Lines before `redline` are dropped. -/
def expire (redline : ℤ) (log : Log) : List Entry → Log
  | [] => log
  | e :: rest =>
    if e.2.t < redline then expire redline (log.drop e) rest
    else expire redline ((log.note e).keep e) rest

/-- Lines are dropped from the front while there are too many, but not the
last one. -/
def trim (log : Log) : List Entry → Log
  | [] => log
  | e :: rest =>
    if log.numLines > log.maxLines then
      if rest = [] then log.keep e else trim (log.drop e) rest
    else trim ((log.note e).keep e) rest

def cleanupTime (now : ℤ) (log : Log) : Log :=
  if log.oldestT < now - log.maxTime then
    expire (now - log.maxTime) { log.start with oldestT := 0 } log.entries
  else log

def cleanupLines (log : Log) : Log :=
  if log.numLines > log.maxLines then
    trim { log.start with oldestT := 0 } log.entries
  else log

def cleanup (now : ℤ) (log : Log) : Log :=
  cleanupLines (cleanupTime now log)

/-! ## Runs -/

def apply (log : Log) : HistoryOp → Log
  | .add env mtags line => log.add (hbmDuplicateMtags timegm env mtags line)
  | .addMultiline env mtags source cmd target lines =>
    log.addMultiline timegm env mtags source cmd target lines
  | .delete filter => (log.delete filter).1
  | .cleanup now => log.cleanup now
  | .setLimit now maxLines maxTime =>
    cleanup now { log with maxLines := maxLines, maxTime := maxTime }

def empty : Log :=
  { entries := []
    fresh := 0
    numLines := 0
    oldestT := 0
    maxLines := 0
    maxTime := 0 }

def run (ops : List HistoryOp) : Log := ops.foldl (apply timegm) empty

end

end Log

end UnrealIrcd.HistoryBackend
