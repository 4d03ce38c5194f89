import Mathlib.Algebra.GroupWithZero.Nat
import UnrealIrcd.Support.LineSplit

/-!
# The receive queue

The receive queue of `dbuf.c`: a list of fixed-size blocks that incoming bytes
are appended to, and from which one line at a time is extracted.

A block carries the proof that its data fits, and a queue carries the proof
that its `length` counter is the number of bytes in its blocks, so that both
facts hold after every operation by construction.
-/

namespace UnrealIrcd.RecvQ

def dbufBlockSize : ℕ := 8168

/-- Size of the buffer a line is extracted into, which also has to hold the
terminating NUL and one spare byte. -/
def readBufSize : ℕ := 16384

/-- A block: the first `size` bytes of its data array. -/
structure DbufBuf where
  data : List UInt8
  size_le : data.length ≤ dbufBlockSize
  deriving DecidableEq

namespace DbufBuf

def size (block : DbufBuf) : ℕ := block.data.length

def empty : DbufBuf := ⟨[], by simp⟩

def room (block : DbufBuf) : ℕ := dbufBlockSize - block.size

/-- Copy bytes behind the ones in use, as far as there is room. -/
def memcpy (block : DbufBuf) (bytes : List UInt8) : DbufBuf where
  data := block.data ++ bytes.take block.room
  size_le := by
    have h := block.size_le
    simp only [List.length_append, List.length_take, room, size]
    omega

/-- Move the bytes from position `length` on to the front. -/
def memmove (block : DbufBuf) (length : ℕ) : DbufBuf where
  data := block.data.drop length
  size_le := by
    have h := block.size_le
    simp only [List.length_drop]
    omega

@[simp] theorem empty_data : empty.data = [] := rfl

@[simp] theorem empty_room : empty.room = dbufBlockSize := rfl

end DbufBuf

def totalSize (blocks : List DbufBuf) : ℕ :=
  (blocks.map DbufBuf.size).sum

def bytesOf (blocks : List DbufBuf) : List UInt8 :=
  blocks.flatMap DbufBuf.data

@[simp] theorem totalSize_nil : totalSize [] = 0 := rfl

@[simp] theorem totalSize_cons (block : DbufBuf) (blocks : List DbufBuf) :
    totalSize (block :: blocks) = block.size + totalSize blocks := by
  simp [totalSize]

@[simp] theorem totalSize_append (blocks blocks' : List DbufBuf) :
    totalSize (blocks ++ blocks') = totalSize blocks + totalSize blocks' := by
  simp [totalSize]

@[simp] theorem bytesOf_nil : bytesOf [] = [] := rfl

@[simp] theorem bytesOf_cons (block : DbufBuf) (blocks : List DbufBuf) :
    bytesOf (block :: blocks) = block.data ++ bytesOf blocks := by
  simp [bytesOf]

@[simp] theorem bytesOf_append (blocks blocks' : List DbufBuf) :
    bytesOf (blocks ++ blocks') = bytesOf blocks ++ bytesOf blocks' := by
  simp [bytesOf]

theorem length_bytesOf (blocks : List DbufBuf) :
    (bytesOf blocks).length = totalSize blocks := by
  induction blocks with
  | nil => rfl
  | cons block blocks ih => simp [DbufBuf.size, ih]

/-- A queue: its blocks, oldest first, and its byte counter. -/
structure Dbuf where
  dbufList : List DbufBuf
  length : ℕ
  length_eq : length = totalSize dbufList

namespace Dbuf

def bytes (dyn : Dbuf) : List UInt8 := bytesOf dyn.dbufList

/-- `dbuf_alloc`: a fresh block at the end of the list. -/
def dbufAlloc (dyn : Dbuf) : Dbuf where
  dbufList := dyn.dbufList ++ [DbufBuf.empty]
  length := dyn.length
  length_eq := by
    simpa [DbufBuf.size] using dyn.length_eq

def lastRoom (dyn : Dbuf) : ℕ :=
  match dyn.dbufList.getLast? with
  | none => 0
  | some block => block.room

/-- A fresh block is added if the last one has no room left. -/
def withRoom (dyn : Dbuf) : Dbuf :=
  if dyn.lastRoom = 0 then dyn.dbufAlloc else dyn

theorem lastRoom_withRoom_pos (dyn : Dbuf) : 0 < dyn.withRoom.lastRoom := by
  unfold withRoom
  split
  · simp [lastRoom, dbufAlloc, dbufBlockSize]
  · omega

def memcpyLast (dyn : Dbuf) (amount : List UInt8) : Dbuf :=
  match hlast : dyn.dbufList.getLast? with
  | none => dyn
  | some block =>
    { dbufList := dyn.dbufList.dropLast ++ [block.memcpy amount]
      length := dyn.length + (amount.take block.room).length
      length_eq := by
        have hlist := List.dropLast_append_getLast? block hlast
        have h := dyn.length_eq
        rw [← hlist] at h
        simp only [totalSize_append, totalSize_cons, totalSize_nil,
          DbufBuf.size, DbufBuf.memcpy, List.length_append] at h ⊢
        omega }

end Dbuf

def dbufQueueInit : Dbuf := ⟨[], 0, rfl⟩

/-- The loop of `dbuf_put`: fill the last block, or a fresh one if it has no
room left, until everything is copied. -/
def dbufPutLoop (dyn : Dbuf) (buf : List UInt8) : Dbuf :=
  if _hbuf : buf = [] then dyn
  else
    let amount := min dyn.withRoom.lastRoom buf.length
    dbufPutLoop (dyn.withRoom.memcpyLast (buf.take amount)) (buf.drop amount)
  termination_by buf.length
  decreasing_by
    have hpos : 0 < buf.length := List.length_pos_iff.mpr _hbuf
    have hroom := dyn.lastRoom_withRoom_pos
    simp only [List.length_drop]
    omega

def dbufPut (dyn : Dbuf) (buf : List UInt8) : Dbuf :=
  dbufPutLoop (if dyn.dbufList.isEmpty then dyn.dbufAlloc else dyn) buf

/-- The loop of `dbuf_delete` over the blocks and the byte counter. -/
def dbufDeleteLoop : List DbufBuf → ℕ → ℕ → List DbufBuf × ℕ
  | blocks, dynLength, 0 => (blocks, dynLength)
  -- Excluded by the assertion that the queue holds `length` bytes.
  | [], dynLength, _ + 1 => ([], dynLength)
  | block :: blocks, dynLength, length@(_ + 1) =>
    if length < block.size then
      (block.memmove length :: blocks, dynLength - length)
    else
      dbufDeleteLoop blocks (dynLength - block.size) (length - block.size)

theorem dbufDeleteLoop_length_eq {blocks : List DbufBuf} {dynLength length : ℕ}
    (h : dynLength = totalSize blocks) :
    (dbufDeleteLoop blocks dynLength length).2 =
      totalSize (dbufDeleteLoop blocks dynLength length).1 := by
  fun_induction dbufDeleteLoop blocks dynLength length with
  | case1 blocks dynLength | case2 dynLength n => exact h
  | case3 block blocks dynLength n hlt =>
    simp only [totalSize_cons, DbufBuf.size, DbufBuf.memmove,
      List.length_drop] at h hlt ⊢
    omega
  | case4 block blocks dynLength n hlt ih =>
    apply ih
    simp only [totalSize_cons] at h
    omega

/-- `dbuf_delete`: remove bytes from the front of the queue. -/
def dbufDelete (dyn : Dbuf) (length : ℕ) : Dbuf where
  dbufList := (dbufDeleteLoop dyn.dbufList dyn.length length).1
  length := (dbufDeleteLoop dyn.dbufList dyn.length length).2
  length_eq := dbufDeleteLoop_length_eq dyn.length_eq

/-- The phases of `dbuf_getmsg`. -/
inductive Phase where
  /-- Phase 0: empty characters before the line. -/
  | before
  /-- Phase 1: copying the line. -/
  | line
  /-- Phase 2: empty characters after the line. -/
  | after
  deriving DecidableEq, Repr

/-- The local variables of `dbuf_getmsg`; `buf` is what was written through
`p`. -/
structure Scan where
  phase : Phase
  lineBytes : ℕ
  emptyBytes : ℕ
  buf : List UInt8
  deriving DecidableEq, Repr

/-- The state in which `dbuf_getmsg` starts its scan. -/
def Scan.start : Scan := ⟨.before, 0, 0, []⟩

def isEol (c : UInt8) : Bool := c == 13 || c == 10

def isBlank (c : UInt8) : Bool := c == 32

/-- Phase 1 on one byte of the line: it is counted, and copied while there is
room for it. -/
def Scan.copyByte (s : Scan) (c : UInt8) : Scan :=
  { s with
    phase := .line
    lineBytes := s.lineBytes + 1
    buf := if s.lineBytes < readBufSize - 2 then s.buf ++ [c] else s.buf }

/-- One byte of the inner loop of `dbuf_getmsg`; `none` is the `return` at the
first byte of a following line. -/
def scanByte (s : Scan) (c : UInt8) : Option Scan :=
  if isEol c || (isBlank c && s.phase != .line) then
    some { s with
      emptyBytes := s.emptyBytes + 1
      phase := if s.phase = .line then .after else s.phase }
  else
    match s.phase with
    | .before | .line => some (s.copyByte c)
    | .after => none

/-- The inner loop over one block.  The flag says that the loop was left by
`return`. -/
def scanBlock (s : Scan) : List UInt8 → Scan × Bool
  | [] => (s, false)
  | c :: data =>
    match scanByte s c with
    | none => (s, true)
    | some s => scanBlock s data

/-- The outer loop over the blocks of the queue. -/
def scanBlocks (s : Scan) : List DbufBuf → Scan × Bool
  | [] => (s, false)
  | block :: blocks =>
    match scanBlock s block.data with
    | (s, true) => (s, true)
    | (s, false) => scanBlocks s blocks

structure Getmsg where
  ret : ℕ
  buf : List UInt8
  dyn : Dbuf

def dbufGetmsg (dyn : Dbuf) : Getmsg :=
  let (s, returned) := scanBlocks .start dyn.dbufList
  -- Not a complete line if the end of the queue was reached before phase 2.
  let lineBytes := if !returned && s.phase != .after then 0 else s.lineBytes
  let buf := if !returned && s.phase != .after then [] else s.buf
  { ret := min lineBytes (readBufSize - 2)
    buf := buf
    dyn := dbufDelete dyn (lineBytes + s.emptyBytes) }

/-- The line handed to the caller: a return value of 0 means there is none. -/
def Getmsg.line? (m : Getmsg) : Option (List UInt8) :=
  if m.ret = 0 then none else some m.buf

/-- The reference split of a byte stream: cut at CR and LF, leading spaces
stripped, empty lines dropped, longer lines cut to the buffer size. -/
def referenceSplit (stream : List UInt8) : List (List UInt8) :=
  Support.lineSplit isEol isBlank (readBufSize - 2) stream

end UnrealIrcd.RecvQ
