import UnrealIrcd.Support.Decimal
import UnrealIrcd.Support.SealedStream

/-!
# Database files

The typed read and write functions of `unrealdb.c` and the opening and closing
of a file, plain or encrypted.  The cipher is an arbitrary
`Support.Sealer`, which stands for libsodium's secretstream, and key
derivation is an arbitrary function of the parameters stored in the file, so
the cache of derived keys is not needed.  Disk operations do not fail.
-/

namespace UnrealIrcd.UnrealDB

open Support

def cryptFileChunkSize : ℕ := 4096

def secretstreamHeaderBytes : ℕ := 24

def bytesOf (s : String) : List UInt8 :=
  s.toList.map fun c => UInt8.ofNat c.toNat

def cstring (buf : List UInt8) : List UInt8 :=
  buf.takeWhile (· != 0)

inductive UnrealDBError where
  | success
  | filenotfound
  | crypted
  | notcrypted
  | header
  | secret
  | password
  | io
  | api
  | internal
  deriving DecidableEq, Repr

/-- A failed call: the error code and text it leaves behind. -/
structure Failure where
  errorCode : UnrealDBError
  errorString : String
  deriving DecidableEq, Repr

/-- A C string: no byte of it is NUL. -/
structure CString where
  bytes : List UInt8
  no_nul : 0 ∉ bytes
  deriving DecidableEq

/-- A value of one of the types that can be stored; `str none` is the NULL
string. -/
inductive Value where
  | int16 (t : UInt16)
  | int32 (t : UInt32)
  | int64 (t : UInt64)
  | char (t : UInt8)
  | str (x : Option CString)
  deriving DecidableEq

inductive ValueType where
  | int16
  | int32
  | int64
  | char
  | str
  deriving DecidableEq, Repr

def Value.type : Value → ValueType
  | .int16 _ => .int16
  | .int32 _ => .int32
  | .int64 _ => .int64
  | .char _ => .char
  | .str _ => .str

/-! ## Writing -/

theorem nil_lt_chunk : ([] : List UInt8).length < cryptFileChunkSize := by
  decide

/-- A file open for writing with encryption: what was written to disk, the
cipher state, and the plain text that waits for a full block. -/
structure CryptWriter (S : Sealer UInt8) where
  fd : List UInt8
  st : S.Push
  buf : List UInt8
  buflen_lt : buf.length < cryptFileChunkSize

/-- A file open for writing, with or without encryption. -/
inductive Writer (S : Sealer UInt8) where
  | plain (fd : List UInt8)
  | crypted (c : CryptWriter S)

variable {S : Sealer UInt8}

/-- The flush in the loop of `unrealdb_write`: the buffer, filled up with
`filler`, is encrypted and written to disk. -/
def CryptWriter.flush (c : CryptWriter S) (filler : List UInt8) :
    CryptWriter S where
  fd := c.fd ++ (S.push c.st (c.buf ++ filler) .message).1
  st := (S.push c.st (c.buf ++ filler) .message).2
  buf := []
  buflen_lt := nil_lt_chunk

/-- The loop of `unrealdb_write` on an encrypted file. -/
def CryptWriter.write (c : CryptWriter S) (buf : List UInt8) :
    CryptWriter S :=
  if hfits : c.buf.length + buf.length < cryptFileChunkSize then
    { c with
      buf := c.buf ++ buf
      buflen_lt := by simpa using hfits }
  else
    let avBytes := cryptFileChunkSize - c.buf.length
    let flushed := c.flush (buf.take avBytes)
    if (buf.drop avBytes).length > 0 then
      flushed.write (buf.drop avBytes)
    else
      flushed
  termination_by buf.length
  decreasing_by
    have hlt := c.buflen_lt
    simp only [List.length_drop]
    omega

def unrealdbWrite (c : Writer S) (wbuf : List UInt8) : Writer S :=
  match c with
  | .plain fd => .plain (fd ++ wbuf)
  | .crypted c => .crypted (c.write wbuf)

def unrealdbWriteInt16 (c : Writer S) (t : UInt16) : Writer S :=
  unrealdbWrite c (leBytes 2 t.toNat)

def unrealdbWriteInt32 (c : Writer S) (t : UInt32) : Writer S :=
  unrealdbWrite c (leBytes 4 t.toNat)

def unrealdbWriteInt64 (c : Writer S) (t : UInt64) : Writer S :=
  unrealdbWrite c (leBytes 8 t.toNat)

def unrealdbWriteChar (c : Writer S) (t : UInt8) : Writer S :=
  unrealdbWrite c [t]

def unrealdbWriteStr (c : Writer S) (x : Option CString) :
    Except Failure (Writer S) :=
  match x with
  | none => .ok (unrealdbWriteInt16 c 0xffff)
  | some s =>
    let stringlen := s.bytes.length
    if stringlen ≥ 0xffff then
      .error ⟨.api, s!"unrealdb_write_str(): string has length {stringlen}, while maximum allowed is 65534"⟩
    else
      let c := unrealdbWriteInt16 c (UInt16.ofNat stringlen)
      .ok (if stringlen > 0 then unrealdbWrite c s.bytes else c)

def writeValue (c : Writer S) : Value → Except Failure (Writer S)
  | .int16 t => .ok (unrealdbWriteInt16 c t)
  | .int32 t => .ok (unrealdbWriteInt32 c t)
  | .int64 t => .ok (unrealdbWriteInt64 c t)
  | .char t => .ok (unrealdbWriteChar c t)
  | .str x => unrealdbWriteStr c x

def writeValues (c : Writer S) : List Value → Except Failure (Writer S)
  | [] => .ok c
  | v :: vs =>
    match writeValue c v with
    | .error e => .error e
    | .ok c => writeValues c vs

/-! ## Reading -/

/-- A file open for reading with encryption: the rest of the file, the cipher
state, and decrypted plain text that was not requested yet. -/
structure CryptReader (S : Sealer UInt8) where
  fd : List UInt8
  st : S.Pull
  buf : List UInt8

/-- A file open for reading, with or without encryption. -/
inductive Reader (S : Sealer UInt8) where
  | plain (fd : List UInt8)
  | crypted (c : CryptReader S)

/-- The loop of `unrealdb_read` on an encrypted file, entered with an empty
buffer: `got` was read already and `len` bytes are missing. -/
def CryptReader.readLoop
    (fd : List UInt8) (st : S.Pull) (got : List UInt8) (len : ℕ) :
    Except Failure (List UInt8 × CryptReader S) :=
  let want := cryptFileChunkSize + S.overhead
  if _hend : fd = [] then
    .error ⟨.io, "Short read - premature end of file??"⟩
  else
    match S.pull st (fd.take want) with
    | none =>
      .error ⟨.io,
        "Failed to decrypt a block - either corrupt or wrong key"⟩
    | some (out, st) =>
      if len > out.length then
        -- A short read has set the end-of-file indicator.
        if fd.length < want then
          .error ⟨.io, "Short read - premature end of file?"⟩
        else
          readLoop (fd.drop want) st (got ++ out) (len - out.length)
      else
        .ok (got ++ out.take len, ⟨fd.drop want, st, out.drop len⟩)
  termination_by fd.length
  decreasing_by
    have hpos : 0 < fd.length := List.length_pos_iff.mpr _hend
    simp only [List.length_drop, cryptFileChunkSize]
    omega

/-- `unrealdb_read` on an encrypted file: first what is in the buffer, then
further blocks if that was not enough. -/
def CryptReader.read (c : CryptReader S) (len : ℕ) :
    Except Failure (List UInt8 × CryptReader S) :=
  if c.buf.length > 0 then
    if len ≤ c.buf.length then
      .ok (c.buf.take len, { c with buf := c.buf.drop len })
    else
      readLoop c.fd c.st c.buf (len - c.buf.length)
  else
    readLoop c.fd c.st [] len

def unrealdbRead (c : Reader S) (len : ℕ) :
    Except Failure (List UInt8 × Reader S) :=
  match c with
  | .plain fd =>
    if fd.length < len then
      .error ⟨.io, s!"Short read - premature end of file (want:{len}, got:{fd.length} bytes)"⟩
    else
      .ok (fd.take len, .plain (fd.drop len))
  | .crypted c =>
    match c.read len with
    | .error e => .error e
    | .ok (buf, c) => .ok (buf, .crypted c)

/-- The integer and character reads: `width` bytes, least significant byte
first. -/
def readNumber (c : Reader S) (width : ℕ) :
    Except Failure (ℕ × Reader S) :=
  match unrealdbRead c width with
  | .error e => .error e
  | .ok (buf, c) => .ok (leValue buf, c)

def unrealdbReadInt16 (c : Reader S) : Except Failure (UInt16 × Reader S) :=
  match readNumber c 2 with
  | .error e => .error e
  | .ok (t, c) => .ok (UInt16.ofNat t, c)

def unrealdbReadInt32 (c : Reader S) : Except Failure (UInt32 × Reader S) :=
  match readNumber c 4 with
  | .error e => .error e
  | .ok (t, c) => .ok (UInt32.ofNat t, c)

def unrealdbReadInt64 (c : Reader S) : Except Failure (UInt64 × Reader S) :=
  match readNumber c 8 with
  | .error e => .error e
  | .ok (t, c) => .ok (UInt64.ofNat t, c)

def unrealdbReadChar (c : Reader S) : Except Failure (UInt8 × Reader S) :=
  match readNumber c 1 with
  | .error e => .error e
  | .ok (t, c) => .ok (UInt8.ofNat t, c)

/-- The string in a buffer that was read from the file: it ends at the first
NUL byte or at the one that is written behind it. -/
def CString.ofBuffer (buf : List UInt8) : CString where
  bytes := cstring buf
  no_nul := by
    intro h
    simpa using List.mem_takeWhile_imp h

/-- `unrealdb_read_str`.  A length above 10000 fails without an error being
set. -/
def unrealdbReadStr (c : Reader S) :
    Except Failure (Option CString × Reader S) :=
  match unrealdbReadInt16 c with
  | .error e => .error e
  | .ok (len, c) =>
    if len = 0xffff then
      .ok (none, c)
    else if len = 0 then
      .ok (some ⟨[], by simp⟩, c)
    else if len > 10000 then
      .error ⟨.success, ""⟩
    else
      match unrealdbRead c len.toNat with
      | .error e => .error e
      | .ok (buf, c) => .ok (some (CString.ofBuffer buf), c)

def readValue (c : Reader S) : ValueType → Except Failure (Value × Reader S)
  | .int16 => (unrealdbReadInt16 c).map fun (t, c) => (.int16 t, c)
  | .int32 => (unrealdbReadInt32 c).map fun (t, c) => (.int32 t, c)
  | .int64 => (unrealdbReadInt64 c).map fun (t, c) => (.int64 t, c)
  | .char => (unrealdbReadChar c).map fun (t, c) => (.char t, c)
  | .str => (unrealdbReadStr c).map fun (x, c) => (.str x, c)

def readValues (c : Reader S) :
    List ValueType → Except Failure (List Value × Reader S)
  | [] => .ok ([], c)
  | t :: ts =>
    match readValue c t with
    | .error e => .error e
    | .ok (v, c) =>
      match readValues c ts with
      | .error e => .error e
      | .ok (vs, c) => .ok (v :: vs, c)

end UnrealIrcd.UnrealDB
