import UnrealIrcd.UnrealDB.Model

/-!
# Opening and closing database files

`unrealdb_open` and `unrealdb_close`: the file header, the parameters of the
key derivation and of the cipher, and the final block.
-/

namespace UnrealIrcd.UnrealDB

open Support

/-- The key derivation and cipher parameters of a file.  The salt length is
stored as a 16 bit number. -/
structure UnrealDBConfig where
  kdf : UInt16
  tCost : UInt16
  mCost : UInt16
  pCost : UInt16
  salt : List UInt8
  saltlen_lt : salt.length < 2 ^ 16
  cipher : UInt16
  keylen : UInt16
  deriving DecidableEq

namespace UnrealDBConfig

def kdfArgon2id : UInt16 := 1

def cipherXchacha20 : UInt16 := 1

/-- The parameters that `unrealdb_open` accepts when it reads a file. -/
structure Usable (config : UnrealDBConfig) : Prop where
  kdf_eq : config.kdf = kdfArgon2id
  saltlen_le : config.salt.length ≤ 1024
  cipher_eq : config.cipher = cipherXchacha20
  keylen_le : config.keylen ≤ 1024

/-- The parameters of a newly created file, with a random salt of 16 bytes. -/
def fresh (salt : List UInt8) (hsalt : salt.length = 16) : UnrealDBConfig where
  kdf := kdfArgon2id
  tCost := 4
  mCost := 15
  pCost := 2
  salt := salt
  saltlen_lt := by omega
  cipher := cipherXchacha20
  keylen := 32

theorem fresh_usable (salt : List UInt8) (hsalt : salt.length = 16) :
    (fresh salt hsalt).Usable where
  kdf_eq := rfl
  saltlen_le := by simp [fresh, hsalt]
  cipher_eq := rfl
  keylen_le := by
    change (32 : UInt16) ≤ 1024
    decide

def encode (config : UnrealDBConfig) : List UInt8 :=
  leBytes 2 config.kdf.toNat ++ (leBytes 2 config.tCost.toNat ++
    (leBytes 2 config.mCost.toNat ++ (leBytes 2 config.pCost.toNat ++
      (leBytes 2 config.salt.length ++ (config.salt ++
        (leBytes 2 config.cipher.toNat ++ leBytes 2 config.keylen.toNat))))))

end UnrealDBConfig

/-- A secret block: key derivation with its password. -/
structure Secret (S : Sealer UInt8) where
  kdf : UnrealDBConfig → Option S.Key

/-- What an encrypted file is written with: a secret, parameters that are
freshly made or taken from an earlier use of the secret, and the random
secretstream header. -/
structure CryptSetup (S : Sealer UInt8) where
  secret : Secret S
  config : UnrealDBConfig
  usable : config.Usable
  header : List UInt8
  header_length : header.length = secretstreamHeaderBytes

/-- A 32 byte buffer that starts with a text and is filled up with zeroes. -/
def paddedHeader (text : String) : List UInt8 :=
  bytesOf text ++ List.replicate (32 - text.length) 0

def validateText : CString := ⟨bytesOf "UnrealIRCd-DB-Crypted-Now", by decide⟩

variable {S : Sealer UInt8}

/-- `unrealdb_open` for writing; `now` is the current time. -/
def unrealdbOpenWrite (setup : Option (CryptSetup S)) (now : UInt64) :
    Except Failure (Writer S) :=
  match setup with
  | none =>
    .ok (unrealdbWriteInt64 (.plain (paddedHeader "UnrealIRCd-DB-v1")) now)
  | some setup =>
    match setup.secret.kdf setup.config with
    | none => .error ⟨.internal,
        "Could not generate argon2 hash - out of memory or something weird?"⟩
    | some key =>
      let c : CryptWriter S :=
        { fd := paddedHeader "UnrealIRCd-DB-Crypted-v1" ++
            (setup.config.encode ++ setup.header)
          st := S.initPush setup.header key
          buf := []
          buflen_lt := nil_lt_chunk }
      match unrealdbWriteStr (.crypted c) (some validateText) with
      | .error e => .error e
      | .ok c => .ok (unrealdbWriteInt64 c now)

/-- `unrealdb_close` on a file open for writing, which pushes what is left in
the buffer as the final block.  The result is the file on disk. -/
def unrealdbClose : Writer S → List UInt8
  | .plain fd => fd
  | .crypted c => c.fd ++ (S.push c.st c.buf .final).1

/-- What `fgets` puts into a buffer of 32 bytes: up to 31 bytes, not beyond
the first newline. -/
def fgets32 (file : List UInt8) : List UInt8 :=
  let line := file.take 31
  line.takeWhile (· != 10) ++ (line.dropWhile (· != 10)).take 1

/-- `unrealdb_open` for reading without a secret. -/
def openReadPlain (file : List UInt8) :
    Except Failure (Reader S × Option UInt64) :=
  if file = [] then
    .ok (.plain file, none)
  else
    let buf := cstring (fgets32 file)
    if bytesOf "UnrealIRCd-DB-Crypted" <+: buf then
      .error ⟨.crypted, "file is encrypted but no password provided"⟩
    else if buf = bytesOf "UnrealIRCd-DB-v1" then
      match unrealdbReadInt64 (.plain (file.drop 32)) with
      | .error _ => .error ⟨.header, "Header is too short (A4)"⟩
      | .ok (creationtime, c) => .ok (c, some creationtime)
    else if bytesOf "UnrealIRCd-DB" <+: buf then
      .error ⟨.header, "Unsupported version of database. Is this database perhaps created on a new version of UnrealIRCd and are you trying to use it on an older UnrealIRCd version? (Downgrading is not supported!)"⟩
    else
      -- The old format has no header.
      .ok (.plain file, none)

/-- `fread` of a fixed number of bytes, or the given failure. -/
def fread (fd : List UInt8) (len : ℕ) (e : Failure) :
    Except Failure (List UInt8 × List UInt8) :=
  if fd.length < len then .error e else .ok (fd.take len, fd.drop len)

def freadInt16 (fd : List UInt8) (e : Failure) :
    Except Failure (UInt16 × List UInt8) :=
  (fread fd 2 e).map fun (buf, fd) => (UInt16.ofNat (leValue buf), fd)

def hex (n : UInt16) : String := String.ofList (Nat.toDigits 16 n.toNat)

def headerCorrupt : Failure := ⟨.header, "Header is corrupt/unknown/invalid"⟩

/-- The parameters of an encrypted file, checked as they are read. -/
def readConfig (fd : List UInt8) :
    Except Failure (UnrealDBConfig × List UInt8) := do
  let (kdf, fd) ← freadInt16 fd headerCorrupt
  let (tCost, fd) ← freadInt16 fd headerCorrupt
  let (mCost, fd) ← freadInt16 fd headerCorrupt
  let (pCost, fd) ← freadInt16 fd headerCorrupt
  let (saltlen, fd) ← freadInt16 fd headerCorrupt
  if kdf ≠ UnrealDBConfig.kdfArgon2id then
    .error ⟨.header, s!"Header contains unknown KDF 0x{hex kdf}"⟩
  else if saltlen > 1024 then
    .error ⟨.header, s!"Header is corrupt (saltlen={saltlen})"⟩
  else
    let (salt, fd) ← fread fd saltlen.toNat
      ⟨.header, "Header is too short (2)"⟩
    let (cipher, fd) ← freadInt16 fd
      ⟨.header, "Header is corrupt/unknown/invalid (3)"⟩
    let (keylen, fd) ← freadInt16 fd
      ⟨.header, "Header is corrupt/unknown/invalid (3)"⟩
    if cipher ≠ UnrealDBConfig.cipherXchacha20 then
      .error ⟨.header, s!"Header contains unknown cipher 0x{hex cipher}"⟩
    else if keylen > 1024 then
      .error ⟨.header, s!"Header is corrupt (keylen={keylen})"⟩
    else if hsalt : salt.length < 2 ^ 16 then
      .ok (⟨kdf, tCost, mCost, pCost, salt, hsalt, cipher, keylen⟩, fd)
    else
      .error headerCorrupt

/-- `unrealdb_open` for reading with a secret. -/
def openReadCrypted (secret : Secret S) (file : List UInt8) :
    Except Failure (Reader S × Option UInt64) := do
  let (buf, fd) ← fread file 32
    ⟨.notcrypted, "Not a crypted file (file too small)"⟩
  if buf.take 24 ≠ bytesOf "UnrealIRCd-DB-Crypted-v1" then
    .error ⟨.notcrypted, "Not a crypted file"⟩
  else
    let (config, fd) ← readConfig fd
    match secret.kdf config with
    | none => .error ⟨.internal,
        "Could not generate argon2 hash - out of memory or something weird?"⟩
    | some key =>
      let (header, fd) ← fread fd secretstreamHeaderBytes
        ⟨.header, "Header is too short (3)"⟩
      match S.initPull header key with
      | none => .error ⟨.password,
          "Crypto error - invalid password or corrupt file"⟩
      | some st =>
        match unrealdbReadStr (.crypted ⟨fd, st, []⟩) with
        | .error _ => .error ⟨.password, "Invalid password"⟩
        | .ok (validate, c) =>
          if validate ≠ some validateText then
            .error ⟨.password, "Invalid password"⟩
          else
            match unrealdbReadInt64 c with
            | .error _ => .error ⟨.header, "Header is too short (4)"⟩
            | .ok (creationtime, c) => .ok (c, some creationtime)

/-- `unrealdb_open` for reading. -/
def unrealdbOpenRead (secret : Option (Secret S)) (file : List UInt8) :
    Except Failure (Reader S × Option UInt64) :=
  match secret with
  | none => openReadPlain file
  | some secret => openReadCrypted secret file

/-- Write a database file: open, one write call per value, close. -/
def writeFile
    (setup : Option (CryptSetup S)) (now : UInt64) (values : List Value) :
    Except Failure (List UInt8) :=
  match unrealdbOpenWrite setup now with
  | .error e => .error e
  | .ok c => (writeValues c values).map unrealdbClose

/-- Read a database file: open, one read call per type. -/
def readFile
    (secret : Option (Secret S)) (file : List UInt8)
    (types : List ValueType) : Except Failure (List Value) :=
  match unrealdbOpenRead secret file with
  | .error e => .error e
  | .ok (c, _) => (readValues c types).map Prod.fst

end UnrealIrcd.UnrealDB
