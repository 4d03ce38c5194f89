import UnrealIrcd.UnrealDB.RoundTrip

/-!
# Round trip of a whole database file

Opening a file that was just written leads past the header to the text that
was written after it, so the read calls see exactly the format of the values.
-/

namespace UnrealIrcd.UnrealDB

open Support

variable {S : Sealer UInt8}

/-! ## The parameters in the header -/

theorem fread_append (bytes rest : List UInt8) (e : Failure) :
    fread (bytes ++ rest) bytes.length e = .ok (bytes, rest) := by
  simp [fread]

theorem freadInt16_append
    {n : ℕ} (hn : n < 2 ^ 16) (rest : List UInt8) (e : Failure) :
    freadInt16 (leBytes 2 n ++ rest) e = .ok (UInt16.ofNat n, rest) := by
  have h := fread_append (leBytes 2 n) rest e
  rw [length_leBytes] at h
  simp [freadInt16, h, Except.map,
    leValue_leBytes_of_lt (show n < 256 ^ 2 from hn)]

theorem readConfig_encode
    {config : UnrealDBConfig} (h : config.Usable) (rest : List UInt8) :
    readConfig (config.encode ++ rest) = .ok (config, rest) := by
  obtain ⟨kdf, tCost, mCost, pCost, salt, hsalt, cipher, keylen⟩ := config
  obtain ⟨rfl, hsaltlen, rfl, hkeylen⟩ := h
  have hnum : (UInt16.ofNat salt.length).toNat = salt.length :=
    UInt16.toNat_ofNat_of_lt hsalt
  have hsaltlen' : ¬ UInt16.ofNat salt.length > 1024 := by
    rw [gt_iff_lt, UInt16.lt_iff_toNat_lt, hnum]
    exact Nat.not_lt.mpr hsaltlen
  have hkeylen' : ¬ keylen > 1024 := UInt16.not_lt.mpr hkeylen
  have hfield := fun (t : UInt16) => freadInt16_append t.toNat_lt
  have hlen := freadInt16_append hsalt
  simp only [readConfig, UnrealDBConfig.encode, List.append_assoc, bind,
    Except.bind, hfield, hlen, hnum, fread_append, UInt16.ofNat_toNat,
    ne_eq, not_true_eq_false, if_false, if_neg hsaltlen', if_neg hkeylen',
    dif_pos hsalt]

theorem except_map_ok {α β : Type} {x : Except Failure α} {f : α → β} {b : β}
    (h : x.map f = .ok b) : ∃ a, x = .ok a ∧ f a = b := by
  cases x with
  | error e => cases h
  | ok a => exact ⟨a, rfl, by simpa [Except.map] using h⟩

/-! ## Opening -/

theorem openReadPlain_header (now : UInt64) (text : List UInt8) :
    ∃ c : Reader S, openReadPlain (paddedHeader "UnrealIRCd-DB-v1" ++
        (leBytes 8 now.toNat ++ text)) = .ok (c, some now) ∧
      c.Holds text := by
  have hlength : (paddedHeader "UnrealIRCd-DB-v1").length = 32 := by decide
  generalize hrest : leBytes 8 now.toNat ++ text = rest
  have hbuf : cstring (fgets32 (paddedHeader "UnrealIRCd-DB-v1" ++ rest)) =
      bytesOf "UnrealIRCd-DB-v1" := by
    rw [fgets32, List.take_append_of_le_length (by simp [hlength])]
    decide
  have hdrop : (paddedHeader "UnrealIRCd-DB-v1" ++ rest).drop 32 = rest := by
    rw [← hlength, List.drop_left]
  have hne : paddedHeader "UnrealIRCd-DB-v1" ++ rest ≠ [] :=
    List.ne_nil_of_length_pos (by simp [hlength])
  have hcrypted : ¬ bytesOf "UnrealIRCd-DB-Crypted" <+:
      bytesOf "UnrealIRCd-DB-v1" := by decide
  have hholds : (Reader.plain rest : Reader S).Holds
      (leBytes 8 now.toNat ++ text) := hrest.symm
  obtain ⟨c, hread, htext⟩ := unrealdbReadInt64_of_holds hholds
  refine ⟨c, ?_, htext⟩
  simp only [openReadPlain, if_neg hne, hbuf, if_neg hcrypted, if_true, hdrop,
    hread]

theorem openReadCrypted_header {setup : CryptSetup S} {key : S.Key}
    {st : S.Pull} {now : UInt64} {stream text : List UInt8}
    (hkey : setup.secret.kdf setup.config = some key)
    (hst : S.initPull setup.header key = some st)
    (hstream : S.SealedStream cryptFileChunkSize st stream
      (encodeStr (some validateText) ++ (leBytes 8 now.toNat ++ text))) :
    ∃ c : Reader S, openReadCrypted setup.secret
        (paddedHeader "UnrealIRCd-DB-Crypted-v1" ++
          (setup.config.encode ++ (setup.header ++ stream))) =
        .ok (c, some now) ∧ c.Holds text := by
  have hlength : (paddedHeader "UnrealIRCd-DB-Crypted-v1").length = 32 := by
    decide
  have hmagic : (paddedHeader "UnrealIRCd-DB-Crypted-v1").take 24 =
      bytesOf "UnrealIRCd-DB-Crypted-v1" := by decide
  have hopen : (Reader.crypted ⟨stream, st, []⟩).Holds
      (encodeStr (some validateText) ++ (leBytes 8 now.toNat ++ text)) :=
    ⟨_, rfl, .inl hstream⟩
  have hreadable : (Value.str (some validateText)).Readable := by
    change validateText.bytes.length ≤ 10000
    decide
  obtain ⟨c, hvalidate, hholds⟩ := unrealdbReadStr_of_holds hopen hreadable
  obtain ⟨c', htime, htext⟩ := unrealdbReadInt64_of_holds hholds
  refine ⟨c', ?_, htext⟩
  have hmagic_read := fread_append (paddedHeader "UnrealIRCd-DB-Crypted-v1")
  have hheader_read := fread_append setup.header
  rw [hlength] at hmagic_read
  rw [setup.header_length] at hheader_read
  simp only [openReadCrypted, bind, Except.bind, hmagic_read, hmagic,
    ne_eq, not_true_eq_false, if_false, readConfig_encode setup.usable, hkey,
    hheader_read, hst, hvalidate, htime]

/-! ## The whole file -/

/-- A file that was written successfully is opened at the format of its
values. -/
theorem unrealdbOpenRead_of_writeFile
    {setup : Option (CryptSetup S)} {now : UInt64} {values : List Value}
    {file : List UInt8} (h : writeFile setup now values = .ok file) :
    (∀ v ∈ values, v.Accepted) ∧
      ∃ c : Reader S, unrealdbOpenRead (setup.map CryptSetup.secret) file =
          .ok (c, some now) ∧ c.Holds (values.flatMap encodeValue) := by
  rw [writeFile] at h
  cases setup with
  | none =>
    have hopen := unrealdbWrite_extends
      (Writer.plain (paddedHeader "UnrealIRCd-DB-v1") : Writer S)
      (leBytes 8 now.toNat)
    obtain ⟨c, hvalues, rfl⟩ := except_map_ok h
    obtain ⟨hextends, haccepted⟩ := writeValues_extends hvalues
    refine ⟨haccepted, ?_⟩
    have hall := hopen.trans hextends
    cases c with
    | crypted c => exact hall.elim
    | plain fd =>
      obtain ⟨c, hread, hholds⟩ := openReadPlain_header (S := S) now
        (values.flatMap encodeValue)
      refine ⟨c, ?_, hholds⟩
      rw [← hread]
      exact congrArg openReadPlain hall
  | some setup =>
    simp only [unrealdbOpenWrite] at h
    cases hkey : setup.secret.kdf setup.config with
    | none => simp [hkey] at h
    | some key =>
      simp only [hkey] at h
      generalize hstart : (CryptWriter.mk _ _ _ _ : CryptWriter S) = start
        at h
      cases hvalidate : unrealdbWriteStr (.crypted start)
          (some validateText) with
      | error e => simp [hvalidate] at h
      | ok c₁ =>
        simp only [hvalidate] at h
        obtain ⟨c, hvalues, rfl⟩ := except_map_ok h
        obtain ⟨hextends, haccepted⟩ := writeValues_extends hvalues
        refine ⟨haccepted, ?_⟩
        have hall := (unrealdbWriteStr_extends hvalidate).1.trans
          ((unrealdbWrite_extends c₁ (leBytes 8 now.toNat)).trans hextends)
        obtain ⟨st, hst, hinverts⟩ := S.initPull_inverts setup.header key
        cases c with
        | plain fd => exact hall.elim
        | crypted c =>
          subst hstart
          -- closing completes the sealed stream of everything that was written
          obtain ⟨messages, hsize, hfd, hst', htext⟩ := hall
          rw [List.nil_append] at htext
          have hstream := S.sealedStream_sealAll hinverts hsize c.buflen_lt
          rw [← htext] at hstream
          obtain ⟨c', hread, hholds⟩ := openReadCrypted_header hkey hst hstream
          refine ⟨c', ?_, hholds⟩
          rw [← hread, unrealdbClose, hfd, hst']
          simp [unrealdbOpenRead]

/-! ## Acceptance -/

theorem exists_writeValue {v : Value} (h : v.Accepted) (c : Writer S) :
    ∃ c', writeValue c v = .ok c' := by
  cases v with
  | str x =>
    cases x with
    | none => exact ⟨_, rfl⟩
    | some s =>
      have hlen : ¬ s.bytes.length ≥ 0xffff := Nat.not_le.mpr h
      simp only [writeValue, unrealdbWriteStr, if_neg hlen]
      exact ⟨_, rfl⟩
  | _ => exact ⟨_, rfl⟩

theorem exists_writeValues
    {values : List Value} (h : ∀ v ∈ values, v.Accepted) (c : Writer S) :
    ∃ c', writeValues c values = .ok c' := by
  induction values generalizing c with
  | nil => exact ⟨c, rfl⟩
  | cons v values ih =>
    obtain ⟨c₁, hfirst⟩ := exists_writeValue (h v (by simp)) c
    obtain ⟨c', hlater⟩ := ih (fun w hw => h w (List.mem_cons_of_mem v hw)) c₁
    exact ⟨c', by simp [writeValues, hfirst, hlater]⟩

theorem exists_writeFile {setup : Option (CryptSetup S)} {values : List Value}
    (hkey : ∀ s ∈ setup, ∃ key, s.secret.kdf s.config = some key)
    (h : ∀ v ∈ values, v.Accepted) (now : UInt64) :
    ∃ file, writeFile setup now values = .ok file := by
  have hopen : ∃ c, unrealdbOpenWrite setup now = .ok c := by
    cases setup with
    | none => exact ⟨_, rfl⟩
    | some s =>
      obtain ⟨key, hs⟩ := hkey s rfl
      have hvalidate : (Value.str (some validateText)).Accepted := by
        change validateText.bytes.length < 0xffff
        decide
      simp only [unrealdbOpenWrite, hs]
      obtain ⟨c, hc⟩ := exists_writeValue hvalidate (.crypted _)
      rw [writeValue] at hc
      rw [hc]
      exact ⟨_, rfl⟩
  obtain ⟨c, hc⟩ := hopen
  obtain ⟨c', hvalues⟩ := exists_writeValues h c
  exact ⟨unrealdbClose c', by simp [writeFile, hc, hvalues, Except.map]⟩

/-- Reading a file back with the types it was written with gives the values
that were written, exactly if none of them is a string of more than 10000
bytes. -/
theorem readFile_writeFile_iff
    {S : Sealer UInt8} (setup : Option (CryptSetup S)) (now : UInt64)
    (values : List Value) (file : List UInt8)
    (hwrite : writeFile setup now values = .ok file) :
    readFile (setup.map CryptSetup.secret) file (values.map Value.type) =
        .ok values ↔
      ∀ s, Value.str (some s) ∈ values → s.bytes.length ≤ 10000 := by
  obtain ⟨haccepted, c, hopen, hholds⟩ := unrealdbOpenRead_of_writeFile hwrite
  rw [← List.append_nil (values.flatMap encodeValue)] at hholds
  rw [← Value.forall_readable_iff, ← readValues_of_holds hholds haccepted]
  simp only [readFile, hopen]

/-- Encryption with a cipher that only pads, for evaluating the model. -/
def paddingSetup : CryptSetup (Sealer.padding 0 17) where
  secret := ⟨fun _ => some ()⟩
  config := UnrealDBConfig.fresh (List.replicate 16 0) rfl
  usable := UnrealDBConfig.fresh_usable _ _
  header := List.replicate 24 0
  header_length := rfl

theorem paddingSetup_key :
    ∀ s ∈ some paddingSetup, ∃ key, s.secret.kdf s.config = some key := by
  intro s hs
  cases Option.mem_some_iff.mp hs
  exact ⟨(), rfl⟩

theorem readFile_writeFile_numbers_and_null :
    ∃ file, writeFile (some paddingSetup) 0
        [.int16 258, .char 7, .str none] = .ok file ∧
      readFile (some paddingSetup.secret) file [.int16, .char, .str] =
        .ok [.int16 258, .char 7, .str none] := by
  have haccepted : ∀ v ∈ [Value.int16 258, .char 7, .str none],
      v.Accepted := by
    simp [Value.Accepted]
  obtain ⟨file, hfile⟩ := exists_writeFile paddingSetup_key haccepted 0
  exact ⟨file, hfile,
    (readFile_writeFile_iff (some paddingSetup) 0 _ file hfile).mpr (by simp)⟩

def longString : CString where
  bytes := List.replicate 10001 97
  no_nul h := absurd (List.eq_of_mem_replicate h) (by decide)

/-- The write call accepts a string of 10001 bytes and the read call refuses
it. -/
theorem readFile_longString :
    ∃ file, writeFile (some paddingSetup) 0 [.str (some longString)] =
        .ok file ∧
      readFile (some paddingSetup.secret) file [.str] =
        .error ⟨.success, ""⟩ := by
  have hlength : longString.bytes.length = 10001 := List.length_replicate
  have haccepted : ∀ v ∈ [Value.str (some longString)], v.Accepted := by
    simp [Value.Accepted, hlength]
  obtain ⟨file, hfile⟩ := exists_writeFile paddingSetup_key haccepted 0
  obtain ⟨-, c, hopen, hholds⟩ := unrealdbOpenRead_of_writeFile hfile
  have hread : unrealdbReadStr c = .error ⟨.success, ""⟩ := by
    have hholds' : c.Holds (encodeStr (some longString) ++ []) := by
      simpa [encodeValue] using hholds
    exact unrealdbReadStr_of_not_readable hholds' (by omega) (by omega)
  refine ⟨file, hfile, ?_⟩
  rw [Option.map_some] at hopen
  simp [readFile, hopen, readValues, readValue, hread, Except.map]

end UnrealIrcd.UnrealDB
