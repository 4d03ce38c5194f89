import UnrealIrcd.UnrealDB.File

/-!
# Reading back what was written

`encodeValue` states the file format of a value.  On the writing side
`Writer.Extends` says which plain text was added to a file since some earlier
moment, on the reading side `Reader.Holds` says which plain text is still to
come; both hide the encryption blocks.  Every write call extends the file by
the format of its value, and every read call takes the format of its value
from the front, except that strings above 10000 bytes are refused.
-/

namespace UnrealIrcd.UnrealDB

open Support List

variable {S : Sealer UInt8}

/-! ## The format -/

def encodeStr : Option CString → List UInt8
  | none => leBytes 2 0xffff
  | some s => leBytes 2 s.bytes.length ++ s.bytes

def encodeValue : Value → List UInt8
  | .int16 t => leBytes 2 t.toNat
  | .int32 t => leBytes 4 t.toNat
  | .int64 t => leBytes 8 t.toNat
  | .char t => [t]
  | .str x => encodeStr x

/-- Values for which the write call succeeds. -/
def Value.Accepted : Value → Prop
  | .str (some s) => s.bytes.length < 0xffff
  | _ => True

/-- Values for which the read call succeeds. -/
def Value.Readable : Value → Prop
  | .str (some s) => s.bytes.length ≤ 10000
  | _ => True

theorem Value.forall_readable_iff (values : List Value) :
    (∀ v ∈ values, v.Readable) ↔
      ∀ s, Value.str (some s) ∈ values → s.bytes.length ≤ 10000 := by
  constructor
  · intro h s hs
    exact h _ hs
  · intro h v hv
    cases v with
    | str x =>
      cases x with
      | none => trivial
      | some s => exact h s hv
    | _ => trivial

/-! ## Writing -/

/-- `c'` has been reached from `c` by writing `text`: full blocks were sealed
and appended, and the rest waits in the buffer. -/
def CryptWriter.Extends (c c' : CryptWriter S) (text : List UInt8) : Prop :=
  ∃ messages, (∀ m ∈ messages, m.length = cryptFileChunkSize) ∧
    c'.fd = c.fd ++ (S.sealAll c.st messages).1 ∧
    c'.st = (S.sealAll c.st messages).2 ∧
    c.buf ++ text = messages.flatten ++ c'.buf

theorem CryptWriter.Extends.trans
    {c c' c'' : CryptWriter S} {text text' : List UInt8}
    (h : c.Extends c' text) (h' : c'.Extends c'' text') :
    c.Extends c'' (text ++ text') := by
  obtain ⟨messages, hsize, hfd, hst, htext⟩ := h
  obtain ⟨messages', hsize', hfd', hst', htext'⟩ := h'
  rw [hst] at hfd' hst'
  refine ⟨messages ++ messages', ?_, ?_, ?_, ?_⟩
  · exact forall_mem_append.mpr ⟨hsize, hsize'⟩
  · rw [hfd', hfd, Sealer.sealAll_append, append_assoc]
  · rw [hst', Sealer.sealAll_append]
  · rw [← append_assoc, htext, append_assoc, htext']
    simp

theorem CryptWriter.flush_extends
    {c : CryptWriter S} {avBytes : ℕ} {buf : List UInt8}
    (hfull : ¬ c.buf.length + buf.length < cryptFileChunkSize)
    (havail : avBytes = cryptFileChunkSize - c.buf.length) :
    c.Extends (c.flush (buf.take avBytes)) (buf.take avBytes) := by
  have hlt := c.buflen_lt
  refine ⟨[c.buf ++ buf.take avBytes], ?_, by simp [flush, Sealer.sealAll],
    by simp [flush, Sealer.sealAll], by simp [flush]⟩
  intro m hm
  rw [mem_singleton.mp hm, length_append, length_take]
  omega

theorem CryptWriter.write_extends (c : CryptWriter S) (buf : List UInt8) :
    c.Extends (c.write buf) buf := by
  fun_induction CryptWriter.write c buf with
  | case1 c buf hfits =>
    exact ⟨[], by simp, by simp [Sealer.sealAll], rfl, by simp⟩
  | case2 c buf hfull avBytes flushed hmore ih =>
    have hflush : c.Extends flushed (buf.take avBytes) :=
      flush_extends hfull rfl
    simpa using hflush.trans ih
  | case3 c buf hfull avBytes flushed hmore =>
    have hflush : c.Extends flushed (buf.take avBytes) :=
      flush_extends hfull rfl
    have hall : buf.take avBytes = buf := by
      apply take_of_length_le
      simp only [length_drop, gt_iff_lt, not_lt] at hmore
      omega
    rwa [hall] at hflush

/-- `c'` has been reached from `c` by writing `text`. -/
def Writer.Extends : Writer S → Writer S → List UInt8 → Prop
  | .plain fd, .plain fd', text => fd' = fd ++ text
  | .crypted c, .crypted c', text => c.Extends c' text
  | _, _, _ => False

theorem Writer.Extends.trans {c c' c'' : Writer S} {text text' : List UInt8}
    (h : c.Extends c' text) (h' : c'.Extends c'' text') :
    c.Extends c'' (text ++ text') := by
  match c, c', c'', h, h' with
  | .plain fd, .plain fd', .plain fd'', h, h' =>
    simp only [Writer.Extends] at h h' ⊢
    rw [h', h, append_assoc]
  | .crypted c, .crypted c', .crypted c'', h, h' =>
    exact CryptWriter.Extends.trans h h'

theorem Writer.Extends.refl (c : Writer S) : c.Extends c [] := by
  cases c with
  | plain fd => simp [Writer.Extends]
  | crypted c => exact ⟨[], by simp, by simp [Sealer.sealAll], rfl, by simp⟩

theorem unrealdbWrite_extends (c : Writer S) (wbuf : List UInt8) :
    c.Extends (unrealdbWrite c wbuf) wbuf := by
  cases c with
  | plain fd => rfl
  | crypted c => exact c.write_extends wbuf

theorem unrealdbWriteStr_extends {c c' : Writer S} {x : Option CString}
    (h : unrealdbWriteStr c x = .ok c') :
    c.Extends c' (encodeStr x) ∧ (Value.str x).Accepted := by
  cases x with
  | none =>
    cases h
    exact ⟨unrealdbWrite_extends c _, trivial⟩
  | some s =>
    simp only [unrealdbWriteStr] at h
    split at h
    · cases h
    · next hlen =>
        have haccepted : s.bytes.length < 0xffff := Nat.lt_of_not_le hlen
        have hfirst : c.Extends
            (unrealdbWriteInt16 c (UInt16.ofNat s.bytes.length))
            (leBytes 2 s.bytes.length) := by
          have hwrite := unrealdbWrite_extends c (leBytes 2 s.bytes.length)
          rwa [unrealdbWriteInt16,
            UInt16.toNat_ofNat_of_lt' (Nat.lt_succ_of_lt haccepted)]
        cases h
        refine ⟨?_, haccepted⟩
        split
        · exact hfirst.trans (unrealdbWrite_extends _ s.bytes)
        · next hzero =>
            have hnil : s.bytes = [] := by
              simpa using hzero
            simpa [encodeStr, hnil] using hfirst

theorem writeValue_extends
    {c c' : Writer S} {v : Value} (h : writeValue c v = .ok c') :
    c.Extends c' (encodeValue v) ∧ v.Accepted := by
  cases v with
  | str x => exact unrealdbWriteStr_extends h
  | _ =>
    cases h
    exact ⟨unrealdbWrite_extends _ _, trivial⟩

theorem writeValues_extends {c c' : Writer S} {values : List Value}
    (h : writeValues c values = .ok c') :
    c.Extends c' (values.flatMap encodeValue) ∧
      ∀ v ∈ values, v.Accepted := by
  induction values generalizing c with
  | nil =>
    cases h
    exact ⟨Writer.Extends.refl _, by simp⟩
  | cons v values ih =>
    rw [writeValues] at h
    cases hv : writeValue c v with
    | error e => simp [hv] at h
    | ok c₁ =>
      rw [hv] at h
      obtain ⟨hfirst, haccepted⟩ := writeValue_extends hv
      obtain ⟨hlater, hall⟩ := ih h
      exact ⟨hfirst.trans hlater, by simpa using ⟨haccepted, hall⟩⟩

/-! ## Reading -/

/-- The plain text that an encrypted file still has to offer. -/
def CryptReader.Holds (c : CryptReader S) (text : List UInt8) : Prop :=
  ∃ plain, text = c.buf ++ plain ∧
    (S.SealedStream cryptFileChunkSize c.st c.fd plain ∨
      c.fd = [] ∧ plain = [])

/-- The plain text that a file still has to offer. -/
def Reader.Holds : Reader S → List UInt8 → Prop
  | .plain fd, text => fd = text
  | .crypted c, text => c.Holds text

theorem CryptReader.readLoop_of_sealed {st : S.Pull} {fd plain : List UInt8}
    (h : S.SealedStream cryptFileChunkSize st fd plain) (got : List UInt8)
    {len : ℕ} (hpos : 0 < len) (hlen : len ≤ plain.length) :
    ∃ c : CryptReader S,
      readLoop fd st got len = .ok (got ++ plain.take len, c) ∧
        c.Holds (plain.drop len) := by
  induction h generalizing got len with
  | @last st st' block message hpull hmessage hblock =>
    have hne : block ≠ [] := ne_nil_of_length_pos (by omega)
    have hshort : block.length ≤ cryptFileChunkSize + S.overhead := by omega
    refine ⟨⟨[], st', message.drop len⟩, ?_, [], by simp, .inr ⟨rfl, rfl⟩⟩
    rw [readLoop]
    simp [hne, take_of_length_le hshort, hpull, Nat.not_lt.mpr hlen,
      drop_eq_nil_of_le hshort]
  | @cons st st' block message blocks plain hpull hmessage hblock hlater ih =>
    have hne : block ++ blocks ≠ [] := by
      refine ne_nil_of_length_pos ?_
      simp only [length_append, hblock, cryptFileChunkSize]
      omega
    have htake : (block ++ blocks).take
        (cryptFileChunkSize + S.overhead) = block := by
      rw [← hblock, take_left]
    have hdrop : (block ++ blocks).drop
        (cryptFileChunkSize + S.overhead) = blocks := by
      rw [← hblock, drop_left]
    by_cases hmore : len > message.length
    · have hlong : ¬ (block ++ blocks).length <
          cryptFileChunkSize + S.overhead := by
        simp only [length_append, hblock]
        omega
      rw [length_append] at hlen
      obtain ⟨c, hread, hholds⟩ := ih (got ++ message)
        (show 0 < len - message.length by omega) (by omega)
      refine ⟨c, ?_, ?_⟩
      · rw [readLoop]
        simp only [dif_neg hne, htake, hpull, if_pos hmore, if_neg hlong,
          hdrop, hread]
        rw [take_append, take_of_length_le (Nat.le_of_lt hmore), append_assoc]
      · rwa [drop_append, drop_eq_nil_of_le (Nat.le_of_lt hmore), nil_append]
    · have hle : len ≤ message.length := Nat.le_of_not_lt hmore
      refine ⟨⟨blocks, st', message.drop len⟩, ?_, plain, ?_, .inl hlater⟩
      · rw [readLoop]
        simp only [dif_neg hne, htake, hpull, if_neg hmore, hdrop]
        rw [take_append_of_le_length hle]
      · rw [drop_append_of_le_length hle]

theorem CryptReader.read_of_holds {c : CryptReader S} {text : List UInt8}
    (h : c.Holds text) {len : ℕ} (hpos : 0 < len) (hlen : len ≤ text.length) :
    ∃ c' : CryptReader S, c.read len = .ok (text.take len, c') ∧
      c'.Holds (text.drop len) := by
  obtain ⟨plain, rfl, hplain⟩ := h
  rw [length_append] at hlen
  by_cases henough : len ≤ c.buf.length
  · refine ⟨{ c with buf := c.buf.drop len }, ?_, plain, ?_, hplain⟩
    · simp [read, henough, Nat.lt_of_lt_of_le hpos henough,
        take_append_of_le_length henough]
    · rw [drop_append_of_le_length henough]
  · -- More than the buffer is requested, so the stream cannot have ended.
    have hsealed : S.SealedStream cryptFileChunkSize c.st c.fd plain := by
      rcases hplain with hsealed | ⟨-, rfl⟩
      · exact hsealed
      · exact absurd (by simpa using hlen) henough
    obtain ⟨c', hread, hholds⟩ := readLoop_of_sealed hsealed c.buf
      (show 0 < len - c.buf.length by omega) (by omega)
    have hbuf : c.buf.length ≤ len := by omega
    refine ⟨c', ?_, ?_⟩
    · rw [take_append, take_of_length_le hbuf, ← hread, read]
      rw [if_neg henough]
      split
      · rfl
      · next hempty =>
          have hnil : c.buf = [] := by simpa using hempty
          simp [hnil]
    · rwa [drop_append, drop_eq_nil_of_le hbuf, nil_append]

theorem unrealdbRead_of_holds {c : Reader S} {bytes rest : List UInt8}
    (h : c.Holds (bytes ++ rest)) (hpos : 0 < bytes.length) :
    ∃ c', unrealdbRead c bytes.length = .ok (bytes, c') ∧ c'.Holds rest := by
  cases c with
  | plain fd =>
    subst h
    exact ⟨.plain rest, by simp [unrealdbRead], rfl⟩
  | crypted c =>
    obtain ⟨c', hread, hholds⟩ := CryptReader.read_of_holds h hpos (by simp)
    rw [take_left] at hread
    rw [drop_left] at hholds
    exact ⟨.crypted c', by simp [unrealdbRead, hread], hholds⟩

variable {rest : List UInt8}

theorem readNumber_of_holds {c : Reader S} {width n : ℕ}
    (h : c.Holds (leBytes width n ++ rest)) (hwidth : 0 < width)
    (hn : n < 256 ^ width) :
    ∃ c', readNumber c width = .ok (n, c') ∧ c'.Holds rest := by
  obtain ⟨c', hread, hholds⟩ := unrealdbRead_of_holds h (by simpa)
  rw [length_leBytes] at hread
  exact ⟨c', by simp [readNumber, hread, leValue_leBytes_of_lt hn], hholds⟩

theorem unrealdbReadInt16_of_holds {c : Reader S} {n : ℕ}
    (h : c.Holds (leBytes 2 n ++ rest)) (hn : n < 2 ^ 16) :
    ∃ c', unrealdbReadInt16 c = .ok (UInt16.ofNat n, c') ∧ c'.Holds rest := by
  obtain ⟨c', hread, hholds⟩ := readNumber_of_holds h (by decide) (by omega)
  exact ⟨c', by simp [unrealdbReadInt16, hread], hholds⟩

theorem unrealdbReadInt64_of_holds {c : Reader S} {t : UInt64}
    (h : c.Holds (leBytes 8 t.toNat ++ rest)) :
    ∃ c', unrealdbReadInt64 c = .ok (t, c') ∧ c'.Holds rest := by
  have ht := t.toNat_lt
  obtain ⟨c', hread, hholds⟩ := readNumber_of_holds h (by decide) (by omega)
  exact ⟨c', by simp [unrealdbReadInt64, hread], hholds⟩

theorem CString.ofBuffer_bytes (s : CString) : CString.ofBuffer s.bytes = s := by
  have htake : cstring s.bytes = s.bytes := by
    refine takeWhile_eq_self_iff.mpr fun c hc => ?_
    have hne : c ≠ 0 := fun h => s.no_nul (h ▸ hc)
    simpa using hne
  cases s
  simpa [CString.ofBuffer] using htake

theorem unrealdbReadStr_of_length {c c' : Reader S} {n : ℕ} (hn : n < 0xffff)
    (hread : unrealdbReadInt16 c = .ok (UInt16.ofNat n, c')) :
    unrealdbReadStr c =
      if n = 0 then .ok (some ⟨[], by simp⟩, c')
      else if 10000 < n then .error ⟨.success, ""⟩
      else
        match unrealdbRead c' n with
        | .error e => .error e
        | .ok (buf, c) => .ok (some (CString.ofBuffer buf), c) := by
  have hnum : (UInt16.ofNat n).toNat = n :=
    UInt16.toNat_ofNat_of_lt (Nat.lt_succ_of_lt hn)
  have hmax : UInt16.ofNat n ≠ 0xffff := by
    rw [ne_eq, ← UInt16.toNat_inj, hnum]
    exact Nat.ne_of_lt hn
  have hzero : UInt16.ofNat n = 0 ↔ n = 0 := by
    rw [← UInt16.toNat_inj, hnum]
    rfl
  have hgt : UInt16.ofNat n > 10000 ↔ 10000 < n := by
    rw [gt_iff_lt, UInt16.lt_iff_toNat_lt, hnum]
    rfl
  simp only [unrealdbReadStr, hread, if_neg hmax, hnum]
  exact if_congr hzero rfl (if_congr hgt rfl rfl)

theorem unrealdbReadStr_of_holds {c : Reader S} {x : Option CString}
    (h : c.Holds (encodeStr x ++ rest)) (hx : (Value.str x).Readable) :
    ∃ c', unrealdbReadStr c = .ok (x, c') ∧ c'.Holds rest := by
  cases x with
  | none =>
    obtain ⟨c', hread, hholds⟩ := unrealdbReadInt16_of_holds h (by decide)
    exact ⟨c', by simp [unrealdbReadStr, hread], hholds⟩
  | some s =>
    have hle : s.bytes.length ≤ 10000 := hx
    rw [encodeStr, append_assoc] at h
    obtain ⟨c', hread, hholds⟩ := unrealdbReadInt16_of_holds h (by omega)
    rw [unrealdbReadStr_of_length (by omega) hread]
    by_cases hnil : s.bytes = []
    · refine ⟨c', ?_, by simpa [hnil] using hholds⟩
      cases s
      simp_all
    · have hpos : 0 < s.bytes.length := length_pos_iff.mpr hnil
      obtain ⟨c'', hread', hholds'⟩ := unrealdbRead_of_holds hholds hpos
      refine ⟨c'', ?_, hholds'⟩
      simp only [if_neg hpos.ne', if_neg (Nat.not_lt.mpr hle), hread',
        CString.ofBuffer_bytes]

/-- A longer one is refused, although the write call accepts it. -/
theorem unrealdbReadStr_of_not_readable {c : Reader S} {s : CString}
    (h : c.Holds (encodeStr (some s) ++ rest))
    (haccepted : s.bytes.length < 0xffff) (hlong : 10000 < s.bytes.length) :
    unrealdbReadStr c = .error ⟨.success, ""⟩ := by
  rw [encodeStr, append_assoc] at h
  obtain ⟨c', hread, -⟩ := unrealdbReadInt16_of_holds h (by omega)
  rw [unrealdbReadStr_of_length haccepted hread, if_neg (by omega),
    if_pos hlong]

theorem readValue_of_holds {c : Reader S} {v : Value}
    (h : c.Holds (encodeValue v ++ rest)) (hv : v.Readable) :
    ∃ c', readValue c v.type = .ok (v, c') ∧ c'.Holds rest := by
  cases v with
  | int16 t =>
    obtain ⟨c', hread, hholds⟩ := unrealdbReadInt16_of_holds h t.toNat_lt
    exact ⟨c', by simp [readValue, Value.type, hread, Except.map], hholds⟩
  | int32 t =>
    have ht := t.toNat_lt
    obtain ⟨c', hread, hholds⟩ := readNumber_of_holds h (by decide) (by omega)
    exact ⟨c', by simp [readValue, Value.type, unrealdbReadInt32, hread,
      Except.map], hholds⟩
  | int64 t =>
    obtain ⟨c', hread, hholds⟩ := unrealdbReadInt64_of_holds h
    exact ⟨c', by simp [readValue, Value.type, hread, Except.map], hholds⟩
  | char t =>
    have ht := t.toNat_lt
    have hbyte : [t] = leBytes 1 t.toNat := by simp [leBytes]
    rw [encodeValue, hbyte] at h
    obtain ⟨c', hread, hholds⟩ := readNumber_of_holds h (by decide) (by omega)
    exact ⟨c', by simp [readValue, Value.type, unrealdbReadChar, hread,
      Except.map], hholds⟩
  | str x =>
    obtain ⟨c', hread, hholds⟩ := unrealdbReadStr_of_holds h hv
    exact ⟨c', by simp [readValue, Value.type, hread, Except.map], hholds⟩

theorem readValue_of_not_readable {c : Reader S} {v : Value}
    (h : c.Holds (encodeValue v ++ rest)) (haccepted : v.Accepted)
    (hv : ¬ v.Readable) : readValue c v.type = .error ⟨.success, ""⟩ := by
  cases v with
  | str x =>
    cases x with
    | none => exact absurd trivial hv
    | some s =>
      have hlong : 10000 < s.bytes.length := Nat.lt_of_not_le hv
      simp [readValue, Value.type,
        unrealdbReadStr_of_not_readable h haccepted hlong, Except.map]
  | _ => exact absurd trivial hv

/-- The read calls give back the values that were written exactly if no string
is longer than 10000 bytes. -/
theorem readValues_of_holds {c : Reader S} {values : List Value}
    (h : c.Holds (values.flatMap encodeValue ++ rest))
    (haccepted : ∀ v ∈ values, v.Accepted) :
    (readValues c (values.map Value.type)).map Prod.fst = .ok values ↔
      ∀ v ∈ values, v.Readable := by
  induction values generalizing c with
  | nil => simp [readValues, Except.map]
  | cons v values ih =>
    rw [flatMap_cons, append_assoc] at h
    have hv_accepted := haccepted v (by simp)
    have hlater := fun w hw => haccepted w (mem_cons_of_mem v hw)
    by_cases hv : v.Readable
    · obtain ⟨c', hread, hholds⟩ := readValue_of_holds h hv
      have hrest := ih hholds hlater
      cases hvalues : readValues c' (values.map Value.type) with
      | error e =>
        simp only [hvalues, Except.map, reduceCtorEq, false_iff] at hrest
        simp [readValues, hread, hvalues, Except.map, hv, hrest]
      | ok result =>
        simp only [hvalues, Except.map, Except.ok.injEq] at hrest
        simp [readValues, hread, hvalues, Except.map, hv, hrest]
    · have hread := readValue_of_not_readable h hv_accepted hv
      simp [readValues, hread, Except.map, hv]

end UnrealIrcd.UnrealDB
