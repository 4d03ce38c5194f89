import UnrealIrcd.RecvQ.Model
import UnrealIrcd.Support.IncrementalReader
import Mathlib.Data.List.TakeWhile

/-!
# Chunk independence of the receive queue

The queue is an incremental reader for `referenceSplit`: however a stream is
cut into `dbuf_put` calls, and however these are interleaved with
`dbuf_getmsg` calls, the lines returned are those of the stream.

The blocks disappear first: `bytes_dbufPut`, `bytes_dbufDelete` and
`scanBlocks_eq` reduce every operation to the sequence of bytes held.  Each
phase of the scan then has one lemma, and they are put together along the
shape of the bytes given by `Support.exists_first_line`.
-/

namespace UnrealIrcd.RecvQ

open Support List

/-! ## Appending and deleting bytes -/

namespace Dbuf

@[simp] theorem bytes_dbufAlloc (dyn : Dbuf) :
    dyn.dbufAlloc.bytes = dyn.bytes := by
  simp [bytes, dbufAlloc]

@[simp] theorem bytes_withRoom (dyn : Dbuf) :
    dyn.withRoom.bytes = dyn.bytes := by
  unfold withRoom
  split <;> simp

theorem length_bytes (dyn : Dbuf) : dyn.bytes.length = dyn.length := by
  rw [bytes, length_bytesOf, dyn.length_eq]

theorem bytes_memcpyLast {dyn : Dbuf} {amount : List UInt8}
    (hpos : 0 < dyn.lastRoom) (hroom : amount.length ≤ dyn.lastRoom) :
    (dyn.memcpyLast amount).bytes = dyn.bytes ++ amount := by
  unfold lastRoom at hpos hroom
  unfold memcpyLast
  split
  · next hlast => simp [hlast] at hpos
  · next block hlast =>
      have hlist := dropLast_append_getLast? block hlast
      have hdata : (block.memcpy amount).data = block.data ++ amount := by
        simp only [hlast] at hroom
        simp [DbufBuf.memcpy, take_of_length_le hroom]
      calc
        bytesOf (dyn.dbufList.dropLast ++ [block.memcpy amount]) =
            bytesOf (dyn.dbufList.dropLast ++ [block]) ++ amount := by
          simp [hdata]
        _ = bytesOf dyn.dbufList ++ amount := by rw [hlist]

end Dbuf

theorem bytes_dbufPutLoop (dyn : Dbuf) (buf : List UInt8) :
    (dbufPutLoop dyn buf).bytes = dyn.bytes ++ buf := by
  fun_induction dbufPutLoop dyn buf with
  | case1 dyn => simp
  | case2 dyn buf hbuf amount ih =>
    have hamount : (buf.take amount).length ≤ dyn.withRoom.lastRoom := by
      simp only [length_take, amount]
      omega
    rw [ih, Dbuf.bytes_memcpyLast dyn.lastRoom_withRoom_pos hamount]
    simp

/-- `dbuf_put` appends its argument to the bytes held. -/
theorem bytes_dbufPut (dyn : Dbuf) (buf : List UInt8) :
    (dbufPut dyn buf).bytes = dyn.bytes ++ buf := by
  rw [dbufPut, bytes_dbufPutLoop]
  split <;> simp

theorem bytesOf_dbufDeleteLoop (blocks : List DbufBuf) (dynLength length : ℕ) :
    bytesOf (dbufDeleteLoop blocks dynLength length).1 =
      (bytesOf blocks).drop length := by
  fun_induction dbufDeleteLoop blocks dynLength length with
  | case1 blocks dynLength | case2 dynLength n => simp
  | case3 block blocks dynLength n hlt =>
    have hle : n + 1 ≤ block.data.length := Nat.le_of_lt hlt
    simp [DbufBuf.memmove, drop_append_of_le_length hle]
  | case4 block blocks dynLength n hlt ih =>
    have hle : block.data.length ≤ n + 1 := Nat.le_of_not_lt hlt
    rw [ih, bytesOf_cons, drop_append, drop_eq_nil_of_le hle]
    rfl

theorem bytes_dbufDelete (dyn : Dbuf) (length : ℕ) :
    (dbufDelete dyn length).bytes = dyn.bytes.drop length :=
  bytesOf_dbufDeleteLoop dyn.dbufList dyn.length length

/-! ## The scan, phase by phase -/

theorem scanBlock_append (s : Scan) (xs ys : List UInt8) :
    scanBlock s (xs ++ ys) =
      match scanBlock s xs with
      | (s, true) => (s, true)
      | (s, false) => scanBlock s ys := by
  induction xs generalizing s with
  | nil => rfl
  | cons c xs ih =>
    simp only [cons_append, scanBlock]
    cases scanByte s c with
    | none => rfl
    | some s' => exact ih s'

/-- The block boundaries do not matter to the scan. -/
theorem scanBlocks_eq (s : Scan) (blocks : List DbufBuf) :
    scanBlocks s blocks = scanBlock s (bytesOf blocks) := by
  induction blocks generalizing s with
  | nil => rfl
  | cons block blocks ih =>
    rw [bytesOf_cons, scanBlock_append, scanBlocks]
    rcases scanBlock s block.data with ⟨s', returned⟩
    cases returned with
    | true => rfl
    | false => exact ih s'

theorem scanBlocks_dbufList (s : Scan) (dyn : Dbuf) :
    scanBlocks s dyn.dbufList = scanBlock s dyn.bytes :=
  scanBlocks_eq s dyn.dbufList

theorem scanBlock_skip
    {s : Scan} {skipped : List UInt8} (hphase : s.phase ≠ .line)
    (hskipped : ∀ c ∈ skipped, isEol c = true ∨ isBlank c = true) :
    scanBlock s skipped =
      ({ s with emptyBytes := s.emptyBytes + skipped.length }, false) := by
  induction skipped generalizing s with
  | nil => rfl
  | cons c skipped ih =>
    have hc : (isEol c || (isBlank c && s.phase != .line)) = true := by
      have h := hskipped c (by simp)
      simpa [hphase] using h
    have hrest := fun d hd => hskipped d (mem_cons_of_mem c hd)
    rw [scanBlock, scanByte, if_pos hc]
    simp only [if_neg hphase]
    rw [ih (s := { s with emptyBytes := s.emptyBytes + 1 }) hphase hrest]
    simp [Nat.add_assoc, Nat.add_comm 1]

theorem scanBlock_line {s : Scan} {line : List UInt8} (hphase : s.phase = .line)
    (hbuf : s.buf.length = min s.lineBytes (readBufSize - 2))
    (hline : ∀ c ∈ line, isEol c = false) :
    scanBlock s line =
      ({ s with
          lineBytes := s.lineBytes + line.length
          buf := s.buf ++ line.take (readBufSize - 2 - s.lineBytes) },
        false) := by
  induction line generalizing s with
  | nil => simp [scanBlock]
  | cons c line ih =>
    have hc : (isEol c || (isBlank c && s.phase != .line)) = false := by
      simp [hline c (by simp), hphase]
    have hrest := fun d hd => hline d (mem_cons_of_mem c hd)
    have hstep : scanByte s c = some (s.copyByte c) := by
      rw [scanByte, hc, hphase]
      rfl
    simp only [scanBlock, hstep]
    by_cases hroom : s.lineBytes < readBufSize - 2
    · have htake : (c :: line).take (readBufSize - 2 - s.lineBytes) =
          c :: line.take (readBufSize - 2 - (s.lineBytes + 1)) := by
        rw [take_cons (by omega)]
        rfl
      rw [ih (s := s.copyByte c) rfl ?_ hrest]
      · simp [Scan.copyByte, hroom, htake, hphase, Nat.add_comm,
          Nat.add_left_comm]
      · simp only [Scan.copyByte, if_pos hroom, length_append, hbuf,
          length_singleton]
        omega
    · have hnone : readBufSize - 2 - s.lineBytes = 0 := by omega
      have hnone' : readBufSize - 2 - (s.lineBytes + 1) = 0 := by omega
      rw [ih (s := s.copyByte c) rfl ?_ hrest]
      · simp [Scan.copyByte, hroom, hnone, hnone', hphase, Nat.add_comm,
          Nat.add_left_comm]
      · simp only [Scan.copyByte, if_neg hroom, hbuf]
        omega

theorem scanBlock_after
    {s : Scan} (hphase : s.phase = .after) (xs : List UInt8) :
    (scanBlock s xs).1 =
      { s with emptyBytes := s.emptyBytes +
          (xs.takeWhile (fun c => isEol c || isBlank c)).length } := by
  induction xs generalizing s with
  | nil => rfl
  | cons c xs ih =>
    have htest : (isEol c || (isBlank c && s.phase != .line)) =
        (isEol c || isBlank c) := by
      rw [hphase, show (Phase.after != Phase.line) = true from rfl,
        Bool.and_true]
    cases hc : isEol c || isBlank c with
    | true =>
      have hstep : scanByte s c =
          some { s with emptyBytes := s.emptyBytes + 1 } := by
        rw [scanByte, htest, hc, hphase]
        rfl
      rw [scanBlock, hstep]
      simp only [ih (s := { s with emptyBytes := s.emptyBytes + 1 }) hphase,
        takeWhile_cons, hc, if_true, length_cons]
      simp [Nat.add_assoc, Nat.add_comm 1]
    | false =>
      have hstep : scanByte s c = none := by
        rw [scanByte, htest, hc, hphase]
        rfl
      simp [scanBlock, hstep, hc]

/-! ## One extraction -/

/-- Bytes that are skipped outside a line. -/
def isEmptyByte (c : UInt8) : Bool := isEol c || isBlank c

theorem dbufGetmsg_of_forall_empty {dyn : Dbuf}
    (hall : ∀ c ∈ dyn.bytes, isEol c = true ∨ isBlank c = true) :
    (dbufGetmsg dyn).line? = none ∧ (dbufGetmsg dyn).dyn.bytes = [] := by
  have hscan : scanBlocks .start dyn.dbufList =
      (⟨.before, 0, dyn.bytes.length, []⟩, false) := by
    rw [scanBlocks_dbufList, scanBlock_skip (by decide) hall]
    simp [Scan.start]
  simp only [dbufGetmsg, hscan, bytes_dbufDelete]
  simp [Getmsg.line?]

section Line

variable {skipped line : List UInt8} {x : UInt8}
  (hskipped : ∀ c ∈ skipped, isEol c = true ∨ isBlank c = true)
  (hx : isBlank x = false) (hline : ∀ c ∈ x :: line, isEol c = false)

include hskipped hx hline

theorem scanBlock_skip_line :
    scanBlock .start (skipped ++ (x :: line)) =
      (⟨.line, (x :: line).length, skipped.length,
        (x :: line).take (readBufSize - 2)⟩, false) := by
  have hfirst : scanByte ⟨.before, 0, skipped.length, []⟩ x =
      some ⟨.line, 1, skipped.length, [x]⟩ := by
    simp [scanByte, hx, hline x (by simp), Scan.copyByte, readBufSize]
  rw [scanBlock_append, scanBlock_skip (by decide) hskipped]
  simp only [Scan.start, Nat.zero_add, scanBlock, hfirst]
  rw [scanBlock_line rfl (by simp [readBufSize])
    fun c hc => hline c (mem_cons_of_mem x hc)]
  simp [readBufSize, Nat.add_comm]

/-- The beginning of a line stays queued. -/
theorem dbufGetmsg_of_incomplete
    {dyn : Dbuf} (hbytes : dyn.bytes = skipped ++ (x :: line)) :
    (dbufGetmsg dyn).line? = none ∧
      (dbufGetmsg dyn).dyn.bytes = x :: line := by
  have hscan : scanBlocks .start dyn.dbufList =
      (⟨.line, (x :: line).length, skipped.length,
        (x :: line).take (readBufSize - 2)⟩, false) := by
    rw [scanBlocks_dbufList, hbytes]
    exact scanBlock_skip_line hskipped hx hline
  simp only [dbufGetmsg, hscan, bytes_dbufDelete, hbytes]
  simp [Getmsg.line?, show (Phase.line != Phase.after) = true from rfl]

/-- A complete line is returned, cut to the buffer size, and removed together
with the terminators and blanks around it. -/
theorem dbufGetmsg_of_complete {dyn : Dbuf} {more : List UInt8} {e : UInt8}
    (hbytes : dyn.bytes = skipped ++ (x :: line) ++ e :: more)
    (he : isEol e = true) :
    (dbufGetmsg dyn).line? = some ((x :: line).take (readBufSize - 2)) ∧
      (dbufGetmsg dyn).dyn.bytes = more.dropWhile isEmptyByte := by
  have hterm : scanByte ⟨.line, (x :: line).length, skipped.length,
        (x :: line).take (readBufSize - 2)⟩ e =
      some ⟨.after, (x :: line).length, skipped.length + 1,
        (x :: line).take (readBufSize - 2)⟩ := by
    simp [scanByte, he]
  have hscan : (scanBlocks .start dyn.dbufList).1 =
      ⟨.after, (x :: line).length,
        skipped.length + 1 + (more.takeWhile isEmptyByte).length,
        (x :: line).take (readBufSize - 2)⟩ := by
    rw [scanBlocks_dbufList, hbytes, scanBlock_append,
      scanBlock_skip_line hskipped hx hline]
    simp only [scanBlock, hterm]
    exact scanBlock_after rfl more
  have hdrop : dyn.bytes.drop ((x :: line).length +
      (skipped.length + 1 + (more.takeWhile isEmptyByte).length)) =
      more.dropWhile isEmptyByte := by
    have hsplit : dyn.bytes = (skipped ++ (x :: line) ++ [e] ++
        more.takeWhile isEmptyByte) ++ more.dropWhile isEmptyByte := by
      rw [hbytes, append_assoc _ _ (more.dropWhile isEmptyByte),
        takeWhile_append_dropWhile]
      simp
    rw [hsplit]
    apply drop_left'
    simp only [length_append, length_cons, length_nil]
    omega
  simp only [dbufGetmsg, hscan, bytes_dbufDelete]
  refine ⟨?_, by simpa using hdrop⟩
  simp [Getmsg.line?, readBufSize]

end Line

/-- What one extraction does to the bytes held: it removes bytes from the
front only, what it returns is what the reference split loses there, whatever
arrives later, and it returns nothing only if no line is complete. -/
structure Extracts
    (held : List UInt8) (line : Option (List UInt8)) (left : List UInt8) :
    Prop where
  suffix : left <:+ held
  split_eq : ∀ tail, referenceSplit (held ++ tail) =
    line.toList ++ referenceSplit (left ++ tail)
  split_of_none : line = none → referenceSplit held = []

section Extracts

variable {held left skipped line more : List UInt8} {x e : UInt8}
  {answer : Option (List UInt8)}

theorem Extracts.skip
    (hskipped : ∀ c ∈ skipped, isEol c = true ∨ isBlank c = true)
    (h : Extracts held answer left) :
    Extracts (skipped ++ held) answer left where
  suffix := h.suffix.trans (suffix_append _ _)
  split_eq tail := by
    rw [append_assoc, ← h.split_eq]
    exact lineSplit_append_of_eol_or_blank hskipped _
  split_of_none hnone := by
    rw [← h.split_of_none hnone]
    exact lineSplit_append_of_eol_or_blank hskipped _

theorem extracts_incomplete (hline : ∀ c ∈ line, isEol c = false) :
    Extracts line none line :=
  ⟨suffix_rfl, fun _ => rfl, fun _ => lineSplit_eq_nil hline⟩

/-- What follows the line loses its terminators and blanks at once. -/
theorem extracts_complete (hx : isBlank x = false)
    (hline : ∀ c ∈ x :: line, isEol c = false) (he : isEol e = true) :
    Extracts ((x :: line) ++ e :: more)
      (some ((x :: line).take (readBufSize - 2)))
      (more.dropWhile isEmptyByte) where
  suffix := ((dropWhile_suffix isEmptyByte).trans
    (suffix_cons e more)).trans (suffix_append _ _)
  split_eq tail := by
    have hmore : ∀ c ∈ more.takeWhile isEmptyByte,
        isEol c = true ∨ isBlank c = true := by
      intro c hc
      simpa [isEmptyByte] using mem_takeWhile_imp hc
    have hleft : referenceSplit (more ++ tail) =
        referenceSplit (more.dropWhile isEmptyByte ++ tail) := by
      nth_rewrite 1 [← @takeWhile_append_dropWhile _ isEmptyByte more]
      rw [append_assoc]
      exact lineSplit_append_of_eol_or_blank hmore _
    rw [append_assoc, ← hleft]
    refine (lineSplit_append_cons (more ++ tail) hline he).trans ?_
    simp [hx, referenceSplit]
  split_of_none := nofun

end Extracts

theorem dbufGetmsg_extracts (dyn : Dbuf) :
    Extracts dyn.bytes (dbufGetmsg dyn).line? (dbufGetmsg dyn).dyn.bytes := by
  rcases exists_first_line isEol isBlank dyn.bytes with
    hall | ⟨skipped, x, line, rest, hbytes, hskipped, hx, hline, hrest⟩
  · obtain ⟨hnone, hempty⟩ := dbufGetmsg_of_forall_empty hall
    rw [hnone, hempty, ← append_nil dyn.bytes]
    exact (extracts_incomplete (by simp)).skip hall
  · rcases hrest with rfl | ⟨e, more, rfl, he⟩
    · rw [append_nil] at hbytes
      obtain ⟨hnone, hheld⟩ := dbufGetmsg_of_incomplete hskipped hx hline hbytes
      rw [hnone, hheld, hbytes]
      exact (extracts_incomplete hline).skip hskipped
    · obtain ⟨hsome, hheld⟩ :=
        dbufGetmsg_of_complete hskipped hx hline hbytes he
      rw [hsome, hheld, hbytes, append_assoc]
      exact (extracts_complete hx hline he).skip hskipped

/-! ## Runs -/

/-- The queue as an incremental reader: `dbuf_put` feeds it and `dbuf_getmsg`
asks it for a line. -/
def recvQReader : IncrementalReader UInt8 (List UInt8) Dbuf where
  split := referenceSplit
  pending := Dbuf.bytes
  init := dbufQueueInit
  feed := dbufPut
  next dyn := ((dbufGetmsg dyn).line?, (dbufGetmsg dyn).dyn)
  pending_init := rfl
  pending_feed := bytes_dbufPut
  split_next dyn := (dbufGetmsg_extracts dyn).split_eq
  split_of_next_none dyn := (dbufGetmsg_extracts dyn).split_of_none
  pending_next dyn := (dbufGetmsg_extracts dyn).suffix

/-- The answers of the `dbuf_getmsg` calls of a run that starts from an empty
queue, and the queue it ends with. -/
def recvQRun (ops : List (ReaderOp UInt8)) :
    List (Option (List UInt8)) × Dbuf :=
  recvQReader.run dbufQueueInit ops

/-- Every interleaving of `dbuf_put` and `dbuf_getmsg` calls returns the lines
of the reference split of the bytes received so far, one per call and in order,
and comes back empty only when all of them were returned.  The bytes still
queued are the end of the stream, they contain exactly the lines not returned
yet, and the queue's counter is their number. -/
theorem recvQRun_eq_reference (ops : List (ReaderOp UInt8)) :
    (recvQRun ops).1 =
        (IncrementalReader.referenceRun referenceSplit ⟨[], 0⟩ ops).1 ∧
      (∀ tail, referenceSplit (ReaderOp.received ops ++ tail) =
        (recvQRun ops).1.filterMap id ++
          referenceSplit ((recvQRun ops).2.bytes ++ tail)) ∧
      (recvQRun ops).2.bytes <:+ ReaderOp.received ops ∧
      (recvQRun ops).2.length = (recvQRun ops).2.bytes.length :=
  ⟨recvQReader.run_outputs_eq_reference ops,
    recvQReader.run_split_eq ops,
    recvQReader.run_pending_suffix ops,
    ((recvQRun ops).2.length_bytes).symm⟩

end UnrealIrcd.RecvQ
