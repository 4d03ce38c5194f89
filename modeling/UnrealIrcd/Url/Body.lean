import UnrealIrcd.Url.Response

/-!
# Bodies

What the reads of a body make of a download.  `Awaits` says what is still to come,
and each read keeps it (`awaits_body`); a chunked body ends the download itself, and
any other is ended by the end of the connection.
-/

namespace UnrealIrcd.Url

open Support List
open Body (chunked)

variable {env : Environment} {request : OutgoingWebRequest}

/-! ## Storing data -/

/-- The body leaves what is known from the header as it is. -/
structure SameHeader (handle handle' : Download) : Prop where
  status : handle'.httpStatusCode = handle.httpStatusCode
  lastModified : handle'.lastModified = handle.lastModified
  location : handle'.redirectNewLocation = handle.redirectNewLocation
  encoding : handle'.transferEncoding = handle.transferEncoding
  got : handle'.gotResponse = handle.gotResponse

theorem SameHeader.refl (handle : Download) : SameHeader handle handle :=
  ⟨rfl, rfl, rfl, rfl, rfl⟩

theorem SameHeader.trans {h₁ h₂ h₃ : Download} (h : SameHeader h₁ h₂)
    (h' : SameHeader h₂ h₃) : SameHeader h₁ h₃ :=
  ⟨h'.status.trans h.status, h'.lastModified.trans h.lastModified,
    h'.location.trans h.location, h'.encoding.trans h.encoding,
    h'.got.trans h.got⟩

theorem storeData_spec {handle : Download} {data : List Char}
    (hmax : (handle.data request).length + data.length ≤ request.maxSize) :
    SameHeader handle (storeData request handle data) ∧
      (storeData request handle data).data request =
        handle.data request ++ data ∧
      (storeData request handle data).outcome = handle.outcome ∧
      (storeData request handle data).chunkRemaining =
        handle.chunkRemaining ∧
      (storeData request handle data).lefttoparse = handle.lefttoparse := by
  have hlen := Nat.not_lt.mpr hmax
  unfold storeData Download.data at *
  cases hfile : request.storeInFile with
  | true =>
    rw [hfile, if_pos rfl] at hlen
    rw [if_pos rfl, if_neg hlen]
    exact ⟨⟨rfl, rfl, rfl, rfl, rfl⟩, rfl, rfl, rfl, rfl⟩
  | false =>
    rw [hfile, if_neg Bool.false_ne_true] at hlen
    rw [if_neg Bool.false_ne_true, if_neg hlen]
    exact ⟨⟨rfl, rfl, rfl, rfl, rfl⟩, rfl, rfl, rfl, rfl⟩

/-! ## Chunks -/

/-- What is to come of a chunked body: the rest of a chunk, or a line with a size
first. -/
inductive Pending : ℕ → List Char → List Char → Prop where
  | data (d : List Char) {chunks : List Chunk} {last : SizeLine}
      {trailer : List Char} (hok : (Body.chunked chunks last trailer).Ok) :
      Pending d.length
        (d ++ '\r' :: '\n' :: (Body.chunked chunks last trailer).text)
        (d ++ chunksData chunks)
  | line {chunks : List Chunk} {last : SizeLine} {trailer : List Char}
      (hok : (Body.chunked chunks last trailer).Ok) :
      Pending 0 (Body.chunked chunks last trailer).text (chunksData chunks)

theorem Pending.lf_mem {n : ℕ} {text out : List Char} (h : Pending n text out) :
    '\n' ∈ text := by
  cases h with
  | data d hok => simp
  | line hok => simp [Body.text, SizeLine.text]

variable {chunks : List Chunk} {last : SizeLine} {trailer : List Char}

theorem exists_line (hok : (chunked chunks last trailer).Ok) :
    ∃ line : SizeLine, ∃ tail,
      (chunked chunks last trailer).text =
        line.content ++ '\n' :: tail ∧
      line.content.length ≤ httpsMaxChunkHeaderLen ∧
      (line.size = 0 ∧ chunksData chunks = [] ∨
        0 < line.size ∧ line.size ≤ (chunksData chunks).length ∧
          Pending line.size tail (chunksData chunks)) := by
  cases chunks with
  | nil =>
    refine ⟨last, trailer, ?_, hok.2.1, .inl ⟨hok.2.2, rfl⟩⟩
    simp [Body.text, chunksText, SizeLine.text]
  | cons chunk chunks =>
    have hrest : (chunked chunks last trailer).Ok :=
      ⟨fun c hc => hok.1 c (mem_cons_of_mem _ hc), hok.2⟩
    have hdata : chunksData (chunk :: chunks) =
        chunk.data ++ chunksData chunks := rfl
    refine ⟨chunk.line, chunk.data ++ '\r' :: '\n' ::
      (chunked chunks last trailer).text, ?_,
      hok.1 chunk mem_cons_self, .inr ⟨?_, ?_, ?_⟩⟩
    · simp [Body.text, chunksText, Chunk.text, SizeLine.text]
    · rw [chunk.size_eq]
      exact length_pos_of_ne_nil chunk.data_ne
    · rw [chunk.size_eq, hdata, length_append]
      omega
    · rw [chunk.size_eq, hdata]
      exact .data chunk.data hrest

/-- What the loop leaves behind: the end, or something to come. -/
def LoopResult (request : OutgoingWebRequest) (handle handle' : Download)
    (rest out : List Char) : Prop :=
  SameHeader handle handle' ∧
    (handle'.outcome = some .done ∧
        handle'.data request = handle.data request ++ out ∨
      handle'.outcome = none ∧ '\n' ∉ handle'.lefttoparse ∧
        ∃ out', Pending handle'.chunkRemaining
          (handle'.lefttoparse ++ rest) out' ∧
          handle'.data request ++ out' = handle.data request ++ out)

/-- A round leaves the rest to the rounds after it. -/
theorem LoopResult.of_same {handle₁ handle₂ handle : Download}
    {rest out₁ out₂ : List Char} (hsame : SameHeader handle₁ handle₂)
    (hdata : handle₂.data request ++ out₂ = handle₁.data request ++ out₁)
    (h : LoopResult request handle₂ handle rest out₂) :
    LoopResult request handle₁ handle rest out₁ := by
  obtain ⟨hsame', hresult⟩ := h
  rw [hdata] at hresult
  exact ⟨hsame.trans hsame', hresult⟩

variable {fuel : ℕ} {handle : Download} {buf : List Char}

theorem httpsChunks_cut (hne : buf ≠ []) (hrem : handle.chunkRemaining = 0)
    (hlf : '\n' ∉ skipEmptyLine buf)
    (hlen : (skipEmptyLine buf).length ≤ httpsMaxChunkHeaderLen) :
    httpsChunks request (fuel + 1) handle buf =
      { handle with lefttoparse := skipEmptyLine buf } := by
  rw [httpsChunks.eq_3 _ _ _ _ hne, if_neg (by omega)]
  rw [if_pos hlf, if_neg (Nat.not_lt.mpr hlen)]

theorem httpsChunks_line {buf b : List Char} {line : SizeLine} (hne : buf ≠ [])
    (hrem : handle.chunkRemaining = 0)
    (hbuf : skipEmptyLine buf = line.content ++ '\n' :: b) :
    httpsChunks request (fuel + 1) handle buf =
      if (setChunkRemaining handle line.content).outcome ≠ none then
        setChunkRemaining handle line.content
      else httpsChunks request fuel
        (setChunkRemaining handle line.content) b := by
  have hdrop : (line.content ++ '\n' :: b).drop (line.content.length + 1) =
      b := by
    rw [← drop_drop, drop_left]
    rfl
  have hmem : ¬ '\n' ∉ line.content ++ '\n' :: b := by simp
  rw [httpsChunks.eq_3 _ _ _ _ hne, if_neg (by omega)]
  simp only [hbuf, takeWhile_bne_append line.lf_not_mem, hdrop]
  rw [if_neg hmem]

theorem setChunkRemaining_eq (handle : Download) {line : SizeLine}
    (h : line.size < 2 ^ 63) :
    setChunkRemaining handle line.content =
      if line.size = 0 then httpsDone handle
      else { handle with chunkRemaining := line.size } := by
  unfold setChunkRemaining
  rw [line.strtoll16_content h]
  simp only
  rw [if_neg (by omega)]
  by_cases hzero : line.size = 0
  · rw [if_pos (by omega), if_pos hzero]
  · rw [if_neg (by omega), if_neg hzero, Int.toNat_natCast]

/-- The loop can go on with a text. -/
structure Ready (request : OutgoingWebRequest) (handle : Download)
    (text out : List Char) : Prop where
  left : handle.lefttoparse = []
  live : handle.outcome = none
  got : handle.gotResponse = true
  fits : (handle.data request).length + out.length ≤ request.maxSize
  pending : Pending handle.chunkRemaining text out

/-- The loop takes off what has arrived, in so many rounds. -/
def Right (request : OutgoingWebRequest) (fuel : ℕ) : Prop :=
  ∀ {handle : Download} {buf rest out : List Char}, buf.length < fuel →
    Ready request handle (buf ++ rest) out →
      LoopResult request handle (httpsChunks request fuel handle buf) rest out

theorem cut_or_line {x rest content tail : List Char} (hlf : '\n' ∉ content)
    (h : x ++ rest = content ++ '\n' :: tail) :
    '\n' ∉ x ∧ x.length ≤ content.length ∨
      ∃ b, x = content ++ '\n' :: b ∧ b ++ rest = tail := by
  rcases append_eq_append_iff.mp h with ⟨mid, rfl, -⟩ | ⟨mid, rfl, htail⟩
  · exact .inl ⟨fun hmem => hlf (mem_append_left _ hmem), by simp⟩
  · cases mid with
    | nil =>
      rw [append_nil]
      exact .inl ⟨hlf, le_rfl⟩
    | cons c b =>
      obtain ⟨rfl, hb⟩ := List.cons.inj htail
      exact .inr ⟨b, rfl, hb.symm⟩

theorem httpsChunks_from_line {rest text : List Char} (ih : Right request fuel)
    (h : Ready request handle text (chunksData chunks)) (hne : buf ≠ [])
    (hrem : handle.chunkRemaining = 0)
    (hfuel : (skipEmptyLine buf).length ≤ fuel)
    (hok : (chunked chunks last trailer).Ok)
    (hbuf : skipEmptyLine buf ++ rest =
      (chunked chunks last trailer).text) :
    LoopResult request handle (httpsChunks request (fuel + 1) handle buf) rest
      (chunksData chunks) := by
  have hrange := request.maxSize_lt
  have hfits := h.fits
  obtain ⟨line, tail, htext, hlen, hsize⟩ := exists_line hok
  obtain ⟨hlf, hshort⟩ | ⟨b, hskip, hb⟩ :=
    cut_or_line line.lf_not_mem (hbuf.trans htext)
  · -- the line is not complete
    rw [httpsChunks_cut hne hrem hlf (hshort.trans hlen)]
    refine ⟨⟨rfl, rfl, rfl, rfl, rfl⟩, .inr ⟨h.live, hlf, _, ?_, rfl⟩⟩
    have hpending := Pending.line hok
    rw [← hbuf, ← hrem] at hpending
    exact hpending
  · rw [httpsChunks_line hne hrem hskip]
    rcases hsize with ⟨hzero, hdata⟩ | ⟨hpos, hle, hpending⟩
    · -- the last line
      rw [setChunkRemaining_eq _ (by omega), if_pos hzero, httpsDone,
        if_pos h.got, if_pos (Option.some_ne_none _)]
      refine ⟨⟨rfl, rfl, rfl, rfl, rfl⟩, .inl ⟨rfl, ?_⟩⟩
      rw [hdata, append_nil]
      rfl
    · have hset : setChunkRemaining handle line.content =
          { handle with chunkRemaining := line.size } := by
        rw [setChunkRemaining_eq _ (by omega), if_neg (by omega)]
      rw [hset, if_neg (not_not.mpr h.live)]
      rw [← hb] at hpending
      rw [hskip, length_append, length_cons] at hfuel
      have hready : Ready request { handle with chunkRemaining := line.size }
          (b ++ rest) (chunksData chunks) :=
        ⟨h.left, h.live, h.got, h.fits, hpending⟩
      have hlt : b.length < fuel := by omega
      refine .of_same ?_ ?_ (ih hlt hready)
      · exact ⟨rfl, rfl, rfl, rfl, rfl⟩
      · rfl

theorem skipEmptyLine_of_head {c : Char} (h : isxdigit c = true) :
    skipEmptyLine (c :: buf) = c :: buf := by
  unfold skipEmptyLine
  split
  · next heq =>
      obtain ⟨rfl, -⟩ := List.cons.inj heq
      exact absurd h (by decide)
  · next heq =>
      obtain ⟨rfl, -⟩ := List.cons.inj heq
      exact absurd h (by decide)
  · rfl

theorem skipEmptyLine_text {trailer buf rest : List Char}
    (hok : (chunked chunks last trailer).Ok) (hne : buf ≠ [])
    (hbuf : buf ++ rest = (chunked chunks last trailer).text) :
    skipEmptyLine buf = buf := by
  obtain ⟨line, tail, htext, -⟩ := exists_line hok
  obtain ⟨c, s, hcontent, hc⟩ := line.exists_cons
  obtain ⟨c', buf, rfl⟩ := exists_cons_of_ne_nil hne
  rw [htext, hcontent] at hbuf
  obtain ⟨rfl, -⟩ := List.cons.inj hbuf
  exact skipEmptyLine_of_head hc

theorem httpsChunks_from_data {rest d text : List Char}
    (ih : Right request fuel)
    (h : Ready request handle text (d ++ chunksData chunks)) (hne : buf ≠ [])
    (hd : d ≠ []) (hrem : handle.chunkRemaining = d.length)
    (hfuel : buf.length ≤ fuel) (hok : (chunked chunks last trailer).Ok)
    (hbuf : buf ++ rest =
      d ++ '\r' :: '\n' :: (chunked chunks last trailer).text) :
    LoopResult request handle (httpsChunks request (fuel + 1) handle buf) rest
      (d ++ chunksData chunks) := by
  have hmax := h.fits
  have hdpos := length_pos_of_ne_nil hd
  have hbpos := length_pos_of_ne_nil hne
  obtain ⟨eat, heat⟩ : ∃ eat, eat = min handle.chunkRemaining buf.length :=
    ⟨_, rfl⟩
  have heatd : eat ≤ d.length := by omega
  have heatb : eat ≤ buf.length := by omega
  -- what is taken off the buffer is the start of the data
  have htake : buf.take eat = d.take eat := by
    have := congrArg (List.take eat) hbuf
    rwa [take_append_of_le_length heatb, take_append_of_le_length heatd] at this
  have hdrop : buf.drop eat ++ rest = d.drop eat ++
      '\r' :: '\n' :: (chunked chunks last trailer).text := by
    have := congrArg (List.drop eat) hbuf
    rwa [drop_append_of_le_length heatb, drop_append_of_le_length heatd] at this
  rw [length_append] at hmax
  obtain ⟨hsame, hdata, houtcome, hcount, hkept⟩ :=
    @storeData_spec request handle (d.take eat) (by
      rw [length_take]
      omega)
  rw [httpsChunks.eq_3 _ _ _ _ hne, if_pos (by omega)]
  dsimp only
  rw [← heat, htake, if_neg (not_not.mpr (houtcome.trans h.live)), hcount, hrem]
  have hpending := Pending.data (d.drop eat) hok
  rw [← hdrop, length_drop] at hpending
  have hstored : ({ storeData request handle (d.take eat) with
      chunkRemaining := d.length - eat } : Download).data request =
      handle.data request ++ d.take eat := hdata
  refine .of_same ?_ ?_ (ih ?_ ⟨hkept.trans h.left, houtcome.trans h.live,
    hsame.got.trans h.got, ?_, hpending⟩)
  · exact hsame.trans ⟨rfl, rfl, rfl, rfl, rfl⟩
  · rw [hstored, append_assoc, ← append_assoc (d.take eat), take_append_drop]
  · rw [length_drop]
    omega
  · rw [hstored, length_append, length_append, length_take, length_drop]
    omega

theorem httpsChunks_right (fuel : ℕ) : Right request fuel := by
  induction fuel with
  | zero => exact fun hfuel => absurd hfuel (Nat.not_lt_zero _)
  | succ fuel ih =>
    intro handle buf rest out hfuel h
    have hpending := h.pending
    by_cases hne : buf = []
    · subst hne
      refine ⟨.refl handle, .inr ⟨h.live, ?_, out, ?_, rfl⟩⟩
      · rw [httpsChunks.eq_2, h.left]
        exact not_mem_nil
      · rw [httpsChunks.eq_2, h.left]
        exact hpending
    · generalize hrem : handle.chunkRemaining = n at hpending
      generalize hbuf : buf ++ rest = text at hpending
      cases hpending with
      | @data d chunks last trailer hok =>
        by_cases hd : d = []
        · subst hd
          have hpending := Pending.data [] hok
          rw [nil_append] at hbuf hpending h ⊢
          rw [length_nil] at hrem hpending
          obtain ⟨c, buf, rfl⟩ := exists_cons_of_ne_nil hne
          rw [cons_append, List.cons.injEq] at hbuf
          obtain ⟨rfl, hbuf⟩ := hbuf
          cases buf with
          | nil =>
            -- the LF of the empty line is missing
            have hcr : '\n' ∉ skipEmptyLine ['\r'] := by decide
            rw [httpsChunks_cut hne hrem hcr (by decide)]
            refine ⟨⟨rfl, rfl, rfl, rfl, rfl⟩, .inr ⟨h.live, hcr, _, ?_, rfl⟩⟩
            rw [← hbuf, ← hrem] at hpending
            exact hpending
          | cons c buf =>
            rw [cons_append, List.cons.injEq] at hbuf
            obtain ⟨rfl, hbuf⟩ := hbuf
            simp only [length_cons] at hfuel
            exact httpsChunks_from_line ih h hne hrem
              (by rw [skipEmptyLine]; omega) hok hbuf
        · exact httpsChunks_from_data ih h hne hd hrem (by omega) hok hbuf
      | line hok =>
        have hskip := skipEmptyLine_text hok hne hbuf
        exact httpsChunks_from_line ih h hne hrem (by rw [hskip]; omega) hok
          (by rw [hskip, hbuf])

/-! ## Reads -/

/-- After the header the download awaits the rest of the body. -/
def Awaits (handle : Download) (rest out : List Char) : Prop :=
  handle.outcome = none ∧ handle.gotResponse = true ∧
    match handle.transferEncoding with
    | .none => out = rest
    | .chunked => '\n' ∉ handle.lefttoparse ∧
        Pending handle.chunkRemaining (handle.lefttoparse ++ rest) out

/-- The download is done. -/
def Finished (request : OutgoingWebRequest) (handle handle' : Download)
    (out : List Char) : Prop :=
  SameHeader handle handle' ∧ handle'.outcome = some .done ∧
    handle'.data request = handle.data request ++ out

theorem awaits_body {readbuf rest out : List Char} {handle' : Download}
    (hbody : httpsHandleResponseBody request handle readbuf = handle')
    (h : Awaits handle (readbuf ++ rest) out)
    (hmax : (handle.data request).length + out.length ≤ request.maxSize) :
    Finished request handle handle' out ∨ SameHeader handle handle' ∧
      ∃ out', Awaits handle' rest out' ∧
        handle'.data request ++ out' = handle.data request ++ out := by
  subst hbody
  obtain ⟨hlive, hgot, hrest⟩ := h
  cases hencoding : handle.transferEncoding with
  | none =>
    rw [hencoding] at hrest
    rw [httpsHandleResponseBody, hencoding]
    obtain ⟨hsame, hdata, houtcome, -, -⟩ :=
      @storeData_spec request handle readbuf (by
        rw [hrest, length_append] at hmax
        omega)
    refine .inr ⟨hsame, rest, ⟨houtcome.trans hlive, hsame.got.trans hgot,
      ?_⟩, ?_⟩
    · rw [hsame.encoding, hencoding]
    · rw [hdata, hrest, append_assoc]
  | chunked =>
    rw [hencoding] at hrest
    unfold httpsHandleResponseBody
    split
    case h_1 heq => cases hencoding.symm.trans heq
    dsimp only
    obtain ⟨-, hpending⟩ := hrest
    rw [← append_assoc] at hpending
    obtain ⟨hsame, hresult⟩ := @httpsChunks_right request
      ((handle.lefttoparse ++ readbuf).length + 1)
      { handle with lefttoparse := [] } (handle.lefttoparse ++ readbuf) rest
      out (Nat.lt_succ_self _) ⟨rfl, hlive, hgot, hmax, hpending⟩
    have hsame := @SameHeader.trans handle { handle with lefttoparse := [] } _
      ⟨rfl, rfl, rfl, rfl, rfl⟩ hsame
    rcases hresult with ⟨hdone, hdata⟩ | ⟨hlive', hlf, out', hpending', hdata⟩
    · exact .inl ⟨hsame, hdone, hdata⟩
    · refine .inr ⟨hsame, out', ⟨hlive', hsame.got.trans hgot, ?_⟩, hdata⟩
      have hchunked : (httpsChunks request
          ((handle.lefttoparse ++ readbuf).length + 1)
          { handle with lefttoparse := [] }
          (handle.lefttoparse ++ readbuf)).transferEncoding = .chunked :=
        hsame.encoding.trans hencoding
      rw [hchunked]
      exact ⟨hlf, hpending'⟩

theorem download_dead (h : handle.outcome ≠ none) (reads : List (List Char)) :
    download env request handle reads = handle := by
  have hstays : ∀ readbuf,
      httpsReceiveResponse env request handle readbuf = handle :=
    fun _ => if_pos h
  rw [download]
  induction reads with
  | nil => exact hstays []
  | cons readbuf reads ih => rw [foldl_cons, hstays, ih]

theorem download_cons (readbuf : List Char) (reads : List (List Char)) :
    download env request handle (readbuf :: reads) =
      download env request (httpsReceiveResponse env request handle readbuf)
        reads := rfl

theorem finished_of_awaits {handle : Download} {reads : List (List Char)}
    {out : List Char} (hreads : ∀ readbuf ∈ reads, readbuf ≠ [])
    (h : Awaits handle reads.flatten out)
    (hmax : (handle.data request).length + out.length ≤ request.maxSize) :
    Finished request handle (download env request handle reads) out := by
  induction reads generalizing handle out with
  | nil =>
    -- the end of the connection
    obtain ⟨hlive, hgot, hrest⟩ := h
    have hdone : download env request handle [] =
        { handle with outcome := some .done } := by
      rw [download, foldl_nil, httpsReceiveResponse,
        if_neg (not_not.mpr hlive), if_pos rfl, httpsDone, if_pos hgot]
    rw [hdone]
    refine ⟨⟨rfl, rfl, rfl, rfl, rfl⟩, rfl, ?_⟩
    cases hencoding : handle.transferEncoding with
    | none =>
      rw [hencoding] at hrest
      simp only [flatten_nil] at hrest
      rw [hrest, append_nil]
      rfl
    | chunked =>
      rw [hencoding] at hrest
      simp only [flatten_nil, append_nil] at hrest
      exact absurd hrest.2.lf_mem hrest.1
  | cons readbuf reads ih =>
    obtain ⟨hne, hreads⟩ := forall_mem_cons.mp hreads
    have hreceive : httpsReceiveResponse env request handle readbuf =
        httpsHandleResponseBody request handle readbuf := by
      rw [httpsReceiveResponse, if_neg (not_not.mpr h.1), if_neg hne,
        if_pos h.2.1]
    rw [download_cons, hreceive]
    rw [flatten_cons] at h
    rcases awaits_body rfl h hmax with hfinished | ⟨hsame, out', hawaits, hdata⟩
    · rw [download_dead]
      · exact hfinished
      · rw [hfinished.2.1]
        exact Option.some_ne_none _
    · have hlen := congrArg List.length hdata
      rw [length_append, length_append] at hlen
      obtain ⟨hsame', hdone, hdata'⟩ := ih hreads hawaits (by omega)
      exact ⟨hsame.trans hsame', hdone, hdata'.trans hdata⟩

end UnrealIrcd.Url
