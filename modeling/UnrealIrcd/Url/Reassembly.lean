import UnrealIrcd.Url.Body

/-!
# Responses in reads

A response arrives in reads, cut anywhere.  What must not happen is said by
`ReadOk`:

* the status line is taken for complete from its thirteenth byte on;
* what does not fit into the buffer with the kept part of a line is lost;
* the start of the body is not found if a read starts with the empty line, or
  within it, and has data of the body.

In all other cases the download ends as the response says (`download_ends`).
-/

namespace UnrealIrcd.Url

open Support List
open Response (outcome bytes header)

variable {env : Environment} {request : OutgoingWebRequest} {r : Response}
  {hostname : List Char} {port : ℕ}

/-- A read does no harm after some bytes of the response. -/
def ReadOk (r : Response) (before readbuf : List Char) : Prop :=
  before.length < r.header.length →
    (before.length + readbuf.length < r.statusLine.length →
      before.length + readbuf.length < 13) ∧
    sinceLf before + readbuf.length < netbufSize ∧
    (r.header.length - 2 ≤ before.length →
      before.length + readbuf.length ≤ r.header.length)

/-- The response is cut where it does no harm. -/
def WellCut (r : Response) (reads : List (List Char)) : Prop :=
  EachPacket (ReadOk r) [] reads

/-! ## Lines of the header -/

/-- The status line and some lines have been handled. -/
def headerState (env : Environment) (hostname : List Char) (port : ℕ)
    (r : Response) (fields : List Field) : Download :=
  { newDownload hostname port with
    httpStatusCode := r.status
    lastModified := ((lookupField fields "Last-Modified").map
      env.rfc2616TimeToUnixTime).getD 0
    redirectNewLocation := lookupField fields "Location"
    transferEncoding := if fields.any isChunked then .chunked else .none }

theorem live_headerState (fields : List Field) :
    ¬ (headerState env hostname port r fields).outcome ≠ none :=
  not_not.mpr rfl

theorem lookupField_concat (fields : List Field) (f : Field) (name : String) :
    lookupField (fields ++ [f]) name =
      if strcasecmpEq f.name name.toList then some f.value
      else lookupField fields name := by
  unfold lookupField
  rw [filter_append, filter_singleton]
  cases strcasecmpEq f.name name.toList with
  | true | false => simp

theorem strcasecmpEq_unique {s t t' : List Char} (h : strcasecmpEq s t = true)
    (hne : strcasecmpEq t t' = false) : strcasecmpEq s t' = false := by
  unfold strcasecmpEq at *
  rwa [beq_iff_eq.mp h]

theorem handleLine_field {done : List Field} {f : Field}
    (hf : strcasecmpEq f.name "RESPONSE".toList = false) :
    handleLine env request (headerState env hostname port r done)
        (f.name, f.value) =
      headerState env hostname port r (done ++ [f]) := by
  unfold handleLine
  rw [if_neg (live_headerState done), hf, if_neg Bool.false_ne_true]
  unfold headerState
  rw [lookupField_concat, lookupField_concat, any_append, any_cons,
    any_nil, Bool.or_false]
  cases hmodified : strcasecmpEq f.name "Last-Modified".toList with
  | true =>
    have hlocation : strcasecmpEq f.name "Location".toList = false :=
      strcasecmpEq_unique hmodified (by decide)
    have hcoding : isChunked f = false := by
      rw [isChunked, strcasecmpEq_unique hmodified (by decide), Bool.false_and]
    rw [hlocation, hcoding, Bool.or_false]
    rfl
  | false =>
    cases hlocation : strcasecmpEq f.name "Location".toList with
    | true =>
      have hcoding : isChunked f = false := by
        rw [isChunked, strcasecmpEq_unique hlocation (by decide),
          Bool.false_and]
      rw [hcoding, Bool.or_false]
      rfl
    | false =>
      cases hcoding : strcasecmpEq f.name "Transfer-Encoding".toList with
      | true =>
        cases hchunked : strcasecmpEq f.value "chunked".toList with
        | true =>
          have hf : isChunked f = true := by
            rw [isChunked, hcoding, hchunked, Bool.and_self]
          rw [hf, Bool.or_true]
          rfl
        | false =>
          have hf : isChunked f = false := by
            rw [isChunked, hchunked, Bool.and_false]
          rw [hf, Bool.or_false]
          rfl
      | false =>
        have hf : isChunked f = false := by
          rw [isChunked, hcoding, Bool.false_and]
        rw [hf, Bool.or_false]
        rfl

theorem foldl_handleLine_dead {handle : Download} (h : handle.outcome ≠ none)
    (pairs : List (List Char × List Char)) :
    pairs.foldl (handleLine env request) handle = handle := by
  induction pairs with
  | nil => rfl
  | cons pair pairs ih => rw [foldl_cons, handleLine, if_pos h, ih]

theorem foldl_handleLine {done more todo : List Field}
    (h : r.fields = done ++ (more ++ todo)) :
    (fieldPairs more).foldl (handleLine env request)
        (headerState env hostname port r done) =
      headerState env hostname port r (done ++ more) := by
  induction more generalizing done with
  | nil => rw [append_nil]; rfl
  | cons f more ih =>
    have hf : f ∈ r.fields := by
      rw [h]
      exact mem_append_right _ mem_cons_self
    have hsplit : fieldPairs (f :: more) =
        (f.name, f.value) :: fieldPairs more := rfl
    rw [hsplit, foldl_cons, handleLine_field (r.fields_ok f hf),
      ih (by rw [h]; simp), append_assoc, singleton_append]

/-! ## The status line -/

/-- The statuses that need the rest of the response. -/
def GoesOn (request : OutgoingWebRequest) (r : Response) : Prop :=
  r.status = 200 ∨ 301 ≤ r.status ∧ r.status ≤ 308 ∧ r.status ≠ 304 ∧
    request.maxRedirects ≠ 0

theorem handleStatus_cases {handle : Download}
    (hhandle : handleLine env request (newDownload hostname port)
      ("RESPONSE".toList, r.statusText) = handle) :
    GoesOn request r ∧ handle = headerState env hostname port r [] ∨
      handle.outcome ≠ none ∧ r.Ends env request handle := by
  change handleStatus request (newDownload hostname port) r.statusText = _
    at hhandle
  subst hhandle
  unfold handleStatus
  simp only [r.atoi_statusText]
  by_cases hcached : r.status = 304
  · rw [if_pos (by omega)]
    refine .inr ⟨Option.some_ne_none _, ?_, rfl, ?_⟩
    · rw [outcome, if_pos hcached]
      rfl
    · rw [if_neg (by omega)]
      exact Download.data_eq_nil rfl rfl request
  · rw [if_neg (by omega)]
    by_cases hredirect : 301 ≤ r.status ∧ r.status ≤ 308
    · rw [if_pos (by omega)]
      by_cases hmax : request.maxRedirects = 0
      · rw [if_pos hmax]
        refine .inr ⟨Option.some_ne_none _, ?_, rfl, ?_⟩
        · rw [outcome, if_neg hcached, if_pos hredirect, if_pos hmax]
          rfl
        · rw [if_neg (by omega)]
          exact Download.data_eq_nil rfl rfl request
      · rw [if_neg hmax]
        exact .inl ⟨.inr ⟨hredirect.1, hredirect.2, hcached, hmax⟩, rfl⟩
    · rw [if_neg (by omega)]
      by_cases hok : r.status = 200
      · rw [if_neg (by omega)]
        exact .inl ⟨.inl hok, rfl⟩
      · rw [if_pos (by omega)]
        refine .inr ⟨Option.some_ne_none _, ?_, rfl, ?_⟩
        · rw [outcome, if_neg hcached, if_neg hredirect, if_pos hok]
          rfl
        · rw [if_neg (by omega)]
          exact Download.data_eq_nil rfl rfl request

/-! ## One read -/

/-- What becomes of the end of a read. -/
def afterLines (request : OutgoingWebRequest) (handle : Download)
    (netbuf : List Char) : Ending → Download
  | .ended => endOfHeader request handle netbuf
  | .left rest => { handle with lefttoparse := rest }
  | .dropped => handle

theorem receive_eq (handle : Download) {t readbuf : List Char}
    {pairs : List (List Char × List Char)} {ending : Ending}
    (hlive : handle.outcome = none) (hgot : handle.gotResponse = false)
    (hne : readbuf ≠ []) (hfit : t.length + readbuf.length < netbufSize)
    (hscan : scan httpsDialect (cstring (t ++ readbuf)) = (pairs, ending))
    {handle' : Download}
    (hfold : pairs.foldl (handleLine env request)
      { handle with lefttoparse := [] } = handle') :
    httpsReceiveResponse env request { handle with lefttoparse := t } readbuf =
      if handle'.outcome ≠ none then handle'
      else afterLines request handle' (t ++ readbuf) ending := by
  have hleft : t.take (netbufSize - 1) = t := take_of_length_le (by omega)
  have hread : readbuf.take (netbufSize - t.length - 1) = readbuf :=
    take_of_length_le (by omega)
  rw [httpsReceiveResponse, if_neg (not_not.mpr hlive), if_neg hne,
    if_neg (show ¬ handle.gotResponse = true by rw [hgot]; decide)]
  unfold httpsHandleResponseHeader
  simp only [hleft, hread, hscan, hfold]
  rw [if_neg hne]
  cases ending <;> rfl

/-! ## The end of the header -/

/-- The whole header has been handled. -/
def responseState (env : Environment) (hostname : List Char) (port : ℕ)
    (r : Response) : Download :=
  { headerState env hostname port r r.fields with gotResponse := true }

theorem data_responseState :
    (responseState env hostname port r).data request = [] :=
  Download.data_eq_nil rfl rfl request

theorem awaits_responseState :
    Awaits (responseState env hostname port r) r.body.text r.body.data := by
  refine ⟨rfl, rfl, ?_⟩
  have hcoding : (responseState env hostname port r).transferEncoding =
      if r.fields.any isChunked then .chunked else .none := rfl
  rw [hcoding]
  cases hbody : r.body with
  | plain data =>
    have hnot : ¬ r.fields.any isChunked = true := by
      intro h
      obtain ⟨chunks, last, trailer, hchunked⟩ := r.coding_ok.mp h
      rw [hbody] at hchunked
      cases hchunked
    rw [if_neg hnot]
    rfl
  | chunked chunks last trailer =>
    have hok := r.body_ok
    rw [hbody] at hok
    rw [if_pos (r.coding_ok.mpr ⟨chunks, last, trailer, hbody⟩)]
    exact ⟨not_mem_nil, .line hok⟩

variable {reads : List (List Char)}

theorem responseState_ends (hok : r.status = 200)
    (hbody : reads.flatten = r.body.text)
    (hreads : ∀ readbuf ∈ reads, readbuf ≠ [])
    (hmax : r.body.data.length ≤ request.maxSize) :
    r.Ends env request
      (download env request (responseState env hostname port r) reads) := by
  have hawaits := @awaits_responseState env r hostname port
  rw [← hbody] at hawaits
  have hfits : ((responseState env hostname port r).data request).length +
      r.body.data.length ≤ request.maxSize := by
    rw [data_responseState, length_nil, Nat.zero_add]
    exact hmax
  obtain ⟨hsame, hdone, hdata⟩ :=
    @finished_of_awaits env request _ reads _ hreads hawaits hfits
  refine ⟨?_, hsame.status, ?_⟩
  · rw [hdone, outcome, if_neg (by omega), if_neg (by omega),
      if_neg (by omega)]
  · rw [if_pos hok]
    refine ⟨hsame.lastModified, hsame.location, ?_⟩
    rw [hdata, data_responseState, nil_append]

theorem endOfHeader_ends {netbuf b : List Char} (hgoes : GoesOn request r)
    (hfind : findEnd netbuf = if b = [] then none else some b)
    (hbody : b ++ reads.flatten = r.body.text)
    (hreads : ∀ readbuf ∈ reads, readbuf ≠ [])
    (hmax : r.status = 200 → r.body.data.length ≤ request.maxSize) :
    r.Ends env request (download env request (endOfHeader request
      (headerState env hostname port r r.fields) netbuf) reads) := by
  have hstatus : (responseState env hostname port r).httpStatusCode =
      r.status := rfl
  rcases hgoes with hok | ⟨hge, hle, hcached, hredirects⟩
  · unfold endOfHeader
    rw [if_neg (by rw [← responseState, hstatus]; omega),
      if_neg (by rw [← responseState, hstatus]; omega), urlFindEndOfRequest,
      hfind, ← responseState]
    by_cases hb : b = []
    · subst hb
      rw [if_pos rfl]
      exact responseState_ends hok hbody hreads (hmax hok)
    · -- the rest of the buffer counts as a read of its own
      have hread : httpsHandleResponseBody request
          (responseState env hostname port r) b =
          httpsReceiveResponse env request (responseState env hostname port r)
            b := by
        have hlive : ¬ (responseState env hostname port r).outcome ≠ none :=
          not_not.mpr rfl
        rw [httpsReceiveResponse, if_neg hlive, if_neg hb]
        rfl
      rw [if_neg hb]
      simp only
      rw [hread, ← download_cons]
      exact responseState_ends hok hbody
        (forall_mem_cons.mpr ⟨hb, hreads⟩) (hmax hok)
  · unfold endOfHeader
    rw [if_neg (by rw [← responseState, hstatus]; omega),
      if_pos (by rw [← responseState, hstatus]; omega)]
    split
    · next location hlocation =>
        have hfound : lookupField r.fields "Location" = some location :=
          hlocation
        rw [httpsRedirect, if_neg hredirects, download_dead (by simp)]
        refine ⟨?_, hstatus, ?_⟩
        · rw [outcome, if_neg hcached, if_pos ⟨hge, hle⟩,
            if_neg hredirects, hfound]
          rfl
        · rw [if_neg (by omega)]
          exact Download.data_eq_nil rfl rfl request
    · next hlocation =>
        have hfound : lookupField r.fields "Location" = none := hlocation
        rw [httpsCancel, download_dead (by simp)]
        refine ⟨?_, hstatus, ?_⟩
        · rw [outcome, if_neg hcached, if_pos ⟨hge, hle⟩,
            if_neg hredirects, hfound]
        · rw [if_neg (by omega)]
          exact Download.data_eq_nil rfl rfl request

/-! ## The lines of the header -/

variable {done todo : List Field}

section Reads

variable (hmax : r.status = 200 → r.body.data.length ≤ request.maxSize)
  (hreads : ∀ readbuf ∈ reads, readbuf ≠ [])

/-- The search for the body, if the read does no harm. -/
theorem findEnd_read {t readbuf b : List Char} (h : r.fields = done ++ todo)
    (ht : Part todo t) (hok : ReadOk r (received r.statusLine done t) readbuf)
    (hx : t ++ readbuf = fieldsText todo ++ '\r' :: '\n' :: b) :
    findEnd (t ++ readbuf) = if b = [] then none else some b := by
  rw [hx]
  cases todo with
  | cons f todo => exact @findEnd_fields [] id _ (cons_ne_nil _ _) b
  | nil =>
    -- the read starts with the empty line, so that it has nothing of the body
    have hb : b = [] := by
      have hheader : r.header.length = _ := length_header h
      have hlen := congrArg List.length hx
      have hreceived := @length_received t r.statusLine done
      rw [fieldsText_nil, length_nil] at hheader
      simp only [length_append, fieldsText_nil, length_nil, length_cons] at hlen
      have hle := (hok (length_received_lt h ht)).2.2 (by omega)
      exact length_eq_zero_iff.mp (by omega)
    subst hb
    rfl

include hmax hreads

/-- While the header is read. -/
theorem reading_ends {t : List Char} (hgoes : GoesOn request r)
    (h : r.fields = done ++ todo) (ht : Part todo t)
    (hcut : EachPacket (ReadOk r) (received r.statusLine done t) reads)
    (hbytes : received r.statusLine done t ++ reads.flatten = r.bytes) :
    r.Ends env request (download env request
      { headerState env hostname port r done with lefttoparse := t } reads) := by
  induction reads generalizing done todo t with
  | nil =>
    -- the header is not complete
    have hlt : _ < r.header.length := length_received_lt h ht
    have hlen := congrArg List.length hbytes
    rw [flatten_nil, append_nil, bytes, length_append] at hlen
    omega
  | cons readbuf reads ih =>
    obtain ⟨hne, hreads⟩ := forall_mem_cons.mp hreads
    obtain ⟨hok, hcut⟩ := eachPacket_cons.mp hcut
    have hlt : _ < r.header.length := length_received_lt h ht
    have hfit : t.length + readbuf.length < netbufSize := by
      have hsince : sinceLf (received r.statusLine done t) = t.length :=
        sinceLf_received ht
      have hsize := (hok hlt).2.1
      rwa [hsince] at hsize
    have hrest : t ++ readbuf ++ reads.flatten =
        fieldsText todo ++ ['\r', '\n'] ++ r.body.text := by
      rw [append_assoc]
      exact rest_of_received h hbytes
    rw [download_cons]
    rcases scan_cases (fun f _ => skips f) skipsBlank ⟨_, hrest⟩ with
      ⟨more, todo', t', rfl, hx, ht', -, hscan⟩ | ⟨b, hx, -, hscan⟩
    · -- the read ends within a line
      have hnext : received r.statusLine done t ++ readbuf =
          received r.statusLine (done ++ more) t' := received_append hx
      rw [receive_eq (headerState env hostname port r done) rfl rfl hne hfit
        hscan (foldl_handleLine h), if_neg (live_headerState _)]
      rw [hnext] at hcut
      refine ih hreads (by rw [h, append_assoc]) ht' hcut ?_
      rw [← hnext, append_assoc]
      exact hbytes
    · -- the read has the end of the header
      have hfold : (fieldPairs todo).foldl (handleLine env request)
          (headerState env hostname port r done) =
          headerState env hostname port r r.fields := by
        rw [h]
        exact @foldl_handleLine env request r hostname port done todo []
          (by rw [append_nil, h])
      rw [receive_eq (headerState env hostname port r done) rfl rfl hne hfit
        hscan hfold, if_neg (live_headerState _)]
      refine endOfHeader_ends hgoes (findEnd_read h ht hok hx) ?_ hreads hmax
      rw [hx] at hrest
      simpa using hrest

/-! ## The status line -/

theorem statusLine_ends {before readbuf y : List Char} (hne : readbuf ≠ [])
    (hfit : before.length + readbuf.length < netbufSize)
    (hx : before ++ readbuf = r.statusLine ++ y)
    (hcut : EachPacket (ReadOk r) (before ++ readbuf) reads)
    (hbytes : before ++ readbuf ++ reads.flatten = r.bytes) :
    r.Ends env request (download env request (httpsReceiveResponse env request
      { newDownload hostname port with lefttoparse := before } readbuf)
      reads) := by
  have hrest : y ++ reads.flatten =
      fieldsText r.fields ++ ['\r', '\n'] ++ r.body.text := by
    rw [hx, bytes, header] at hbytes
    simpa only [append_assoc, append_cancel_left_eq] using hbytes
  have hstring : cstring (before ++ readbuf) = r.statusLine ++ cstring y := by
    rw [hx, cstring_append r.nul_not_mem_statusLine]
  have hscan := r.scan_statusLine (cstring y)
  rw [← hstring] at hscan
  rcases @handleStatus_cases env request r hostname port _ rfl with
    ⟨hgoes, hstatus⟩ | ⟨hdead, hends⟩
  · have hfold : ∀ more todo, r.fields = more ++ todo →
        ((("RESPONSE".toList, r.statusText) :: fieldPairs more)).foldl
          (handleLine env request) (newDownload hostname port) =
        headerState env hostname port r more := by
      intro more todo hfields
      rw [foldl_cons, hstatus]
      exact @foldl_handleLine env request r hostname port [] more todo hfields
    rcases scan_cases (fun f _ => skips f) skipsBlank ⟨_, hrest⟩ with
      ⟨more, todo, t, hfields, hy, ht, -, hlines⟩ | ⟨b, hy, -, hlines⟩
    · -- the read ends within the header
      rw [hlines] at hscan
      rw [receive_eq (newDownload hostname port) rfl rfl hne hfit hscan
        (hfold more todo hfields), if_neg (live_headerState _)]
      have hreceived : before ++ readbuf = received r.statusLine more t := by
        rw [hx, hy, received, append_assoc]
      rw [hreceived] at hcut hbytes
      exact reading_ends hmax hreads hgoes hfields ht hcut hbytes
    · -- the read has the whole header
      rw [hlines] at hscan
      rw [receive_eq (newDownload hostname port) rfl rfl hne hfit hscan
        (hfold r.fields [] (append_nil _).symm),
        if_neg (live_headerState _)]
      refine @endOfHeader_ends env request r hostname port reads _ b hgoes ?_ ?_
        hreads hmax
      · have hnetbuf : before ++ readbuf =
            r.statusLine ++ (fieldsText r.fields ++ '\r' :: '\n' :: b) := by
          rw [hx, hy]
        exact (congrArg findEnd hnetbuf).trans
          (findEnd_first r.isLine r.fields b)
      · rw [hy] at hrest
        simpa using hrest
  · -- the status ends the download
    have hfold : (((("RESPONSE".toList, r.statusText)) ::
        (scan httpsDialect (cstring y)).1).foldl (handleLine env request)
        (newDownload hostname port)) =
        handleLine env request (newDownload hostname port)
          ("RESPONSE".toList, r.statusText) := by
      rw [foldl_cons]
      exact foldl_handleLine_dead hdead _
    rw [receive_eq (newDownload hostname port) rfl rfl hne hfit hscan hfold,
      if_pos hdead, download_dead hdead]
    exact hends

/-- While the status line is read. -/
theorem start_ends {before : List Char} (hbefore : before <+: r.statusLine)
    (hlen : before.length < 13) (hcut : EachPacket (ReadOk r) before reads)
    (hbytes : before ++ reads.flatten = r.bytes) :
    r.Ends env request (download env request
      { newDownload hostname port with lefttoparse := before } reads) := by
  have hline := r.thirteen_le_length
  have hstatus : r.statusLine.length = r.lineContent.length + 2 := by
    rw [Response.statusLine, length_append]
    rfl
  have hheader : r.header.length = _ := length_header (append_nil r.fields).symm
  induction reads generalizing before with
  | nil =>
    have hall := congrArg List.length hbytes
    rw [flatten_nil, append_nil, bytes, length_append] at hall
    omega
  | cons readbuf reads ih =>
    obtain ⟨hne, hreads⟩ := forall_mem_cons.mp hreads
    obtain ⟨hok, hcut⟩ := eachPacket_cons.mp hcut
    obtain ⟨hshort, hsize, -⟩ := hok (by omega)
    have hcontent : before <+: r.lineContent :=
      prefix_of_prefix_length_le hbefore (prefix_append _ _)
        (by omega)
    have hlf : '\n' ∉ before := fun h =>
      r.mem_lineContent (hcontent.subset h) (by decide)
    rw [sinceLf_of_not_mem hlf] at hsize
    rw [flatten_cons, ← append_assoc] at hbytes
    have hread : before ++ readbuf <+: r.bytes := ⟨_, hbytes⟩
    have hfirst : r.statusLine <+: r.bytes := by
      simp [bytes, header]
    rw [download_cons]
    rcases Nat.lt_or_ge (before ++ readbuf).length r.statusLine.length with
      hlt | hge
    · -- still less than thirteen bytes
      rw [length_append] at hlt
      have hfew := hshort hlt
      have hpre : before ++ readbuf <+: r.statusLine :=
        prefix_of_prefix_length_le hread hfirst
          (by rw [length_append]; omega)
      have hnul : '\x00' ∉ before ++ readbuf := fun h =>
        r.nul_not_mem_statusLine (hpre.subset h)
      have hscan : scan httpsDialect (cstring (before ++ readbuf)) =
          ([], .left (before ++ readbuf)) := by
        rw [cstring_eq_self hnul]
        exact r.scan_short hpre (by rw [length_append]; exact hfew)
      have hlive : ¬ (newDownload hostname port).outcome ≠ none :=
        not_not.mpr rfl
      rw [@receive_eq env request (newDownload hostname port) before readbuf _ _
        rfl rfl hne hsize hscan (newDownload hostname port) rfl, if_neg hlive]
      exact ih hreads hpre (by rw [length_append]; exact hfew) hcut hbytes
    · obtain ⟨y, hy⟩ : r.statusLine <+: before ++ readbuf :=
        prefix_of_prefix_length_le hfirst hread hge
      exact statusLine_ends hmax hreads hne hsize hy.symm hcut hbytes

end Reads

/-- **Responses in reads.**  If the response is well cut and, for the status 200,
its body is within the limit, then the download ends as the response says. -/
theorem download_ends {reads : List (List Char)}
    (hbytes : reads.flatten = r.bytes)
    (hreads : ∀ readbuf ∈ reads, readbuf ≠ [])
    (hcut : WellCut r reads)
    (hmax : r.status = 200 → r.body.data.length ≤ request.maxSize) :
    r.Ends env request
      (download env request (newDownload hostname port) reads) :=
  @start_ends env request r hostname port reads hmax hreads []
    nil_prefix (by decide) hcut hbytes

/-! ## Samples -/

instance (before readbuf : List Char) : Decidable (ReadOk r before readbuf) :=
  inferInstanceAs (Decidable (_ → (_ → _) ∧ _ ∧ (_ → _)))

def sampleEnvironment : Environment := ⟨fun _ => 0⟩

def sampleRequest : OutgoingWebRequest := ⟨false, 2, 1000, by decide⟩

def sampleSize : SizeLine :=
  ⟨['3'], [], by decide, List.forall_mem_singleton.mpr rfl, by decide,
    fun _ h => by cases h⟩

def sampleLast : SizeLine :=
  ⟨['0'], [], by decide, List.forall_mem_singleton.mpr rfl, by decide,
    fun _ h => by cases h⟩

def sampleResponse : Response where
  minor := '1'
  status := 200
  reason := ['O', 'K']
  fields := [⟨"Transfer-Encoding".toList, "chunked".toList, by decide,
    avoids_of_all (by decide), avoids_of_all (by decide)⟩]
  body := .chunked [⟨sampleSize, ['x', 'y', 'z'], by decide, by decide⟩]
    sampleLast ['\r', '\n']
  minor_ok := by decide
  status_ge := by decide
  status_lt := by decide
  reason_ok := avoids_of_all (by decide)
  fields_ok := List.forall_mem_singleton.mpr (by decide)
  body_ok := ⟨List.forall_mem_singleton.mpr (by decide), by decide, by decide⟩
  coding_ok := iff_of_true (by decide) ⟨_, _, _, rfl⟩

/-- Cuts within the status line, a header, the empty line and a chunk. -/
def sampleReads : List (List Char) :=
  ["HTTP/1".toList, ".1 200 OK\r\nTransfer-".toList,
    "Encoding: chunked\r\n\r".toList, "\n".toList, "3\r".toList,
    "\nxy".toList, "z\r\n0\r\n\r\n".toList]

theorem download_ends_sample :
    sampleResponse.Ends sampleEnvironment sampleRequest
      (download sampleEnvironment sampleRequest
        (newDownload "localhost".toList 443) sampleReads) := by
  have hcut : EachPacket (ReadOk sampleResponse) [] sampleReads := by decide
  exact download_ends (by decide) (by decide) hcut (fun _ => by decide)

def sampleError : Response where
  minor := '1'
  status := 404
  reason := "Not Found".toList
  fields := []
  body := .plain "xyz".toList
  minor_ok := by decide
  status_ge := by decide
  status_lt := by decide
  reason_ok := avoids_of_all (by decide)
  fields_ok := fun _ h => (List.not_mem_nil h).elim
  body_ok := trivial
  coding_ok := iff_of_false (by decide) (fun ⟨_, _, _, h⟩ => by cases h)

/-- The body of an error is not downloaded, even in one read. -/
theorem not_delivered_error :
    [sampleError.bytes].flatten = sampleError.bytes ∧
      (download sampleEnvironment sampleRequest
        (newDownload "localhost".toList 443) [sampleError.bytes]).data
        sampleRequest ≠ sampleError.body.data := by
  constructor <;> decide

end UnrealIrcd.Url
