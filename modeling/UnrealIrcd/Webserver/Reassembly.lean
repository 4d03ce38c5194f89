import UnrealIrcd.Webserver.Request

/-!
# Requests in packets

A request arrives in packets, cut anywhere.  While the first packet has the whole
request line, the lines of the header are put together again.  What remains to go
wrong is said by `WellCut`, and `reassembled_iff` shows that this is all:

* the start of the body is not found if a packet starts with the empty line, or
  within it, and has data of the body;
* body data in the packet that ends the header count as header;
* the limit for a line that has been cut includes the colon, the space and the CR.
-/

namespace UnrealIrcd.Webserver

open Support List

variable (server : WebServer) (r : Request)

/-- Everything arrived: the URI, the headers, and the bytes of the body. -/
def Good (client : Client) : Prop :=
  client.bodies.flatten = r.body ∧ ∃ web, client.web = some web ∧
    web.requestHeaderParsed = true ∧
    web.uri = some (storedUri r.uri (fieldPairs r.fields)) ∧
    web.headers = storedHeaders (fieldPairs r.fields)

/-- The request is put together from its packets. -/
def Reassembled (packets : List (List Char)) : Prop :=
  Good r (packetsIn server newClient packets)

/-- A packet does no harm after some bytes of the request. -/
def PacketOk (before packet : List Char) : Prop :=
  before.length < r.header.length →
    before.length + packet.length ≤ maxHeaderTotalLength ∧
    (before.length + packet.length < r.header.length →
      sinceLf (before ++ packet) ≤ maxHeaderLineLength) ∧
    (r.header.length - 2 ≤ before.length →
      before.length + packet.length ≤ r.header.length)

/-- The request is cut where it does no harm. -/
def WellCut (packets : List (List Char)) : Prop :=
  EachPacket (PacketOk r) [] packets

variable {server r}

/-- After the header nothing can go wrong. -/
theorem eachPacket_of_le {before : List Char}
    (h : r.header.length ≤ before.length) (packets : List (List Char)) :
    EachPacket (PacketOk r) before packets := by
  intro mid packet after _ hlt
  rw [length_append] at hlt
  omega

/-! ## The client while the header arrives -/

/-- The request line has been stored. -/
def freshRequest (r : Request) : WebRequest :=
  ⟨r.method, some r.uri, [], -1, false, [], 0, false⟩

/-- The request line and some of the headers have been stored. -/
def stored (r : Request) (done : List Field) : WebRequest :=
  (fieldPairs done).foldl storeField (freshRequest r)

/-- Some lines of the header have been stored, and a part of the next one is
kept. -/
def reading (r : Request) (done : List Field) (t : List Char) (n : ℕ) :
    Client :=
  { newClient with web := some ((stored r done).keep t n) }

/-- The header has been read. -/
def finished (r : Request) (n : ℕ) (bodies : List (List Char)) : Client :=
  { newClient with
    web := some { (stored r r.fields).keep [] n with
      requestHeaderParsed := true }
    bodies := bodies }

variable {done todo : List Field}

theorem stored_spec (h : r.fields = done ++ todo) :
    (fieldPairs done).foldlM storeHeader (freshRequest r) =
        some (stored r done) ∧
      (stored r done).headers = storedHeaders (fieldPairs done) ∧
      (stored r done).uri = some (storedUri r.uri (fieldPairs done)) ∧
      (stored r done).requestHeaderParsed = false := by
  have hcount := r.count_le
  rw [h, length_append] at hcount
  refine @foldl_storeField_spec (freshRequest r) (fieldPairs done) r.uri rfl
    ?_ ?_
  · have : (freshRequest r).headers.length = 0 := rfl
    rw [this, fieldPairs, length_map]
    omega
  · intro pair hpair
    obtain ⟨f, hf, rfl⟩ := mem_map.mp hpair
    refine r.line_le f ?_
    rw [h]
    exact mem_append_left _ hf

theorem foldlM_stored {more : List Field}
    (h : r.fields = done ++ (more ++ todo)) (left : List Char) (n : ℕ) :
    (fieldPairs more).foldlM storeHeader ((stored r done).keep left n) =
      some ((stored r (done ++ more)).keep left n) := by
  have hmore : (fieldPairs more).foldlM storeHeader (stored r done) =
      some (stored r (done ++ more)) := by
    have hall := (@stored_spec r (done ++ more) todo (by simpa using h)).1
    have hdone := (stored_spec h).1
    unfold fieldPairs at hall hdone ⊢
    rwa [map_append, foldlM_append, hdone] at hall
  rw [foldlM_storeHeader_keep, hmore, Option.map_some]

/-! ## One packet -/

/-- What the end of the lines in a packet makes of the client. -/
def afterLines (server : WebServer) (client : Client) (web : WebRequest)
    (netbuf : List Char) : Ending → Client
  | .left t =>
    if maxHeaderLineLength < t.length then
      webserverSendResponse client 431 "Request header too large"
    else { client with web := some { web with lefttoparse := t } }
  | .ended => endOfRequest server client web netbuf
  | .dropped => { client with web := some web }

theorem handle_eq {web web' : WebRequest} {packet : List Char}
    {pairs : List (List Char × List Char)} {ending : Ending}
    (htotal : web.headerBytes + packet.length ≤ maxHeaderTotalLength)
    (hlines : webserverHandshake (web.lefttoparse ++ packet) = (pairs, ending))
    (hstore : pairs.foldlM storeHeader
      (web.keep [] (web.headerBytes + packet.length)) = some web')
    (client : Client) :
    webserverHandleRequestHeader server client web packet =
      afterLines server client web' (web.lefttoparse ++ packet) ending := by
  unfold webserverHandleRequestHeader
  rw [if_neg (Nat.not_lt.mpr htotal)]
  simp only [WebRequest.keep] at hstore
  simp only [hlines, hstore]
  cases ending <;> rfl

theorem handshake_eq {netbuf : List Char}
    (hbuf : netbuf.length ≤ helperBufSize) :
    webserverHandshake netbuf = scan webserverDialect netbuf := by
  rw [webserverHandshake, take_of_length_le hbuf]

section Packet

variable {t packet : List Char} {n : ℕ}
  (htotal : n + packet.length ≤ maxHeaderTotalLength)
  (hbuf : (t ++ packet).length ≤ helperBufSize)

include htotal hbuf

theorem handle_stored {more : List Field} {ending : Ending}
    (h : r.fields = done ++ (more ++ todo))
    (hscan : scan webserverDialect (t ++ packet) = (fieldPairs more, ending))
    (client : Client) :
    webserverHandleRequestHeader server client ((stored r done).keep t n)
        packet =
      afterLines server client
        ((stored r (done ++ more)).keep [] (n + packet.length))
        (t ++ packet) ending :=
  @handle_eq server ((stored r done).keep t n) _ packet _ _ htotal
    ((handshake_eq hbuf).trans hscan)
    (foldlM_stored h [] (n + packet.length)) client

end Packet

/-- The module behind the listener accepts the request. -/
def Accepts (server : WebServer) (r : Request) : Prop :=
  ∀ web, web.uri = some (storedUri r.uri (fieldPairs r.fields)) →
    web.headers = storedHeaders (fieldPairs r.fields) →
    server.accepts web = true

/-- At the end of the header the search decides what goes to the body handler. -/
theorem endOfRequest_eq (haccepts : Accepts server r) (n : ℕ)
    (netbuf : List Char) {client : Client}
    (hclient : { client with web := none } = newClient) :
    endOfRequest server client ((stored r r.fields).keep [] n) netbuf =
      finished r n (findEnd netbuf).toList := by
  obtain ⟨-, hheaders, huri, -⟩ :=
    @stored_spec r r.fields [] (append_nil _).symm
  have hne : ((stored r r.fields).keep [] n).uri ≠ none := by
    have : ((stored r r.fields).keep [] n).uri = (stored r r.fields).uri := rfl
    rw [this, huri]
    exact Option.some_ne_none _
  have haccepted : server.accepts { (stored r r.fields).keep [] n with
      requestHeaderParsed := true } = true := haccepts _ huri hheaders
  unfold endOfRequest
  rw [if_neg hne]
  rw [if_pos haccepted, findEndOfRequest]
  obtain ⟨web, messages, bodies, irc, responses, dead⟩ := client
  cases hclient
  cases findEnd netbuf <;> rfl

/-! ## The other packets -/

theorem packetsIn_cons (client : Client) (packet : List Char)
    (packets : List (List Char)) :
    packetsIn server client (packet :: packets) =
      packetsIn server (if client.dead then client
        else webserverPacketIn server client packet) packets := rfl

theorem packetsIn_dead {client : Client} (h : client.dead = true)
    (packets : List (List Char)) :
    packetsIn server client packets = client := by
  induction packets with
  | nil => rfl
  | cons packet packets ih => rw [packetsIn_cons, if_pos h, ih]

theorem packetsIn_finished (n : ℕ) (bodies packets : List (List Char)) :
    packetsIn server (finished r n bodies) packets =
      finished r n (bodies ++ packets) := by
  induction packets generalizing bodies with
  | nil => rw [append_nil]; rfl
  | cons packet packets ih =>
    have hpacket : webserverPacketIn server (finished r n bodies) packet =
        finished r n (bodies ++ [packet]) := by
      simp [webserverPacketIn, webserverPossibleRequest, finished, newClient]
    have halive : (finished r n bodies).dead = false := rfl
    rw [packetsIn_cons, halive, if_neg Bool.false_ne_true, hpacket, ih,
      append_assoc, singleton_append]

theorem good_finished {n : ℕ} {bodies : List (List Char)} :
    Good r (finished r n bodies) ↔ bodies.flatten = r.body := by
  obtain ⟨-, hheaders, huri, -⟩ :=
    @stored_spec r r.fields [] (append_nil _).symm
  constructor
  · exact fun h => h.1
  · exact fun h => ⟨h, _, rfl, rfl, huri, hheaders⟩

theorem not_good_refused (h : r.fields = done ++ todo) (t : List Char)
    (n status : ℕ) (msg : String) (packets : List (List Char)) :
    ¬ Good r (packetsIn server
      (webserverSendResponse (reading r done t n) status msg) packets) := by
  rw [packetsIn_dead rfl]
  rintro ⟨-, web, hweb, hparsed, -⟩
  cases hweb
  have hnot : ((stored r done).keep t n).requestHeaderParsed = false :=
    (stored_spec h).2.2.2
  rw [hnot] at hparsed
  cases hparsed

/-! ## The rest of the header -/

variable {post : List (List Char)}

/-- The body arrives from the end of the header on, unless it is searched after
the empty line. -/
theorem body_iff {b body : List Char} (hbody : b ++ post.flatten = body) :
    ((findEnd (fieldsText todo ++ '\r' :: '\n' :: b)).toList ++
      post).flatten = body ↔ (todo = [] → b = []) := by
  subst hbody
  by_cases htodo : todo = []
  · subst htodo
    rw [fieldsText_nil, nil_append]
    cases hfind : findEnd ('\r' :: '\n' :: b) with
    | none => simp
    | some q =>
      have hlt : q.length < b.length := findEnd_blank hfind
      have hne : b ≠ [] := by
        rintro rfl
        exact Nat.not_lt_zero _ hlt
      have hdiffer : q ≠ b := by
        rintro rfl
        exact lt_irrefl _ hlt
      simp [hne, hdiffer]
  · have hfind := @findEnd_fields [] id todo htodo b
    rw [nil_append] at hfind
    rw [hfind]
    by_cases hb : b = []
    · simp [hb]
    · simp [hb, htodo]

section Reading

variable {before t : List Char} (h : r.fields = done ++ todo)
  (ht : Part todo t) (hbefore : before = received r.requestLine done t)

include h ht hbefore

theorem length_lt_of_reading : before.length < r.header.length :=
  hbefore ▸ length_received_lt h ht

theorem packetOk_ended {packet b : List Char}
    (htotal : before.length + packet.length ≤ maxHeaderTotalLength)
    (hx : t ++ packet = fieldsText todo ++ '\r' :: '\n' :: b) :
    PacketOk r before packet ↔ (todo = [] → b = []) := by
  have hlt := length_lt_of_reading h ht hbefore
  have hheader : r.header.length = _ := length_header h
  have hreceived := congrArg List.length hbefore
  rw [length_received] at hreceived
  have hlen := congrArg List.length hx
  simp only [length_append, length_cons] at hlen
  constructor
  · intro hok htodo
    subst htodo
    obtain ⟨-, -, hblank⟩ := hok hlt
    rw [fieldsText_nil, length_nil] at hheader hlen
    exact length_eq_zero_iff.mp (by omega)
  · intro hb _
    refine ⟨htotal, fun hlt => by omega, fun hstart => ?_⟩
    cases todo with
    | nil =>
      rw [hb rfl, length_nil] at hlen
      omega
    | cons f todo =>
      have hpart : t.length < f.text.length := ht.2
      rw [fieldsText_cons, length_append] at hheader
      omega

/-- While the header is read, the request is put together exactly if the rest is
well cut. -/
theorem reading_iff (haccepts : Accepts server r)
    (hlen : t.length ≤ maxHeaderLineLength)
    (hsize : ∀ p ∈ post, p.length ≤ readBufSize)
    (hbytes : before ++ post.flatten = r.bytes) :
    Good r (packetsIn server (reading r done t before.length) post) ↔
      EachPacket (PacketOk r) before post := by
  induction post generalizing done todo t before with
  | nil =>
    -- the header is not complete
    have hlt := length_lt_of_reading h ht hbefore
    have hlen := congrArg List.length hbytes
    rw [flatten_nil, append_nil, Request.bytes, length_append] at hlen
    omega
  | cons packet post ih =>
    obtain ⟨hpacket, hpost⟩ := forall_mem_cons.mp hsize
    have hlt := length_lt_of_reading h ht hbefore
    rw [flatten_cons, ← append_assoc] at hbytes
    have hkeep : ((stored r done).keep t before.length).requestHeaderParsed =
        false := (stored_spec h).2.2.2
    have hfirst : webserverPacketIn server (reading r done t before.length)
        packet = webserverHandleRequestHeader server
          (reading r done t before.length)
          ((stored r done).keep t before.length) packet := by
      simp [webserverPacketIn, webserverPossibleRequest, reading, newClient,
        hkeep]
    have halive : (reading r done t before.length).dead = false := rfl
    rw [packetsIn_cons, halive, if_neg Bool.false_ne_true, hfirst,
      eachPacket_cons]
    have hrest : t ++ packet ++ post.flatten =
        fieldsText todo ++ ['\r', '\n'] ++ r.body := by
      rw [append_assoc, hbefore] at hbytes
      rw [append_assoc]
      exact rest_of_received h hbytes
    rcases Nat.lt_or_ge maxHeaderTotalLength (before.length + packet.length)
      with htotal | htotal
    · -- too much
      have hhandle : webserverHandleRequestHeader server
          (reading r done t before.length)
          ((stored r done).keep t before.length) packet =
          webserverSendResponse (reading r done t before.length) 431
            "Request header too large" := by
        unfold webserverHandleRequestHeader
        exact if_pos htotal
      rw [hhandle]
      refine iff_of_false (not_good_refused h _ _ _ _ _) ?_
      rintro ⟨hok, -⟩
      exact absurd (hok hlt).1 (Nat.not_le.mpr htotal)
    · have hbuf : (t ++ packet).length ≤ helperBufSize := by
        rw [length_append]
        simp only [maxHeaderLineLength, readBufSize, helperBufSize] at *
        omega
      rcases scan_cases (fun f _ => skips f) skipsBlank ⟨_, hrest⟩ with
        ⟨more, todo', t', rfl, hx, ht', hscan, -⟩ | ⟨b, hx, hscan, -⟩
      · -- the packet ends within a line
        have hnext : before ++ packet =
            received r.requestLine (done ++ more) t' := by
          rw [hbefore, received_append hx]
        have hsince : sinceLf (before ++ packet) = t'.length := by
          rw [hnext]
          exact sinceLf_received ht'
        have hfields : r.fields = (done ++ more) ++ todo' := by
          rw [h, append_assoc]
        have hltNext : before.length + packet.length < r.header.length := by
          rw [← length_append, hnext]
          exact length_received_lt hfields ht'
        rw [handle_stored htotal hbuf h hscan, afterLines]
        rcases Nat.lt_or_ge maxHeaderLineLength t'.length with hlong | hline
        · rw [if_pos hlong]
          refine iff_of_false (not_good_refused h _ _ _ _ _) ?_
          rintro ⟨hok, -⟩
          have hle := (hok hlt).2.1 hltNext
          omega
        · have hok : PacketOk r before packet := fun _ =>
            ⟨htotal, fun _ => hsince ▸ hline, fun _ => by omega⟩
          rw [if_neg (Nat.not_lt.mpr hline), ← length_append]
          refine (ih hfields ht' hnext hline hpost hbytes).trans ?_
          exact (and_iff_right hok).symm
      · -- the packet has the end of the header and decides
        have hpast : r.header.length ≤ (before ++ packet).length := by
          have hheader : r.header.length = _ := length_header h
          have hlen := congrArg List.length hx
          simp only [length_append, length_cons] at hlen
          rw [hheader, length_append, hbefore, length_received]
          omega
        have hbody : b ++ post.flatten = r.body := by
          rw [hx] at hrest
          simpa using hrest
        rw [@handle_stored server r done [] _ _ _ htotal hbuf todo _
          (by simpa using h) hscan, ← h, afterLines,
          endOfRequest_eq haccepts _ _ rfl, packetsIn_finished, good_finished,
          hx, body_iff hbody, packetOk_ended h ht hbefore htotal hx]
        exact (and_iff_left (eachPacket_of_le hpast post)).symm

end Reading

/-! ## The first packet -/

def emptyRequest (r : Request) : WebRequest :=
  ⟨r.method, none, [], -1, false, [], 0, false⟩

theorem packetIn_first (x : List Char) :
    webserverPacketIn server newClient (r.requestLine ++ x) =
      webserverHandleRequestHeader server
        { newClient with web := some (emptyRequest r) } (emptyRequest r)
        (r.requestLine ++ x) := by
  have hlen := r.eight_le_length_requestLine
  have hnot : ¬ ((r.requestLine ++ x).length < 8 ∨ newClient.web ≠ none) := by
    rw [length_append]
    rintro (hlt | hweb)
    · omega
    · exact hweb rfl
  have hpossible : webserverPossibleRequest newClient (r.requestLine ++ x) =
      { newClient with web := some (emptyRequest r) } := by
    unfold webserverPossibleRequest
    rw [if_neg hnot, r.getMethod_requestLine]
    rfl
  have hfirst : newClient.messagesReceived = 0 := rfl
  unfold webserverPacketIn
  rw [if_pos hfirst, hpossible]
  rfl

/-- The request line is stored, and the lines after it. -/
theorem foldlM_first {more : List Field} (h : r.fields = more ++ todo) (n : ℕ) :
    (("REQUEST".toList, r.uri) :: fieldPairs more).foldlM storeHeader
        ((emptyRequest r).keep [] n) =
      some ((stored r more).keep [] n) := by
  have hstore : storeHeader ((emptyRequest r).keep [] n)
      ("REQUEST".toList, r.uri) = some ((stored r []).keep [] n) := by
    unfold storeHeader
    rw [if_neg r.uri_ne]
    rfl
  rw [foldlM_cons, hstore]
  exact @foldlM_stored r [] todo more h [] n

theorem packetOk_first {first : List Char} (hsize : first.length ≤ readBufSize) :
    PacketOk r [] first := by
  intro _
  have hlen := r.eight_le_length_requestLine
  have hheader : r.header.length = _ := length_header (append_nil r.fields).symm
  have hsince := sinceLf_le ([] ++ first)
  simp only [nil_append, length_nil, Nat.zero_add] at hsince ⊢
  simp only [readBufSize, maxHeaderTotalLength, maxHeaderLineLength] at *
  exact ⟨by omega, fun _ => by omega, fun _ => by omega⟩

/-- **Requests in packets.**  If the request line arrives in the first packet, the
request is put together exactly if it is well cut. -/
theorem reassembled_iff {first : List Char} {rest : List (List Char)}
    (hbytes : (first :: rest).flatten = r.bytes)
    (hsize : ∀ p ∈ first :: rest, p.length ≤ readBufSize)
    (hfirst : r.requestLine.length ≤ first.length)
    (haccepts : Accepts server r) :
    Reassembled server r (first :: rest) ↔ WellCut r (first :: rest) := by
  obtain ⟨hlen, hrestSize⟩ := forall_mem_cons.mp hsize
  have hpre : r.requestLine <+: first := by
    refine @List.prefix_of_prefix_length_le _ _ _ r.bytes ?_ ?_ hfirst
    · simp [Request.bytes, Request.header]
    · rw [← hbytes, flatten_cons]
      exact prefix_append _ _
  obtain ⟨x, rfl⟩ := hpre
  have hrest : x ++ rest.flatten =
      fieldsText r.fields ++ ['\r', '\n'] ++ r.body := by
    rw [Request.bytes, Request.header, flatten_cons] at hbytes
    simpa only [append_assoc, append_cancel_left_eq] using hbytes
  have hbuf : (r.requestLine ++ x).length ≤ helperBufSize := hlen.trans (by decide)
  have htotal : 0 + (r.requestLine ++ x).length ≤ maxHeaderTotalLength := by
    rw [Nat.zero_add]
    exact hlen.trans (by decide)
  have halive : newClient.dead = false := rfl
  have hscan := (handshake_eq hbuf).trans (r.scan_requestLine x)
  unfold Reassembled WellCut
  rw [packetsIn_cons, halive, if_neg Bool.false_ne_true, packetIn_first,
    eachPacket_cons, and_iff_right (packetOk_first hlen), nil_append]
  rcases scan_cases (fun f _ => skips f) skipsBlank ⟨_, hrest⟩ with
    ⟨more, todo, t, hfields, hx, ht, hlines, -⟩ | ⟨b, hx, hlines, -⟩
  · -- the packet ends within the header
    rw [hlines] at hscan
    have hreceived : r.requestLine ++ x = received r.requestLine more t := by
      rw [hx, received, append_assoc]
    have hline : t.length ≤ maxHeaderLineLength := by
      have hparts := congrArg List.length hreceived
      rw [length_received] at hparts
      simp only [readBufSize, maxHeaderLineLength] at *
      omega
    rw [@handle_eq server (emptyRequest r) _ _ _ _ htotal hscan
      (foldlM_first hfields _), afterLines, if_neg (Nat.not_lt.mpr hline)]
    have hcount : (emptyRequest r).headerBytes + (r.requestLine ++ x).length =
        (r.requestLine ++ x).length := Nat.zero_add _
    rw [hcount]
    exact reading_iff hfields ht hreceived haccepts hline hrestSize hbytes
  · -- the packet has the whole header
    rw [hlines] at hscan
    have hbody : b ++ rest.flatten = r.body := by
      rw [hx] at hrest
      simpa using hrest
    have hpast : r.header.length ≤ (r.requestLine ++ x).length := by
      have hheader : r.header.length = _ :=
        length_header (nil_append r.fields).symm
      rw [hheader, hx]
      simp only [length_append, length_cons, fieldsText_nil, length_nil]
      omega
    have hnil : r.fields = r.fields ++ [] := (append_nil _).symm
    rw [@handle_eq server (emptyRequest r) _ _ _ _ htotal hscan
      (foldlM_first hnil _), afterLines, endOfRequest_eq haccepts _ _ rfl,
      packetsIn_finished, good_finished]
    refine iff_of_true ?_ (eachPacket_of_le hpast rest)
    have hleft : (emptyRequest r).lefttoparse = [] := rfl
    rw [hx, hleft, nil_append, Request.requestLine, findEnd_first r.isLine,
      ← hbody]
    by_cases hb : b = [] <;> simp [hb]

instance (before packet : List Char) : Decidable (PacketOk r before packet) :=
  inferInstanceAs (Decidable (_ → _ ∧ (_ → _) ∧ (_ → _)))

def sampleRequest : Request where
  method := .get
  uri := "/index".toList
  version := "HTTP/1.1".toList
  fields := [⟨"A".toList, "b".toList, by decide,
    avoids_of_all (by decide), avoids_of_all (by decide)⟩]
  body := "xyz".toList
  uri_ne := by decide
  uri_ok := avoids_of_all (by decide)
  version_ok := avoids_of_all (by decide)
  count_le := by decide
  line_le := by decide
  size_le := by decide

def sampleServer : WebServer := ⟨fun _ => true⟩

/-- A cut within a header and one within the empty line. -/
theorem reassembled_sample :
    Reassembled sampleServer sampleRequest
      ["GET /index HTTP/1.1\r\nA: ".toList, "b\r\n\r".toList, "\n".toList,
        "xyz".toList] := by
  refine (reassembled_iff (by decide) (by decide) (by decide)
    fun _ _ _ => rfl).mpr ?_
  unfold WellCut
  decide

/-- A cut within the request line loses the rest of it, and the request. -/
theorem not_reassembled_requestLine :
    ["GET /ind".toList, "ex HTTP/1.1\r\nA: b\r\n\r\nxyz".toList].flatten =
        sampleRequest.bytes ∧
      Accepts sampleServer sampleRequest ∧
      ¬ Reassembled sampleServer sampleRequest
        ["GET /ind".toList, "ex HTTP/1.1\r\nA: b\r\n\r\nxyz".toList] := by
  refine ⟨by decide, fun _ _ _ => rfl, ?_⟩
  rintro ⟨hbody, -⟩
  revert hbody
  decide

end UnrealIrcd.Webserver
