import UnrealIrcd.Url.Model

/-!
# Well-formed responses

A response as a server sends it (`Response.bytes`), and how a download is to end
that reads it (`Response.Ends`): with the status, for the status 200 with the
headers that mean something to it and with the bytes of the body, and for other
statuses with no data.
-/

namespace UnrealIrcd.Url

open Support List

def Download.data (handle : Download) (request : OutgoingWebRequest) :
    List Char :=
  if request.storeInFile then handle.fileData else handle.memoryData

theorem Download.data_eq_nil {handle : Download}
    (hfile : handle.fileData = []) (hmemory : handle.memoryData = [])
    (request : OutgoingWebRequest) : handle.data request = [] := by
  rw [data, hfile, hmemory, ite_self]

/-- The body: as it is, or in chunks up to one of size zero. -/
inductive Body where
  | plain (data : List Char)
  | chunked (chunks : List Chunk) (last : SizeLine) (trailer : List Char)

def Body.data : Body → List Char
  | .plain data => data
  | .chunked chunks _ _ => chunksData chunks

def Body.text : Body → List Char
  | .plain data => data
  | .chunked chunks last trailer => chunksText chunks ++ last.text ++ trailer

/-- The lines with sizes are within the limit. -/
def Body.Ok : Body → Prop
  | .plain _ => True
  | .chunked chunks last _ =>
    (∀ chunk ∈ chunks,
      chunk.line.content.length ≤ httpsMaxChunkHeaderLen) ∧
      last.content.length ≤ httpsMaxChunkHeaderLen ∧ last.size = 0

def isChunked (f : Field) : Bool :=
  strcasecmpEq f.name "Transfer-Encoding".toList &&
    strcasecmpEq f.value "chunked".toList

/-- The value of the last line with a name. -/
def lookupField (fields : List Field) (name : String) : Option (List Char) :=
  (fields.filter fun f => strcasecmpEq f.name name.toList).getLast?.map
    Field.value

structure Response where
  minor : Char
  status : ℕ
  reason : List Char
  fields : List Field
  body : Body
  minor_ok : minor.isDigit = true
  status_ge : 100 ≤ status
  status_lt : status < 1000
  reason_ok : ∀ c ∈ reason, c ∉ ['\r', '\n', '\x00']
  fields_ok : ∀ f ∈ fields, strcasecmpEq f.name "RESPONSE".toList = false
  body_ok : body.Ok
  coding_ok : fields.any isChunked = true ↔
    ∃ chunks last trailer, body = .chunked chunks last trailer

namespace Response

variable (r : Response)

def statusText : List Char := decimal r.status ++ ' ' :: r.reason

def lineContent : List Char :=
  ['H', 'T', 'T', 'P', '/', '1', '.', r.minor, ' '] ++ r.statusText

def statusLine : List Char := r.lineContent ++ ['\r', '\n']

def header : List Char := r.statusLine ++ fieldsText r.fields ++ ['\r', '\n']

def bytes : List Char := r.header ++ r.body.text

/-! ## What is to come of it -/

def lastModified (env : Environment) : ℤ :=
  ((lookupField r.fields "Last-Modified").map env.rfc2616TimeToUnixTime).getD 0

def outcome (request : OutgoingWebRequest) (handle : Download) : Outcome :=
  if r.status = 304 then .cached
  else if 301 ≤ r.status ∧ r.status ≤ 308 then
    if request.maxRedirects = 0 then
      .cancelled (snprintf 512 tooManyRedirects)
    else
      match lookupField r.fields "Location" with
      | some location => .redirected (actualUrl handle location)
      | none => .cancelled (snprintf 512
          "HTTP Redirect encountered but no URL specified!?".toList)
  else if r.status ≠ 200 then
    .cancelled (snprintf 512 ("HTTP Error: ".toList ++ r.statusText))
  else .done

/-- The download has ended as the response says. -/
def Ends (env : Environment) (request : OutgoingWebRequest)
    (handle : Download) : Prop :=
  handle.outcome = some (r.outcome request handle) ∧
    handle.httpStatusCode = r.status ∧
    if r.status = 200 then
      handle.lastModified = r.lastModified env ∧
      handle.redirectNewLocation = lookupField r.fields "Location" ∧
      handle.data request = r.body.data
    else handle.data request = []

/-! ## The status line -/

theorem isDigit_of_mem_status {c : Char} (h : c ∈ decimal (r.status : ℤ)) :
    c.isDigit = true := by
  rw [decimal, if_neg (by omega), Int.natAbs_natCast] at h
  exact isDigit_of_mem_toDigits c h

theorem mem_lineContent {c : Char} (h : c ∈ r.lineContent) :
    c ∉ ['\r', '\n', '\x00'] := by
  have hdigit : ∀ {c : Char}, c.isDigit = true → c ∉ ['\r', '\n', '\x00'] := by
    intro c hc hmem
    simp only [mem_cons, not_mem_nil, or_false] at hmem
    rcases hmem with rfl | rfl | rfl <;> exact absurd hc (by decide)
  rcases mem_append.mp h with h | h
  · simp only [mem_cons, not_mem_nil, or_false] at h
    rcases h with rfl | rfl | rfl | rfl | rfl | rfl | rfl | rfl | rfl
    all_goals first | decide | exact hdigit r.minor_ok
  · rcases mem_append.mp h with h | h
    · exact hdigit (r.isDigit_of_mem_status h)
    · rcases mem_cons.mp h with rfl | h
      · decide
      · exact r.reason_ok c h

theorem isLine : IsLine r.lineContent :=
  ⟨by simp [lineContent], fun _ => r.mem_lineContent⟩

theorem thirteen_le_length : 13 ≤ r.lineContent.length := by
  have hdigits : ∀ n < 1000, 100 ≤ n → 3 ≤ (Nat.toDigits 10 n).length := by
    decide +kernel
  have hstatus : 3 ≤ (decimal (r.status : ℤ)).length := by
    rw [decimal, if_neg (by omega), Int.natAbs_natCast]
    exact hdigits _ r.status_lt r.status_ge
  simp only [lineContent, statusText, length_append, length_cons, length_nil]
  omega

theorem atoi_statusText : atoi r.statusText = r.status := by
  have hlt := r.status_lt
  have hspace : NoDigit (' ' :: r.reason) := (noDigit_cons _ _).mpr (by decide)
  exact atoi_decimal_append (by omega) (by omega) hspace

theorem nul_not_mem_statusLine : '\x00' ∉ r.statusLine := by
  intro h
  rcases mem_append.mp h with h | h
  · exact r.mem_lineContent h (by decide)
  · exact absurd h (by decide)

theorem isFirst_eq (s : List Char) :
    httpsDialect.isFirst s = ("HTTP/1".toList.isPrefixOf s &&
      decide (13 ≤ (cstring s).length)) := rfl

theorem scan_statusLine (rest : List Char) :
    scan httpsDialect (r.statusLine ++ rest) =
      (("RESPONSE".toList, r.statusText) :: (scan httpsDialect rest).1,
        (scan httpsDialect rest).2) := by
  have hfirst : httpsDialect.isFirst (r.statusLine ++ rest) = true := by
    have hlen := r.thirteen_le_length
    have hlong : 13 ≤ (cstring (r.statusLine ++ rest)).length := by
      rw [cstring_append r.nul_not_mem_statusLine, length_append,
        statusLine, length_append]
      omega
    have hhttp : "HTTP/1".toList.isPrefixOf (r.statusLine ++ rest) = true := rfl
    rw [isFirst_eq, hhttp, decide_eq_true hlong]
    rfl
  have hvalue : httpsDialect.value (r.statusLine ++ rest) = r.statusText := by
    have hdef : httpsDialect.value (r.statusLine ++ rest) =
        (r.statusText ++ ['\r', '\n'] ++ rest).takeWhile fun c =>
          c != '\r' && c != '\n' && c != '\x00' := rfl
    rw [hdef, append_assoc, takeWhile_append_of_pos]
    · simp
    · intro c hc
      have hmem : c ∈ r.lineContent := mem_append_right _ hc
      have := r.mem_lineContent hmem
      simp only [mem_cons, not_or] at this
      simp [this]
  have hscan := scan_first r.isLine hfirst
  rw [statusLine] at hvalue ⊢
  rw [hscan, hvalue]
  rfl

theorem scan_short {x : List Char} (hx : x <+: r.statusLine)
    (hlen : x.length < 13) : scan httpsDialect x = ([], .left x) := by
  have hcontent : x <+: r.lineContent :=
    prefix_of_prefix_length_le hx (prefix_append _ _)
      (hlen.le.trans r.thirteen_le_length)
  refine scan_of_cut (scanLine_cut ?_ ?_)
  · have hshort : ¬ 13 ≤ (cstring x).length := by
      have hle := (takeWhile_sublist (l := x) (· != '\x00')).length_le
      exact Nat.not_le.mpr (hle.trans_lt hlen)
    rw [isFirst_eq, decide_eq_false hshort, Bool.and_false]
  · exact fun h => r.mem_lineContent (hcontent.subset h) (by decide)

end Response

/-! ## Fields are no status lines -/

theorem skips (f : Field) : httpsDialect.Skips f := by
  intro s hs
  have hword : "HTTP/1".toList.isPrefixOf s = false := by
    rw [Bool.eq_false_iff, ne_eq, isPrefixOf_iff_prefix]
    exact f.not_prefix '/' (by decide) (by decide) (by decide) hs
  rw [Response.isFirst_eq, hword, Bool.false_and]

theorem skipsBlank : httpsDialect.SkipsBlank := by
  constructor <;> decide

end UnrealIrcd.Url
