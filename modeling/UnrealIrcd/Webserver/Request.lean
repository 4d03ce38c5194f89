import UnrealIrcd.Webserver.Model

/-!
# Well-formed requests

A request as a client sends it (`Request.bytes`), and what the web server is to
store of it: the URI and the headers that have a value.  A header by the name of
`Request` is taken for a request line, in one packet as in many.
-/

namespace UnrealIrcd.Webserver

open Support List

def HttpMethod.text : HttpMethod → List Char
  | .head => "HEAD ".toList
  | .get => "GET ".toList
  | .put => "PUT ".toList
  | .post => "POST ".toList

/-- A well-formed request within the limits. -/
structure Request where
  method : HttpMethod
  uri : List Char
  version : List Char
  fields : List Field
  body : List Char
  uri_ne : uri ≠ []
  uri_ok : ∀ c ∈ uri, c ∉ [' ', '\r', '\n', '\x00']
  version_ok : ∀ c ∈ version, c ∉ ['\r', '\n', '\x00']
  count_le : fields.length ≤ maxHeaders
  line_le : ∀ f ∈ fields,
    f.name.length + f.value.length ≤ maxHeaderLineLength
  size_le : (method.text ++ uri ++ [' '] ++ version ++ ['\r', '\n'] ++
    fieldsText fields ++ ['\r', '\n']).length ≤ maxHeaderTotalLength

namespace Request

variable (r : Request)

def lineContent : List Char := r.method.text ++ r.uri ++ [' '] ++ r.version

def requestLine : List Char := r.lineContent ++ ['\r', '\n']

def header : List Char :=
  r.requestLine ++ fieldsText r.fields ++ ['\r', '\n']

def bytes : List Char := r.header ++ r.body

/-! ## The request line -/

theorem mem_lineContent {c : Char} (h : c ∈ r.lineContent) :
    c ∉ ['\r', '\n', '\x00'] := by
  simp only [lineContent, append_assoc, mem_append, mem_singleton] at h
  rcases h with h | h | rfl | h
  · cases hmethod : r.method <;> rw [hmethod] at h <;>
      exact all_eq_true.mp
        (by decide : (HttpMethod.text _).all
          fun c => c ∉ ['\r', '\n', '\x00']) c h |> of_decide_eq_true
  · have hc := r.uri_ok c h
    simp only [mem_cons, not_or] at hc ⊢
    tauto
  · decide
  · exact r.version_ok c h

theorem eight_le_length_requestLine : 8 ≤ r.requestLine.length := by
  have huri := length_pos_of_ne_nil r.uri_ne
  have hmethod : 4 ≤ r.method.text.length := by
    cases r.method <;> decide
  simp only [requestLine, lineContent, length_append, length_cons, length_nil]
  omega

theorem getMethod_requestLine (rest : List Char) :
    webserverGetMethod (r.requestLine ++ rest) = some r.method := by
  have hline : r.requestLine ++ rest =
      r.method.text ++ (r.uri ++ [' '] ++ r.version ++ ['\r', '\n'] ++ rest) :=
    by simp [requestLine, lineContent]
  rw [hline]
  cases r.method <;> rfl

theorem requestValue_requestLine (rest : List Char) :
    requestValue (r.requestLine ++ rest) = r.uri := by
  have hline : r.requestLine ++ rest =
      r.method.text ++ (r.uri ++
        ' ' :: (r.version ++ ['\r', '\n'] ++ rest)) := by
    simp [requestLine, lineContent]
  have hmethod : ∀ s : List Char,
      ((r.method.text ++ s).dropWhile (· != ' ')).tail = s := by
    intro s
    cases r.method <;> rfl
  rw [requestValue, hline, hmethod, takeWhile_append_of_pos]
  · simp
  · intro c hc
    have := r.uri_ok c hc
    simp only [mem_cons, not_or] at this
    simp [this]

theorem isLine : IsLine r.lineContent :=
  ⟨by simp [lineContent, r.uri_ne], fun _ => r.mem_lineContent⟩

theorem scan_requestLine (rest : List Char) :
    scan webserverDialect (r.requestLine ++ rest) =
      (("REQUEST".toList, r.uri) :: (scan webserverDialect rest).1,
        (scan webserverDialect rest).2) := by
  have hfirst : webserverDialect.isFirst (r.requestLine ++ rest) = true := by
    simp [webserverDialect, r.getMethod_requestLine]
  have hscan := scan_first r.isLine hfirst
  have hvalue : webserverDialect.value (r.requestLine ++ rest) = r.uri :=
    r.requestValue_requestLine rest
  rw [requestLine] at hvalue ⊢
  rw [hscan, hvalue]
  rfl

end Request

/-! ## Fields are no request lines -/

theorem skips (f : Field) : webserverDialect.Skips f := by
  intro s hs
  have hnone : webserverGetMethod s = none := by
    have hword : ∀ m : HttpMethod, m.text.isPrefixOf s = false := by
      intro m
      rw [Bool.eq_false_iff, ne_eq, isPrefixOf_iff_prefix]
      refine f.not_prefix ' ' (by decide) ?_ ?_ hs
      · cases m <;> decide
      · cases m <;> decide
    have hhead : "HEAD ".toList.isPrefixOf s = false := hword .head
    have hget : "GET ".toList.isPrefixOf s = false := hword .get
    have hput : "PUT ".toList.isPrefixOf s = false := hword .put
    have hpost : "POST ".toList.isPrefixOf s = false := hword .post
    unfold webserverGetMethod
    rw [hhead, hget, hput, hpost]
    rfl
  simp [webserverDialect, hnone]

theorem skipsBlank : webserverDialect.SkipsBlank := by
  constructor <;> decide

/-! ## What is stored -/

/-- A line takes the place of the request line. -/
def isRequestKey (pair : List Char × List Char) : Bool :=
  strcasecmpEq pair.1 "REQUEST".toList

def storedHeaders (pairs : List (List Char × List Char)) :
    List (List Char × List Char) :=
  pairs.filter fun pair => pair.2 != [] && !isRequestKey pair

def storedUri (uri : List Char) (pairs : List (List Char × List Char)) :
    List Char :=
  ((pairs.filter fun pair =>
    pair.2 != [] && isRequestKey pair).getLast?.map Prod.snd).getD uri

/-- `storeHeader` for a line within the limits. -/
def storeField (web : WebRequest) (pair : List Char × List Char) :
    WebRequest :=
  (storeHeader web pair).getD web

/-- What is kept between packets, and the count of bytes. -/
def WebRequest.keep (web : WebRequest) (left : List Char) (bytes : ℕ) :
    WebRequest :=
  { web with lefttoparse := left, headerBytes := bytes }

theorem foldlM_storeHeader_keep (web : WebRequest) (left : List Char)
    (bytes : ℕ) (pairs : List (List Char × List Char)) :
    pairs.foldlM storeHeader (web.keep left bytes) =
      (pairs.foldlM storeHeader web).map fun web => web.keep left bytes := by
  induction pairs generalizing web with
  | nil => rfl
  | cons pair pairs ih =>
    have hpair : storeHeader (web.keep left bytes) pair =
        (storeHeader web pair).map fun web => web.keep left bytes := by
      unfold storeHeader WebRequest.keep
      split_ifs <;> rfl
    rw [foldlM_cons, foldlM_cons, hpair]
    cases storeHeader web pair with
    | none => rfl
    | some web => exact ih web

section

variable {web : WebRequest} {pair : List Char × List Char}
  (hcount : web.headers.length < maxHeaders)
  (hline : pair.1.length + pair.2.length ≤ maxHeaderLineLength)

include hcount hline

theorem not_over_limit : ¬ (maxHeaders ≤ web.headers.length ∨
    maxHeaderLineLength < pair.1.length + pair.2.length) := by
  omega

theorem storeHeader_eq : storeHeader web pair = some (storeField web pair) := by
  unfold storeField storeHeader
  rw [if_neg (not_over_limit hcount hline)]
  split_ifs <;> rfl

theorem storeField_spec :
    (storeField web pair).headers = web.headers ++ storedHeaders [pair] ∧
      (storeField web pair).uri =
        (if pair.2 != [] && isRequestKey pair then some pair.2 else web.uri) ∧
      (storeField web pair).requestHeaderParsed = web.requestHeaderParsed := by
  have hreq : strcasecmpEq pair.1 "REQUEST".toList = isRequestKey pair := rfl
  unfold storeField storeHeader storedHeaders
  rw [if_neg (not_over_limit hcount hline), hreq, filter_singleton]
  by_cases hvalue : pair.2 = []
  · simp [hvalue]
  · have hne : (pair.2 != []) = true := bne_iff_ne.mpr hvalue
    cases isRequestKey pair with
    | true => simp [hvalue]
    | false =>
      simp only [if_neg hvalue, Bool.false_eq_true, if_false, hne,
        Bool.not_false, Bool.and_self, Bool.and_false]
      split_ifs <;> exact ⟨rfl, rfl, rfl⟩

end

theorem foldl_storeField_spec {web : WebRequest}
    {pairs : List (List Char × List Char)} {uri : List Char}
    (huri : web.uri = some uri)
    (hcount : web.headers.length + pairs.length ≤ maxHeaders)
    (hline : ∀ pair ∈ pairs,
      pair.1.length + pair.2.length ≤ maxHeaderLineLength) :
    pairs.foldlM storeHeader web = some (pairs.foldl storeField web) ∧
      (pairs.foldl storeField web).headers =
        web.headers ++ storedHeaders pairs ∧
      (pairs.foldl storeField web).uri = some (storedUri uri pairs) ∧
      (pairs.foldl storeField web).requestHeaderParsed =
        web.requestHeaderParsed := by
  induction pairs generalizing web uri with
  | nil => exact ⟨rfl, (append_nil _).symm, huri, rfl⟩
  | cons pair pairs ih =>
    rw [length_cons] at hcount
    have hpair := hline pair mem_cons_self
    have hlt : web.headers.length < maxHeaders := by omega
    obtain ⟨hheaders, huri', hparsed⟩ := storeField_spec hlt hpair
    have hstored : (storedHeaders [pair]).length ≤ 1 := length_filter_le ..
    obtain ⟨hfold, hheaders', hstoredUri, hparsed'⟩ :=
      @ih (storeField web pair)
        (if pair.2 != [] && isRequestKey pair then pair.2 else uri)
        (by
          rw [huri', huri]
          split <;> rfl)
        (by
          rw [hheaders, length_append]
          omega)
        (fun p hp => hline p (mem_cons_of_mem _ hp))
    refine ⟨?_, ?_, ?_, hparsed'.trans hparsed⟩
    · rw [foldlM_cons, storeHeader_eq hlt hpair]
      exact hfold
    · rw [foldl_cons, hheaders', hheaders, append_assoc]
      unfold storedHeaders
      rw [← filter_append, singleton_append]
    · rw [foldl_cons, hstoredUri]
      unfold storedUri
      rw [filter_cons]
      cases hkey : (pair.2 != [] && isRequestKey pair) with
      | true =>
        simp only [if_true, getLast?_cons]
        cases (pairs.filter fun pair =>
          pair.2 != [] && isRequestKey pair).getLast? <;> rfl
      | false => simp

end UnrealIrcd.Webserver
