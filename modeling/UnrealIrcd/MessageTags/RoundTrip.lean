import UnrealIrcd.MessageTags.Encoding
import Mathlib.Algebra.Order.BigOperators.Group.List
import Mathlib.Algebra.Order.Ring.Nat

/-!
# Round trip of message tags

Tags whose texts fit into the buffers of `mtags_to_string` are parsed back.
Conversely, parsing never gives tags whose texts together are longer than the
string they came from, so tags that do not fit never come back.
-/

namespace UnrealIrcd.MessageTags

open Support List

/-! ## Parsing -/

variable {buf : List Char} {m : MessageTag} {ms : List MessageTag}

section Parsing

variable {handlers : List MessageTagHandler} {client : Client}

/-- The incoming filter lets a tag pass. -/
def Admitted (handlers : List MessageTagHandler) (client : Client)
    (m : MessageTag) : Prop :=
  messageTagOk handlers client m.name (m.value.getD []) = true

instance : DecidablePred (Admitted handlers client) :=
  fun m => inferInstanceAs (Decidable (messageTagOk handlers client m.name
    (m.value.getD []) = true))

theorem admitted_tagOfElement (element : List Char) :
    Admitted handlers client (tagOfElement element) ↔
      messageTagOk handlers client (parseElement element).1
        (parseElement element).2 = true := by
  unfold Admitted tagOfElement
  by_cases hnil : (parseElement element).2 = []
  · simp [hnil]
  · simp [hnil]

theorem parseElements_eq
    (mtagList : List MessageTag) (elements : List (List Char)) :
    parseElements handlers client mtagList elements =
      ((elements.map tagOfElement).filter
        (fun m => Admitted handlers client m)).reverse ++ mtagList := by
  induction elements generalizing mtagList with
  | nil => rfl
  | cons element elements ih =>
    simp only [parseElements, map_cons, filter_cons]
    by_cases hok : messageTagOk handlers client (parseElement element).1
        (parseElement element).2 = true
    · have hadmitted := (admitted_tagOfElement element).mpr hok
      simp only [hok, if_true, ih, hadmitted, decide_true, reverse_cons,
        append_assoc]
      rfl
    · have hrefused := mt (admitted_tagOfElement element).mp hok
      simp only [hok, Bool.false_eq_true, if_false, ih, hrefused, decide_false]

def admittedTags (handlers : List MessageTagHandler) (client : Client)
    (s : List Char) : List MessageTag :=
  ((strtokens (· == ';') s).map tagOfElement).filter
    fun m => Admitted handlers client m

theorem parseLine_lineWithTags {s line : List Char}
    (hserver : client.isServer = true) (hne : s ≠ []) (hspace : ' ' ∉ s)
    (hlimit : s.length < serverTagSizeLimit) (hline : line.head? ≠ some ' ') :
    parseLine handlers client (lineWithTags (some s) line) =
      ((admittedTags handlers client s).reverse, line) := by
  have htext : lineWithTags (some s) line = '@' :: (s ++ ' ' :: line) := by
    cases s with
    | nil => exact absurd rfl hne
    | cons c s => rfl
  have hscan : ' ' ∉ '@' :: s := by simpa using hspace
  have htake : ('@' :: (s ++ ' ' :: line)).takeWhile (· != ' ') = '@' :: s :=
    takeWhile_bne_append hscan
  have hdrop : ('@' :: (s ++ ' ' :: line)).dropWhile (· != ' ') = ' ' :: line :=
    dropWhile_bne_append (s := '@' :: s) hscan
  have hsize : ¬ ('@' :: s).length > serverTagSizeLimit := Nat.not_lt.mpr hlimit
  have hrest : line.dropWhile (· == ' ') = line := by
    cases line with
    | nil => rfl
    | cons c line =>
      have hc : (c == ' ') = false := by simpa using hline
      simp [hc]
  have hmessage : parseMessageTags handlers client
      ('@' :: (s ++ ' ' :: line)) =
        ((admittedTags handlers client s).reverse, line) := by
    simp only [parseMessageTags, htake, hdrop, hserver, if_true, if_neg hsize,
      parseElements_eq, append_nil]
    rfl
  have hat : ('@' :: (s ++ ' ' :: line)).dropWhile (· == ' ') =
      '@' :: (s ++ ' ' :: line) := rfl
  rw [htext, parseLine, hat]
  simp only [hmessage, hrest]

theorem sum_encodedSize_admittedTags_le
    {s : List Char} (h : ∀ c ∈ s, c ≠ ';' → isPlain c = true) :
    ((admittedTags handlers client s).map encodedSize).sum ≤ s.length + 1 := by
  have hfilter : ((admittedTags handlers client s).map encodedSize).sum ≤
      (((strtokens (· == ';') s).map tagOfElement).map encodedSize).sum :=
    (filter_sublist.map encodedSize).sum_le_sum (by simp)
  have htokens : (((strtokens (· == ';') s).map tagOfElement).map
      encodedSize).sum ≤
        ((strtokens (· == ';') s).map (fun token => token.length + 1)).sum := by
    rw [map_map]
    apply sum_le_sum
    intro token htoken
    refine encodedSize_tagOfElement_le fun c hc => ?_
    obtain ⟨hmem, hsep⟩ := mem_of_mem_strtokens htoken c hc
    exact h c hmem (by simpa using hsep)
  exact (hfilter.trans htokens).trans (sum_length_strtokens_le s)

theorem sum_encodedSize_dropLast_le
    (h : ∀ c ∈ buf, c ≠ ';' → isPlain c = true) :
    ((admittedTags handlers client buf.dropLast).map encodedSize).sum ≤
      buf.length := by
  by_cases hnil : buf = []
  · simp [hnil, admittedTags]
  · have hpos := length_pos_iff.mpr hnil
    have hle : ((admittedTags handlers client buf.dropLast).map
        encodedSize).sum ≤ buf.dropLast.length + 1 :=
      sum_encodedSize_admittedTags_le fun c hc =>
        h c ((dropLast_sublist buf).subset hc)
    rw [length_dropLast] at hle
    omega

theorem elementOf_ne_nil (h : m.WellFormed) : elementOf m ≠ [] := by
  have hpos : 0 < (escapeAll m.name).length :=
    lt_of_lt_of_le (length_pos_iff.mpr h.name_ne_nil)
      (length_le_length_escapeAll m.name)
  unfold elementOf
  cases m.value <;> simp [length_pos_iff.mp hpos]

theorem strtokens_join (hwf : ∀ m ∈ ms, m.WellFormed) :
    strtokens (· == ';') (ms.flatMap encodeTag).dropLast =
      ms.map elementOf := by
  have hjoin : ms.flatMap encodeTag =
      (ms.map elementOf).flatMap fun t => t ++ [';'] := by
    rw [flatMap_map, funext encodeTag_eq]
  rw [hjoin]
  apply strtokens_dropLast_flatMap (by decide)
  · intro t ht
    obtain ⟨m, hm, rfl⟩ := mem_map.mp ht
    exact elementOf_ne_nil (hwf m hm)
  · intro t ht c hc
    obtain ⟨m, hm, rfl⟩ := mem_map.mp ht
    have hplain := isPlain_of_mem_elementOf hc
    simp only [isPlain, Bool.and_eq_true, bne_iff_ne] at hplain
    simpa using hplain.1.1.1

theorem admittedTags_join (hwf : ∀ m ∈ ms, m.WellFormed)
    (hadmitted : ∀ m ∈ ms, Admitted handlers client m) :
    admittedTags handlers client (ms.flatMap encodeTag).dropLast = ms := by
  have hall : (ms.map elementOf).map tagOfElement = ms := by
    rw [map_map]
    conv_rhs => rw [← map_id ms]
    exact map_congr_left fun m hm => tagOfElement_elementOf (hwf m hm)
  rw [admittedTags, strtokens_join hwf, hall, filter_eq_self]
  simpa using hadmitted

end Parsing

/-! ## Serialising -/

section Serialising

variable {handlers : List MessageTagHandler} {client : Client}

def tbufRoom : ℕ := 4093

def bufRoom : ℕ := 4095

structure Client.IsMtagsLink (client : Client) : Prop where
  accepts_all : (client.isServer || !client.myConnect) = true
  has_mtags : client.lacksMtags = false

def appendTag (buf : List Char) (m : MessageTag) : List Char :=
  strlcat buf (snprintf 4094 (tagText m)) 4096

theorem mtagsToStringLoop_eq
    (h : client.IsMtagsLink) (buf : List Char) (ms : List MessageTag) :
    mtagsToStringLoop handlers (some client) buf ms =
      ms.foldl appendTag buf := by
  have haccepts : ∀ name, clientAcceptsTag handlers name client = true := by
    intro name
    rw [clientAcceptsTag, if_pos h.accepts_all]
  induction ms generalizing buf with
  | nil => rfl
  | cons m ms ih =>
    rw [mtagsToStringLoop, foldl_cons, ← ih]
    simp [haccepts, appendTag]

theorem length_tagText_le (m : MessageTag) :
    (tagText m).length ≤ encodedSize m := by
  have hname := (messageTagEscape_isPrefixOf m.name 8192).length_le
  unfold tagText encodedSize encodeTag
  cases m.value with
  | none =>
    simp only [length_append]
    omega
  | some value =>
    have hvalue := (messageTagEscape_isPrefixOf value 8192).length_le
    simp only [length_append, length_cons]
    omega

theorem tagText_eq_encodeTag (h : encodedSize m ≤ tbufRoom) :
    tagText m = encodeTag m := by
  unfold encodedSize tbufRoom encodeTag at h
  unfold tagText encodeTag
  cases hvalue : m.value with
  | none =>
    simp only [hvalue, length_append] at h ⊢
    rw [messageTagEscape_eq_escapeAll (by omega)]
  | some value =>
    simp only [hvalue, length_append, length_cons] at h ⊢
    rw [messageTagEscape_eq_escapeAll (by omega),
      messageTagEscape_eq_escapeAll (by omega)]

theorem isPlain_of_mem_tagText {c : Char} (h : c ∈ tagText m) (hc : c ≠ ';') :
    isPlain c = true := by
  have hmem : ∀ s, c ∈ messageTagEscape s 8192 → isPlain c = true :=
    fun s hs => isPlain_of_mem_escapeAll
      ((messageTagEscape_isPrefixOf s 8192).subset hs)
  unfold tagText at h
  cases hvalue : m.value with
  | none =>
    simp only [hvalue, mem_append, mem_singleton] at h
    exact h.elim (hmem _) fun heq => absurd heq hc
  | some value =>
    simp only [hvalue, mem_append, mem_cons, not_mem_nil, or_false] at h
    rcases h with h | rfl | h | h
    · exact hmem _ h
    · decide
    · exact hmem _ h
    · exact absurd h hc

theorem length_foldl_appendTag_le (buf : List Char) (ms : List MessageTag) :
    (ms.foldl appendTag buf).length ≤
      buf.length + (ms.map fun m => min (encodedSize m) tbufRoom).sum := by
  induction ms generalizing buf with
  | nil => simp
  | cons m ms ih =>
    have htext := length_tagText_le m
    have hcut : (snprintf 4094 (tagText m)).length ≤
        min (encodedSize m) tbufRoom := by
      simp only [snprintf, length_take, tbufRoom]
      omega
    have happend : (appendTag buf m).length ≤
        buf.length + (snprintf 4094 (tagText m)).length :=
      length_strlcat_le
    have hlater := ih (appendTag buf m)
    simp only [foldl_cons, map_cons, sum_cons]
    omega

theorem length_foldl_appendTag_le_bufRoom (h : buf.length ≤ bufRoom)
    (ms : List MessageTag) : (ms.foldl appendTag buf).length ≤ bufRoom := by
  induction ms generalizing buf with
  | nil => exact h
  | cons m ms ih =>
    exact ih (Nat.le_of_lt_succ (length_strlcat_lt (Nat.lt_succ_of_le h)))

theorem isPlain_of_mem_foldl_appendTag
    (hbuf : ∀ c ∈ buf, c ≠ ';' → isPlain c = true) :
    ∀ c ∈ ms.foldl appendTag buf, c ≠ ';' → isPlain c = true := by
  induction ms generalizing buf with
  | nil => exact hbuf
  | cons m ms ih =>
    refine ih fun c hc hne => ?_
    rcases mem_of_mem_strlcat hc with hmem | hmem
    · exact hbuf c hmem hne
    · exact isPlain_of_mem_tagText (mem_of_mem_take hmem) hne

theorem foldl_appendTag_eq (heach : ∀ m ∈ ms, encodedSize m ≤ tbufRoom)
    (htotal : buf.length + (ms.map encodedSize).sum ≤ bufRoom) :
    ms.foldl appendTag buf = buf ++ ms.flatMap encodeTag := by
  induction ms generalizing buf with
  | nil => simp
  | cons m ms ih =>
    have hm : encodedSize m ≤ tbufRoom := heach m (by simp)
    rw [map_cons, sum_cons] at htotal
    have hfirst : appendTag buf m = buf ++ encodeTag m := by
      unfold encodedSize tbufRoom at hm
      unfold encodedSize bufRoom at htotal
      rw [appendTag, tagText_eq_encodeTag hm, snprintf_eq_self (by omega),
        strlcat_eq_append (by omega)]
    rw [foldl_cons, hfirst, ih (fun w hw => heach w (mem_cons_of_mem m hw)),
      flatMap_cons, append_assoc]
    rw [length_append]
    unfold encodedSize at htotal ⊢
    omega

end Serialising

/-! ## The round trip -/

/-- If no sum of sizes is lost by capping every size, no size exceeds the
cap. -/
theorem le_of_sum_le_sum_min {α : Type} {f : α → ℕ} {cap : ℕ} {xs : List α}
    (h : (xs.map f).sum ≤ (xs.map fun x => min (f x) cap).sum) :
    ∀ x ∈ xs, f x ≤ cap := by
  intro x hx
  by_contra hlt
  refine absurd h (Nat.not_le.mpr (sum_lt_sum _ _ ?_ ⟨x, hx, ?_⟩))
  · exact fun y _ => Nat.min_le_left _ _
  · omega

/-- The tags a server finds on a line on which another server sent `ms`. -/
def receivedTags
    (handlers : List MessageTagHandler) (target source : Client)
    (ms : List MessageTag) (line : List Char) : List MessageTag :=
  (parseLine handlers source
    (lineWithTags (mtagsToString handlers ms (some target)) line)).1

variable {handlers : List MessageTagHandler}

theorem mtagsToString_eq {target : Client} (htarget : target.IsMtagsLink)
    (hms : ms ≠ []) :
    mtagsToString handlers ms (some target) =
      if ms.foldl appendTag [] = [] then none
      else some (ms.foldl appendTag []).dropLast := by
  simp [mtagsToString, hms, htarget.has_mtags, mtagsToStringLoop_eq htarget]

variable {line : List Char}

theorem parseLine_without_tags {source : Client}
    (hspace : line.head? ≠ some ' ') (hat : line.head? ≠ some '@') :
    parseLine handlers source line = ([], line) := by
  cases line with
  | nil => rfl
  | cons c line =>
    have hc : (c == ' ') = false := by simpa using hspace
    have hat' : c ≠ '@' := by simpa using hat
    simp only [parseLine, dropWhile_cons, hc]
    split
    · next heq => simp at heq; exact absurd heq.1 hat'
    · rfl

variable {target source : Client}

section

variable (htarget : target.IsMtagsLink) (hsource : source.isServer = true)

variable (hspace : line.head? ≠ some ' ') (hat : line.head? ≠ some '@')

include htarget hsource hspace hat

/-- The received tags are those in the buffer, whatever was cut. -/
theorem receivedTags_eq :
    receivedTags handlers target source ms line =
      (admittedTags handlers source
        (ms.foldl appendTag []).dropLast).reverse := by
  have hnone : parseLine handlers source line = ([], line) :=
    parseLine_without_tags hspace hat
  have hempty : admittedTags handlers source [] = [] := by
    simp [admittedTags]
  generalize hbuf : ms.foldl appendTag [] = buf
  by_cases hnil : buf.dropLast = []
  · -- Nothing is left for the line.
    have htext : lineWithTags (mtagsToString handlers ms (some target)) line =
        line := by
      by_cases hms : ms = []
      · simp [mtagsToString, hms, lineWithTags]
      · rw [mtagsToString_eq htarget hms, hbuf]
        split
        · rfl
        · rw [hnil]
          rfl
    rw [receivedTags, htext, hnone, hnil, hempty]
    rfl
  · have hms : ms ≠ [] := by
      rintro rfl
      simp [← hbuf] at hnil
    have hne : buf ≠ [] := by
      rintro rfl
      simp at hnil
    have hplain : ∀ c ∈ buf, c ≠ ';' → isPlain c = true := by
      rw [← hbuf]
      exact isPlain_of_mem_foldl_appendTag (by simp)
    have hnospace : ' ' ∉ buf.dropLast := by
      intro hmem
      exact absurd (hplain ' ' ((dropLast_sublist buf).subset hmem) (by decide))
        (by decide)
    have hroom : buf.length ≤ bufRoom := by
      rw [← hbuf]
      exact length_foldl_appendTag_le_bufRoom (by decide) ms
    have hlimit : buf.dropLast.length < serverTagSizeLimit := by
      simp only [length_dropLast, bufRoom, serverTagSizeLimit] at hroom ⊢
      omega
    rw [receivedTags, mtagsToString_eq htarget hms, hbuf, if_neg hne,
      parseLine_lineWithTags hsource hnil hnospace hlimit hspace]

theorem fits_of_receivedTags_perm
    (hperm : (receivedTags handlers target source ms line).Perm ms) :
    (∀ m ∈ ms, encodedSize m ≤ tbufRoom) ∧
      (ms.map encodedSize).sum ≤ bufRoom ∧
      ∀ m ∈ ms, Admitted handlers source m := by
  rw [receivedTags_eq htarget hsource hspace hat] at hperm
  have hperm' := (reverse_perm _).symm.trans hperm
  have hsum : (ms.map encodedSize).sum ≤ (ms.foldl appendTag []).length := by
    rw [← (hperm'.map encodedSize).sum_eq]
    exact sum_encodedSize_dropLast_le
      (isPlain_of_mem_foldl_appendTag (by simp))
  have hcapped := length_foldl_appendTag_le [] ms
  have hroom : (ms.foldl appendTag []).length ≤ bufRoom :=
    length_foldl_appendTag_le_bufRoom (by decide) ms
  refine ⟨le_of_sum_le_sum_min ?_, hsum.trans hroom, fun m hm => ?_⟩
  · simpa using hsum.trans hcapped
  · simpa using (mem_filter.mp (hperm'.mem_iff.mpr hm)).2

theorem receivedTags_of_fits (hwf : ∀ m ∈ ms, m.WellFormed)
    (heach : ∀ m ∈ ms, encodedSize m ≤ tbufRoom)
    (htotal : (ms.map encodedSize).sum ≤ bufRoom)
    (hadmitted : ∀ m ∈ ms, Admitted handlers source m) :
    receivedTags handlers target source ms line = ms.reverse := by
  have hfits : ([] : List Char).length + (ms.map encodedSize).sum ≤
      bufRoom := by
    rwa [length_nil, Nat.zero_add]
  rw [receivedTags_eq htarget hsource hspace hat,
    foldl_appendTag_eq heach hfits, nil_append, admittedTags_join hwf hadmitted]

end

/-- Tags that are sent to another server come back the same exactly if every
one of them fits into `tbuf`, all together fit into `buf`, and the incoming
filter admits them. -/
theorem receivedTags_perm_iff
    (handlers : List MessageTagHandler) (target source : Client)
    (ms : List MessageTag) (line : List Char)
    (htarget : target.IsMtagsLink) (hsource : source.isServer = true)
    (hwf : ∀ m ∈ ms, m.WellFormed)
    (hspace : line.head? ≠ some ' ') (hat : line.head? ≠ some '@') :
    (receivedTags handlers target source ms line).Perm ms ↔
      (∀ m ∈ ms, encodedSize m ≤ 4093) ∧
        (ms.map encodedSize).sum ≤ 4095 ∧
        ∀ m ∈ ms, messageTagOk handlers source m.name (m.value.getD []) := by
  constructor
  · exact fits_of_receivedTags_perm htarget hsource hspace hat
  · rintro ⟨heach, htotal, hadmitted⟩
    rw [receivedTags_of_fits htarget hsource hspace hat hwf heach htotal
      hadmitted]
    exact reverse_perm ms

def serverLink : Client where
  isServer := true
  myConnect := true
  direction := some ⟨true, true⟩
  capMessageTags := false
  caps := []

theorem serverLink_isMtagsLink : serverLink.IsMtagsLink := ⟨rfl, rfl⟩

def spacedTag : MessageTag := ⟨['a'], some ['b', ' ', ';']⟩

theorem receivedTags_spacedTag :
    (receivedTags [] serverLink serverLink [spacedTag]
      ['P', 'I', 'N', 'G']).Perm [spacedTag] := by
  have hwf : ∀ m ∈ [spacedTag], m.WellFormed := by
    intro m hm
    cases mem_singleton.mp hm
    constructor <;> decide
  exact (receivedTags_perm_iff [] serverLink serverLink [spacedTag]
    ['P', 'I', 'N', 'G'] serverLink_isMtagsLink rfl hwf (by decide)
    (by decide)).mpr (by decide)

def longTag : MessageTag := ⟨['a'], some (List.replicate 4091 'x')⟩

theorem encodedSize_longTag : encodedSize longTag = 4094 := by
  have hsize : ∀ value, encodedSize ⟨['a'], some value⟩ =
      (escapeAll value).length + 3 := by
    intro value
    simp [encodedSize, encodeTag, escapeChar, needsEscape]
  rw [longTag, hsize, escapeAll_replicate (by decide), length_replicate]

/-- One tag that is within the limit for servers and does not come back. -/
theorem receivedTags_longTag :
    encodedSize longTag ≤ serverTagSizeLimit ∧
      ¬ (receivedTags [] serverLink serverLink [longTag]
        ['P', 'I', 'N', 'G']).Perm [longTag] := by
  refine ⟨by rw [encodedSize_longTag]; decide, fun hperm => ?_⟩
  have hfits := (fits_of_receivedTags_perm serverLink_isMtagsLink rfl
    (by decide) (by decide) hperm).1 longTag (by simp)
  rw [encodedSize_longTag] at hfits
  exact absurd hfits (by decide)

end UnrealIrcd.MessageTags
