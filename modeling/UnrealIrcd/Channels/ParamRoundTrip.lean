import UnrealIrcd.Channels.FloodprotRoundTrip
import UnrealIrcd.Channels.Params

/-!
# Parameters that survive a trip to another server

A server shows a parameter with `get_param`.  A peer checks it, converts it and
stores it.  For the parameters that channels have, the text is accepted, not
changed by the conversion, and stored as the same record.
-/

namespace UnrealIrcd.Channels

open Support List

/-! ## History limits -/

/-- Limits that are printed and parsed without loss: whole minutes, within the
configured limits. -/
structure HistoryChanMode.Legal (S : HistoryStorage) (h : HistoryChanMode) :
    Prop where
  lines_pos : 1 ≤ h.maxLines
  lines_le : h.maxLines ≤ S.lines
  lines_lt : h.maxLines < 2 ^ 31
  time_ge : 60 ≤ h.maxTime
  time_le : h.maxTime ≤ S.time
  time_lt : h.maxTime < 2 ^ 31
  minutes : h.maxTime % 60 = 0

/-- The number and the unit that are printed for a time. -/
def historyUnit (t : ℤ) : ℤ × Char :=
  if t % 86400 = 0 then (t / 86400, 'd')
  else if t % 3600 = 0 then (t / 3600, 'h')
  else (t / 60, 'm')

theorem historyChanmodeHelper_eq (h : HistoryChanMode) :
    historyChanmodeHelper h = decimal h.maxLines ++
      ':' :: (decimal (historyUnit h.maxTime).1 ++
        [(historyUnit h.maxTime).2]) := by
  unfold historyChanmodeHelper historyUnit
  split
  · rfl
  split
  · rfl
  · rfl

theorem historyUnit_spec
    {t : ℤ} (hminutes : t % 60 = 0) (hge : 60 ≤ t) (hlt : t < 2 ^ 31) :
    (historyUnit t).1 * timeFactor (historyUnit t).2 = t ∧
      1 ≤ (historyUnit t).1 ∧ (historyUnit t).1 < 2 ^ 31 ∧
      (historyUnit t).2.isAlpha = true := by
  have hd : timeFactor 'd' = 86400 := by decide
  have hh : timeFactor 'h' = 3600 := by decide
  have hm : timeFactor 'm' = 60 := by decide
  unfold historyUnit
  split_ifs
  · refine ⟨?_, ?_, ?_, rfl⟩ <;> simp only [hd] <;> omega
  · refine ⟨?_, ?_, ?_, rfl⟩ <;> simp only [hh] <;> omega
  · refine ⟨?_, ?_, ?_, rfl⟩ <;> simp only [hm] <;> omega

theorem not_isAlpha_of_isDigit {c : Char} (h : c.isDigit = true) :
    c.isAlpha = false := by
  have hle : c.val.toNat ≤ 57 := by
    simp only [Char.isDigit, Bool.and_eq_true, decide_eq_true_eq,
      UInt32.le_iff_toNat_le] at h
    exact h.2
  rw [Bool.eq_false_iff]
  intro halpha
  rcases Bool.or_eq_true_iff.mp halpha with hupper | hlower
  · have hge := UInt32.le_iff_toNat_le.mp (of_decide_eq_true hupper).1
    exact absurd (hge.trans hle) (by decide)
  · have hge := UInt32.le_iff_toNat_le.mp
      (of_decide_eq_true (Bool.and_eq_true_iff.mp hlower).1)
    exact absurd (hge.trans hle) (by decide)

theorem checkvalUnits_digits {ds : List Char} (hds : ∀ c ∈ ds, c.isDigit = true)
    (digits : List Char) (s : List Char) :
    checkvalUnits digits false (ds ++ s) =
      checkvalUnits (digits ++ ds) false s := by
  induction ds generalizing digits with
  | nil => simp
  | cons c ds ih =>
    have hc := hds c (by simp)
    have halpha := not_isAlpha_of_isDigit hc
    rw [cons_append, checkvalUnits, halpha, if_neg (by simp), hc, if_pos rfl,
      ih (fun d hd => hds d (by simp [hd])), append_assoc, singleton_append]

theorem checkvalTime_unit
    {n : ℕ} {c : Char} (hc : c.isAlpha = true) (hn : n < 2 ^ 31) :
    checkvalTime (decimal n ++ [c]) = toInt (n * timeFactor c) := by
  have hunits : checkvalUnits [] false (decimal n ++ [c]) =
      toInt (n * timeFactor c) := by
    rw [checkvalUnits_digits isDigit_of_mem_decimal, nil_append, checkvalUnits,
      hc, if_pos rfl, atoi_decimal (by omega) (by omega), checkvalUnits]
    simp
  have hseconds : checkvalSeconds (decimal n ++ [c]) = 0 := by
    simp [checkvalSeconds, hc]
  rw [checkvalTime, hunits, hseconds, add_zero]

theorem length_decimal_int_le {n : ℤ} (h0 : 0 ≤ n) (h : n < 2 ^ 31) :
    (decimal n).length ≤ 10 := by
  obtain ⟨k, rfl⟩ := Int.eq_ofNat_of_zero_le h0
  exact length_decimal_le (by decide) (by omega)

variable {S : HistoryStorage} {h : HistoryChanMode}

theorem HistoryChanMode.Legal.length_le (hlegal : h.Legal S) :
    (historyChanmodeHelper h).length ≤ 22 := by
  obtain ⟨-, hpos, hlt, -⟩ := historyUnit_spec hlegal.minutes
    hlegal.time_ge hlegal.time_lt
  have hlines := hlegal.lines_pos
  have h1 := length_decimal_int_le (by omega) hlegal.lines_lt
  have h2 := length_decimal_int_le (by omega) hlt
  rw [historyChanmodeHelper_eq, length_append, length_cons,
    length_append, length_singleton]
  omega

theorem isDigit_of_mem_decimal_int {n : ℤ} (h : 0 ≤ n) :
    ∀ c ∈ decimal n, c.isDigit = true := by
  obtain ⟨k, rfl⟩ := Int.eq_ofNat_of_zero_le h
  exact isDigit_of_mem_decimal

theorem historyReadChanmode_helper (hlegal : h.Legal S) :
    historyReadChanmode (historyChanmodeHelper h) = some h := by
  obtain ⟨htime, hpos, hlt, halpha⟩ := historyUnit_spec hlegal.minutes
    hlegal.time_ge hlegal.time_lt
  have hlines := hlegal.lines_pos
  have hge := hlegal.time_ge
  have hcolon : ':' ∉ decimal h.maxLines := fun hc =>
    absurd (isDigit_of_mem_decimal_int (by omega) _ hc) (by decide)
  obtain ⟨time, htext⟩ : ∃ time, time =
      decimal (historyUnit h.maxTime).1 ++ [(historyUnit h.maxTime).2] :=
    ⟨_, rfl⟩
  have htake : (historyChanmodeHelper h).take 63 =
      decimal h.maxLines ++ ':' :: time := by
    rw [take_of_length_le (hlegal.length_le.trans (by decide)),
      historyChanmodeHelper_eq, htext]
  have hvalue : atoi (decimal h.maxLines) = h.maxLines :=
    atoi_decimal (by omega) hlegal.lines_lt
  have hunit : time.all Char.isDigit = false := by
    have hdigit : (historyUnit h.maxTime).2.isDigit = false := by
      by_contra hdigit
      rw [Bool.not_eq_false] at hdigit
      rw [not_isAlpha_of_isDigit hdigit] at halpha
      cases halpha
    simp [htext, hdigit]
  have htimeval : checkvalTime time = h.maxTime := by
    obtain ⟨n, hn⟩ := Int.eq_ofNat_of_zero_le
      (show 0 ≤ (historyUnit h.maxTime).1 by omega)
    rw [htext, hn, checkvalTime_unit halpha (by omega), ← hn, htime,
      toInt_eq_self (by omega) hlegal.time_lt]
  have hdrop : (decimal h.maxLines ++ ':' :: time).dropWhile (· != ':') =
      ':' :: time := dropWhile_bne_append hcolon
  have hfirst : (decimal h.maxLines ++ ':' :: time).takeWhile (· != ':') =
      decimal h.maxLines := takeWhile_bne_append hcolon
  rw [historyReadChanmode, htake, hdrop]
  simp only [hfirst, hvalue, hunit, Bool.false_eq_true, if_false, htimeval]
  rw [if_neg (by omega), if_neg (by omega)]

theorem historyParseChanmode_helper {C : HistoryConfig} {registered : Bool}
    (hlegal : h.Legal (C.storage registered)) :
    historyParseChanmode C registered (historyChanmodeHelper h) = some h := by
  rw [historyParseChanmode, historyReadChanmode_helper hlegal,
    Option.map_some, HistoryStorage.cut, min_eq_left hlegal.lines_le,
    min_eq_left hlegal.time_le]

/-! ## Legal parameters -/

/-- The longest text of a parameter. -/
def paramBound (letter : Char) : ℕ := if letter = 'f' then 90 else 32

/-- A record as a channel can have it, by the letter of its mode.  The limits
of the history depend on whether the channel is registered. -/
inductive LegalParam (C : ParamConfig) (registered : Bool)
    (name : List Char) : Char → ModeParam → Prop
  | flood {x : FloodSettings} (h : x.Legal C.flood C.table) :
      LegalParam C registered name 'f' (.flood x)
  | profile {p : List Char} {settings : FloodSettings} (hne : p ≠ [])
      (h : getChannelFloodProfile C.flood p = some (p, settings)) :
      LegalParam C registered name 'F' (.profile ⟨some p, settings⟩)
  | history {h : HistoryChanMode} (hput : h.Legal C.history.registered)
      (hconv : h.Legal (C.history.storage registered)) :
      LegalParam C registered name 'H' (.history h)
  | key {key : List Char} (hne : key ≠ []) (hvalid : isValidKey key = true) :
      LegalParam C registered name 'k' (.key key)
  | limit {limit : ℤ} (hpos : 1 ≤ limit) (hle : limit ≤ 1000000) :
      LegalParam C registered name 'l' (.limit limit)
  | link {linked : List Char}
      (hvalid : validChannelname C.allowedChannelchars C.utf8Validate
        linked = true)
      (hne : strcasecmpEq linked name = false) :
      LegalParam C registered name 'L' (.link linked)

/-- The trip of a record through its text. -/
structure RoundTrips (h : ParamHandler) (ctx : ParamContext) (bound : ℕ)
    (x : ModeParam) (text : List Char) : Prop where
  get : h.getParam x = some text
  isOk : h.isOk ctx text = true
  conv : h.convParam ctx text = some text
  put : ∀ r, h.putParam r text = some x
  ne_nil : text ≠ []
  word : ' ' ∉ text
  length_le : text.length ≤ bound

section Legal

variable {C : ParamConfig} {registered : Bool} {name : List Char}

theorem roundTrips_flood {x : FloodSettings} (h : x.Legal C.flood C.table) :
    RoundTrips (floodHandler C) ⟨false, registered, name⟩ (paramBound 'f')
      (.flood x) (channelModefString x) where
  get := rfl
  isOk := by
    change cmodefIsOk C.flood C.table false _ = true
    rw [cmodefIsOk, parseChannelModeFlood_channelModefString h.toParsed]
  conv := by
    change cmodefConvParam C.flood C.table false _ = _
    rw [cmodefConvParam, parseChannelModeFlood_channelModefString h.toParsed,
      h.readBack_eq]
    rfl
  put r := by
    have hput := h.cmodefPutParam
    rw [h.readBack_eq] at hput
    exact congrArg (some ∘ ModeParam.flood) (hput _)
  ne_nil := cons_ne_nil _ _
  word := h.word
  length_le := h.length_le

theorem roundTrips_profile {p : List Char} {settings : FloodSettings}
    (hne : p ≠ []) (h : getChannelFloodProfile C.flood p = some (p, settings)) :
    RoundTrips (profileHandler C) ⟨false, registered, name⟩ (paramBound 'F')
      (.profile ⟨some p, settings⟩) p := by
  have hvalid := C.flood.profiles_valid _ (mem_of_find?_eq_some h)
  simp only [validFloodProfileName, Bool.and_eq_true, decide_eq_true_eq,
    all_eq_true] at hvalid
  obtain ⟨hlen, hchars⟩ := hvalid
  refine ⟨?_, ?_, ?_, ?_, hne, ?_, hlen.trans (by decide)⟩
  · simp only [profileHandler, cmodefProfileGetParam, Option.getD_some,
      Option.some.injEq]
    exact take_of_length_le (hlen.trans (by decide))
  · simp only [profileHandler, h, Option.isSome_some]
  · simp only [profileHandler, cmodefProfileConvParam, h, Option.map_some,
      Option.some.injEq]
    exact take_of_length_le (hlen.trans (by decide))
  · intro r
    simp only [profileHandler, cmodefProfilePutParam, floodProfileBase, h,
      Option.orElse_some, Option.getD_some]
  · intro hspace
    exact absurd (hchars _ hspace) (by decide)

theorem roundTrips_history (hput : h.Legal C.history.registered)
    (hconv : h.Legal (C.history.storage registered)) :
    RoundTrips (historyHandler C) ⟨false, registered, name⟩ (paramBound 'H')
      (.history h) (historyChanmodeHelper h) := by
  have hread := historyParseChanmode_helper hconv
  have hread' : historyParseChanmode C.history true
      (historyChanmodeHelper h) = some h :=
    historyParseChanmode_helper hput
  refine ⟨rfl, ?_, ?_, ?_, ?_, ?_, hput.length_le.trans (by decide)⟩
  · simp only [historyHandler, historyChanmodeIsOk, hread, Option.isSome_some]
  · simp only [historyHandler, historyChanmodeConvParam, hread, Option.map_some]
  · intro r
    simp only [historyHandler, historyChanmodePutParam, hread', Option.map_some]
  · rw [historyChanmodeHelper_eq]
    simp
  · obtain ⟨-, hpos, -, halpha⟩ := historyUnit_spec hput.minutes hput.time_ge
      hput.time_lt
    have hlines := hput.lines_pos
    rw [historyChanmodeHelper_eq]
    simp only [mem_append, mem_cons, not_mem_nil, or_false]
    rintro (hc | hc | hc | hc)
    · exact absurd (isDigit_of_mem_decimal_int (by omega) _ hc) (by decide)
    · exact absurd hc (by decide)
    · exact absurd (isDigit_of_mem_decimal_int (by omega) _ hc) (by decide)
    · rw [← hc] at halpha
      exact absurd halpha (by decide)

theorem transformChannelKey_eq {key : List Char} (h : isValidKey key = true) :
    transformChannelKey key = key := by
  simp only [isValidKey, Bool.and_eq_true, decide_eq_true_eq, all_eq_true] at h
  rw [transformChannelKey, takeWhile_eq_self_iff.mpr h.2, take_of_length_le h.1]

theorem roundTrips_key {key : List Char} (hne : key ≠ [])
    (hvalid : isValidKey key = true) :
    RoundTrips keyHandler ⟨false, registered, name⟩ (paramBound 'k')
      (.key key) key := by
  have htransform := transformChannelKey_eq hvalid
  have hchars := hvalid
  simp only [isValidKey, Bool.and_eq_true, decide_eq_true_eq,
    all_eq_true] at hchars
  refine ⟨rfl, hvalid, ?_, ?_, hne, ?_, hchars.1.trans (by decide)⟩
  · simp only [keyHandler, cmodeKeyConvParam, htransform, if_neg hne]
  · intro r
    simp only [keyHandler, htransform]
  · intro hspace
    exact absurd (hchars.2 _ hspace) (by decide)

theorem roundTrips_limit {limit : ℤ} (hpos : 1 ≤ limit)
    (hle : limit ≤ 1000000) :
    RoundTrips limitHandler ⟨false, registered, name⟩ (paramBound 'l')
      (.limit limit) (decimal limit) := by
  have hread : atoi (decimal limit) = limit :=
    atoi_decimal (by omega) (by omega)
  have htransform : transformChannelLimit (decimal limit) = limit := by
    rw [transformChannelLimit, hread, if_neg (by omega), if_neg (by omega)]
  refine ⟨rfl, ?_, ?_, ?_, decimal_ne_nil limit, ?_,
    (length_decimal_int_le (by omega) (by omega)).trans (by decide)⟩
  · simp only [limitHandler, hread, decide_eq_true_eq]
    omega
  · simp only [limitHandler, htransform]
  · intro r
    simp only [limitHandler, htransform]
  · intro hspace
    exact absurd (isDigit_of_mem_decimal_int (by omega) _ hspace) (by decide)

theorem roundTrips_link {linked : List Char}
    (hvalid : validChannelname C.allowedChannelchars C.utf8Validate linked =
      true) (hname : strcasecmpEq linked name = false) :
    RoundTrips (linkHandler C) ⟨false, registered, name⟩ (paramBound 'L')
      (.link linked) linked := by
  have hparts := hvalid
  simp only [validChannelname, Bool.and_eq_true, beq_iff_eq,
    decide_eq_true_eq, all_eq_true] at hparts
  obtain ⟨⟨⟨hhead, hlen⟩, hchars⟩, -⟩ := hparts
  have hcomma : linked.contains ',' = false := by
    simp only [contains_eq_mem, decide_eq_false_iff_not]
    intro hmem
    exact absurd (hchars _ hmem) (by decide)
  refine ⟨rfl, ?_, ?_, ?_, ?_, ?_, hlen⟩
  · simp only [linkHandler, hcomma, hvalid, hname, Bool.not_false,
      Bool.and_self]
  · simp only [linkHandler, hvalid, if_true]
  · intro r
    simp only [linkHandler, take_of_length_le hlen]
  · rintro rfl
    cases hhead
  · intro hspace
    exact absurd (hchars _ hspace) (by decide)

theorem LegalParam.roundTrips {letter : Char} {x : ModeParam}
    (h : LegalParam C registered name letter x) :
    ∃ handler text, paramHandler C letter = some handler ∧
      RoundTrips handler ⟨false, registered, name⟩ (paramBound letter) x
        text := by
  cases h with
  | flood h => exact ⟨_, _, rfl, roundTrips_flood h⟩
  | profile hne h => exact ⟨_, _, rfl, roundTrips_profile hne h⟩
  | history hput hconv => exact ⟨_, _, rfl, roundTrips_history hput hconv⟩
  | key hne hvalid => exact ⟨_, _, rfl, roundTrips_key hne hvalid⟩
  | limit hpos hle => exact ⟨_, _, rfl, roundTrips_limit hpos hle⟩
  | link hvalid hname => exact ⟨_, _, rfl, roundTrips_link hvalid hname⟩

end Legal

end UnrealIrcd.Channels
