import UnrealIrcd.Channels.ModeEffect
import UnrealIrcd.Channels.ParamRoundTrip
import UnrealIrcd.Channels.Sjoin
import Mathlib.Algebra.Order.BigOperators.Group.List
import Mathlib.Algebra.Order.Group.Nat

/-!
# The modes of an SJOIN line

What a channel looks like after the modes that its peer describes in an SJOIN
line were applied to it.
-/

namespace UnrealIrcd.Channels

open Support List

/-! ## Channels with legal modes -/

/-- The flags are loaded modes of the whole network, and the parameters are
legal. -/
structure LegalModes (C : ParamConfig) (ch : Channel) : Prop where
  letters : ∀ c ∈ ch.mode, ∃ cm ∈ C.table.channelmodes,
    cm.letter = c ∧ cm.isLocal = false ∧ cm.type ≠ .member
  params : ∀ cm ∈ C.table.channelmodes, cm.paracount ≠ 0 →
    cm.letter ∈ ch.mode → ∃ x, ch.params cm.letter = some x ∧
      LegalParam C (decide ('r' ∈ ch.mode)) ch.name cm.letter x

variable {C : ParamConfig} {cm : Cmode}

theorem mem_shownModes {ch : Channel} :
    cm ∈ shownModes C ch ↔ cm ∈ C.table.channelmodes ∧
      cm.isLocal = false ∧ cm.letter ∈ ch.mode := by
  simp [shownModes]

/-- The letters of the mode line. -/
def shownLetters (C : ParamConfig) (ch : Channel) : List Char :=
  (shownModes C ch).map Cmode.letter

theorem LegalModes.mem_shownLetters {ch : Channel} (h : LegalModes C ch)
    {c : Char} : c ∈ shownLetters C ch ↔ c ∈ ch.mode := by
  rw [shownLetters, mem_map]
  constructor
  · rintro ⟨cm, hcm, rfl⟩
    exact (mem_shownModes.mp hcm).2.2
  · intro hc
    obtain ⟨cm, hcm, rfl, hlocal, -⟩ := h.letters c hc
    exact ⟨cm, mem_shownModes.mpr ⟨hcm, hlocal, hc⟩, rfl⟩

theorem LegalModes.of_mem {ch : Channel} (h : LegalModes C ch)
    (hcm : cm ∈ C.table.channelmodes) (hletter : cm.letter ∈ ch.mode) :
    cm.isLocal = false ∧ cm.type ≠ .member := by
  obtain ⟨cm', hcm', heq, hlegal⟩ := h.letters cm.letter hletter
  rwa [C.table.eq_of_letter hcm' hcm heq] at hlegal

theorem LegalModes.type_of_mem_shownModes {ch : Channel} (h : LegalModes C ch)
    (hcm : cm ∈ shownModes C ch) : cm.type ≠ .member := by
  obtain ⟨hmem, -, hletter⟩ := mem_shownModes.mp hcm
  exact (h.of_mem hmem hletter).2

/-- The parameter as it is sent. -/
def paramText (C : ParamConfig) (ch : Channel) (cm : Cmode) : List Char :=
  (ch.getParam C cm.letter).getD []

/-- The modes of the line that have a parameter. -/
def shownParams (C : ParamConfig) (ch : Channel) : List Cmode :=
  (shownModes C ch).filter (·.paracount ≠ 0)

theorem LegalParam.getParam_eq {ch : Channel} {letter : Char}
    {registered : Bool} {name : List Char} {x : ModeParam}
    (hx : ch.params letter = some x)
    (h : LegalParam C registered name letter x) :
    ∃ handler text, paramHandler C letter = some handler ∧
      ch.getParam C letter = some text ∧
      RoundTrips handler ⟨false, registered, name⟩ (paramBound letter) x
        text := by
  obtain ⟨handler, text, hhandler, htrip⟩ := h.roundTrips
  refine ⟨handler, text, hhandler, ?_, htrip⟩
  rw [Channel.getParam, hhandler, hx]
  exact htrip.get

theorem LegalModes.exists_param {ch : Channel} (h : LegalModes C ch)
    (hcm : cm ∈ shownParams C ch) :
    ∃ x handler, ch.params cm.letter = some x ∧
      LegalParam C (decide ('r' ∈ ch.mode)) ch.name cm.letter x ∧
      paramHandler C cm.letter = some handler ∧
      ch.getParam C cm.letter = some (paramText C ch cm) ∧
      RoundTrips handler ⟨false, decide ('r' ∈ ch.mode), ch.name⟩
        (paramBound cm.letter) x (paramText C ch cm) := by
  obtain ⟨hshown, hpara⟩ := mem_filter.mp hcm
  obtain ⟨hmem, -, hletter⟩ := mem_shownModes.mp hshown
  obtain ⟨x, hx, hlegal⟩ := h.params cm hmem (by simpa using hpara) hletter
  obtain ⟨handler, text, hhandler, hget, htrip⟩ := hlegal.getParam_eq hx
  have htext : paramText C ch cm = text := by
    rw [paramText, hget, Option.getD_some]
  exact ⟨x, handler, hx, hlegal, hhandler, htext ▸ hget, htext ▸ htrip⟩

/-! ## The text of the modes -/

theorem catParams_eq {params : List (List Char)}
    (h : (params.map fun p => p.length + 1).sum < bufsize) :
    catParams params = params.flatMap fun p => p ++ [' '] := by
  have hloop : ∀ (params : List (List Char)) (buf : List Char),
      buf.length + (params.map fun p => p.length + 1).sum < bufsize →
      params.foldl (fun buf param =>
          strlcat (strlcat buf param bufsize) [' '] bufsize) buf =
        buf ++ params.flatMap fun p => p ++ [' '] := by
    intro params
    induction params with
    | nil => simp
    | cons p params ih =>
      intro buf hlen
      rw [map_cons, sum_cons] at hlen
      have hfirst : strlcat buf p bufsize = buf ++ p := by
        rw [strlcat, if_neg (by omega), take_of_length_le (by omega)]
      have hspace : strlcat (buf ++ p) [' '] bufsize = buf ++ p ++ [' '] := by
        rw [strlcat, if_neg (by rw [length_append]; omega), take_of_length_le]
        rw [length_append, length_singleton]
        omega
      rw [foldl_cons, hfirst, hspace, ih _ (by
        simp only [length_append, length_singleton]
        omega), flatMap_cons]
      simp
  have hall := hloop params [] (by simpa using h)
  rw [nil_append] at hall
  exact hall

/-- The parameters of the line. -/
def shownTexts (C : ParamConfig) (ch : Channel) : List (List Char) :=
  (shownParams C ch).map (paramText C ch)

section Texts

variable {C : ParamConfig} {ch : Channel}

theorem LegalModes.mem_shownTexts (h : LegalModes C ch) {t : List Char}
    (ht : t ∈ shownTexts C ch) : t ≠ [] ∧ ∀ c ∈ t, (c == ' ') = false := by
  obtain ⟨cm, hcm, rfl⟩ := mem_map.mp ht
  obtain ⟨x, handler, -, -, -, -, htrip⟩ := h.exists_param hcm
  refine ⟨htrip.ne_nil, ?_⟩
  intro c hc
  rw [beq_eq_false_iff_ne]
  rintro rfl
  exact htrip.word hc

theorem shownModes_sublist (C : ParamConfig) (ch : Channel) :
    (shownModes C ch).Sublist allChannelmodes :=
  filter_sublist.trans C.table.sublist

section

variable (h : LegalModes C ch)

include h

theorem LegalModes.shownParams_sublist :
    (shownParams C ch).Sublist (allChannelmodes.filter
      (fun cm => cm.paracount ≠ 0 ∧ cm.type ≠ .member)) := by
  have hshown : shownParams C ch = (shownModes C ch).filter
      (fun cm => cm.paracount ≠ 0 ∧ cm.type ≠ .member) := by
    apply filter_congr
    intro cm hcm
    simp [h.type_of_mem_shownModes hcm]
  rw [hshown]
  exact (shownModes_sublist C ch).filter _

theorem LegalModes.sum_shownTexts_le :
    ((shownTexts C ch).map fun p => p.length + 1).sum ≤ 256 := by
  have hbound : ((shownTexts C ch).map fun p => p.length + 1).sum ≤
      ((shownParams C ch).map fun cm => paramBound cm.letter + 1).sum := by
    rw [shownTexts, map_map]
    apply sum_le_sum
    intro cm hcm
    obtain ⟨x, handler, -, -, -, -, htrip⟩ := h.exists_param hcm
    exact Nat.succ_le_succ htrip.length_le
  have hsum := (h.shownParams_sublist.map
    fun cm => paramBound cm.letter + 1).sum_le_sum (by simp)
  have htotal : ((allChannelmodes.filter
      (fun cm => cm.paracount ≠ 0 ∧ cm.type ≠ .member)).map
        fun cm => paramBound cm.letter + 1).sum ≤ 256 := by
    decide
  omega

theorem LegalModes.sum_shownTexts_lt :
    ((shownTexts C ch).map fun p => p.length + 1).sum < bufsize :=
  lt_of_le_of_lt h.sum_shownTexts_le (by decide)

/-- The parameters are read back from the line. -/
theorem LegalModes.mp2parv_paramline :
    mp2parv (channelModes C ch).paramline = shownTexts C ch := by
  have htexts : (channelModes C ch).paramline =
      (catParams (shownTexts C ch)).dropLast := rfl
  rw [htexts, catParams_eq h.sum_shownTexts_lt, mp2parv]
  exact strtokens_dropLast_flatMap (by decide)
    (fun t ht => (h.mem_shownTexts ht).1)
    (fun t ht => (h.mem_shownTexts ht).2)

theorem LegalModes.mp2parv_catParams :
    mp2parv (catParams (shownTexts C ch)) = shownTexts C ch := by
  rw [catParams_eq h.sum_shownTexts_lt, mp2parv]
  exact strtokens_flatMap (by decide)
    (fun t ht => (h.mem_shownTexts ht).1)
    (fun t ht => (h.mem_shownTexts ht).2)

/-- A channel without modes is sent without a mode line. -/
theorem LegalModes.burstStart_modes :
    (burstStart C ch).modes =
      if ch.mode = ∅ then none
      else some ('+' :: shownLetters C ch, shownTexts C ch) := by
  have hline : (channelModes C ch).modeline = '+' :: shownLetters C ch := rfl
  simp only [burstStart, hline, h.mp2parv_paramline, drop_succ_cons, drop_zero]
  have hempty : shownLetters C ch = [] ↔ ch.mode = ∅ := by
    rw [eq_nil_iff_forall_not_mem, Finset.eq_empty_iff_forall_notMem]
    exact forall_congr' fun c => not_congr h.mem_shownLetters
  by_cases hmode : ch.mode = ∅
  · rw [if_pos hmode, if_pos (hempty.mpr hmode)]
  · rw [if_neg hmode, if_neg (fun hnil => hmode (hempty.mp hnil))]

end

end Texts

/-! ## Applying a mode of the line -/

/-- The letters of the table are not list modes or signs. -/
theorem letter_facts (hcm : cm ∈ allChannelmodes) :
    ListMode.ofLetter cm.letter = none ∧ cm.letter ≠ '+' ∧
      cm.letter ≠ '-' ∧ cm.paracount ≤ 1 := by
  revert cm
  decide

theorem param_letter_facts (hcm : cm ∈ allChannelmodes)
    (hpara : cm.paracount ≠ 0) :
    cm.letter ≠ 'p' ∧ cm.letter ≠ 's' ∧ cm.letter ≠ 'r' ∧
      cm.letter ≠ 'i' := by
  revert cm
  decide

/-- Legality does not depend on the case of the name, and a registered channel
has the higher limits. -/
theorem LegalParam.transfer {registered registered' : Bool}
    {name name' : List Char} {letter : Char} {x : ModeParam}
    (h : LegalParam C registered name letter x)
    (hname : name.map Char.toLower = name'.map Char.toLower)
    (hreg : letter = 'H' → registered = true → registered' = true) :
    LegalParam C registered' name' letter x := by
  cases h with
  | flood h => exact .flood h
  | profile hne h => exact .profile hne h
  | history hput hconv =>
    refine .history hput ?_
    cases registered' with
    | true => exact hput
    | false =>
      cases registered with
      | true => exact absurd (hreg rfl rfl) (by decide)
      | false => exact hconv
  | key hne hvalid => exact .key hne hvalid
  | limit hpos hle => exact .limit hpos hle
  | link hvalid hne =>
    refine .link hvalid ?_
    rwa [strcasecmpEq, ← hname]

/-- A mode of the peer's channel is taken over. -/
def receiveMode (src ch : Channel) (cm : Cmode) : Channel :=
  { ch with
    mode := modecharAdd (insert cm.letter ch.mode) cm.letter
    params :=
      if cm.paracount ≠ 0 then
        Function.update ch.params cm.letter (src.params cm.letter)
      else ch.params }

section Receive

variable (S : Server) (peer : Peer)

theorem setModeChar_of_mem (hcm : cm ∈ S.table.channelmodes)
    (what : What) (s : ModeState) :
    setModeChar S peer.requester what cm.letter s =
      doExtmodeChar S peer.requester cm what s := by
  have hlist := (letter_facts (S.table.mem_all hcm)).1
  have hfind := S.table.findChannelModeHandler_eq_some.mpr ⟨hcm, rfl⟩
  rw [setModeChar, hlist, hfind]
  rfl

theorem doExtmodeChar_flag (hlocal : cm.isLocal = false)
    (htype : cm.type ≠ .member) (hpara : cm.paracount = 0) (s : ModeState)
    (hpvar : ∀ change ∈ s.pvar, change.letter ≠ cm.letter) :
    doExtmodeChar S peer.requester cm .add s =
      { s with channel := s.channel.addFlag cm.letter } := by
  have hany : s.pvar.any (·.letter == cm.letter) = false := by
    simpa using hpvar
  have hcount : cm.paracountFor .add = 0 := hpara
  rw [doExtmodeChar]
  simp only [hcount, ne_eq, not_true, false_and, if_false, hlocal,
    Bool.false_eq_true, hany, hpara, htype, drop_zero]
  rfl

variable {pvar : List ModeChange}

theorem doExtmodeChar_param (hlocal : cm.isLocal = false)
    (htype : cm.type ≠ .member) (hpara : cm.paracount = 1) {ch : Channel}
    {text : List Char} (htext : text.length ≤ modebuflen)
    (args : List (List Char)) (hlen : pvar.length < maxmodeparams)
    (hpvar : ∀ change ∈ pvar, change.letter ≠ cm.letter) :
    doExtmodeChar S peer.requester cm .add ⟨ch, pvar, text :: args⟩ =
      ⟨(addParamMode S peer.requester cm text ch pvar).1,
        (addParamMode S peer.requester cm text ch pvar).2, args⟩ := by
  have hany : pvar.any (·.letter == cm.letter) = false := by
    simpa using hpvar
  have hcount : cm.paracountFor .add = 1 := hpara
  rw [doExtmodeChar]
  simp only [hcount, ne_eq, one_ne_zero, not_false_eq_true, true_and,
    cons_ne_nil, false_or, Nat.not_le.mpr hlen, if_false, hlocal,
    Bool.false_eq_true, false_and, hany, hpara, htype,
    head?_cons, Option.map_some, Option.getD_some, if_true,
    take_of_length_le htext, drop_succ_cons, drop_zero]
  rfl

variable {src ch : Channel}

/-- A parameter is stored as the peer has it. -/
theorem addParamMode_receive {x : ModeParam} {handler : ParamHandler}
    {text : List Char} {bound : ℕ}
    (hhandler : paramHandler S.params cm.letter = some handler)
    (hx : src.params cm.letter = some x)
    (htrip : RoundTrips handler (paramContext peer.requester ch) bound x text)
    (hpara : cm.paracount ≠ 0) (hletter : cm.letter ≠ 'p' ∧ cm.letter ≠ 's')
    (hstored : cm.letter ∈ ch.mode →
      ch.getParam S.params cm.letter = some text → ch.params cm.letter = some x)
    (pvar : List ModeChange) :
    (addParamMode S peer.requester cm text ch pvar).1 =
      receiveMode src ch cm := by
  have hhook : ∀ mode : Finset Char, modecharAdd mode cm.letter = mode := by
    intro mode
    rw [modecharAdd, if_neg hletter.1, if_neg hletter.2]
  simp only [addParamMode, hhandler, htrip.isOk, htrip.conv,
    Bool.true_eq_false, if_false]
  split
  · next hsame =>
      have hparam := hstored hsame.1 hsame.2
      rw [receiveMode, if_pos hpara, hhook, Finset.insert_eq_self.mpr hsame.1,
        hx, ← hparam, Function.update_eq_self]
  · simp only [Channel.putParam, hhandler, Channel.addFlag, htrip.put,
      receiveMode, if_pos hpara, hx]

theorem length_addParamMode_le (R : Requester) (cm : Cmode)
    (param : List Char) (ch : Channel) (pvar : List ModeChange) :
    (addParamMode S R cm param ch pvar).2.length ≤ pvar.length + 1 := by
  fun_cases addParamMode S R cm param ch pvar
  case case5 => exact length_doModeCharWrite_le ..
  all_goals exact Nat.le_succ _

/-- The order of the table: a channel is registered before its history limits
are read, and private before it is secret. -/
theorem table_order (T : ModeTable) :
    T.channelmodes.Pairwise fun x y =>
      ¬ (x.letter = 'H' ∧ y.letter = 'r') ∧
        ¬ (x.letter = 's' ∧ y.letter = 'p') :=
  List.Pairwise.sublist T.sublist (by decide)

theorem mem_receiveMode_of_ne {c : Char} (hp : c ≠ 'p') (hs : c ≠ 's') :
    c ∈ (receiveMode src ch cm).mode ↔ c = cm.letter ∨ c ∈ ch.mode := by
  simp only [receiveMode, modecharAdd]
  split_ifs
  all_goals simp [hp, hs]

/-- What the loop needs of the channel to which the modes `cms` are added. -/
structure Receives (C : ParamConfig) (src ch : Channel) (cms : List Cmode)
    (pvar : List ModeChange) : Prop where
  name : src.name.map Char.toLower = ch.name.map Char.toLower
  stored : ∀ cm ∈ cms, cm.paracount ≠ 0 → cm.letter ∈ ch.mode →
    ∃ y registered name, ch.params cm.letter = some y ∧
      LegalParam C registered name cm.letter y
  registered : 'r' ∈ src.mode →
    'r' ∈ ch.mode ∨ ∃ cm ∈ cms, cm.letter = 'r'
  fresh : ∀ change ∈ pvar, ∀ cm ∈ cms, change.letter ≠ cm.letter
  room : pvar.length + (cms.filter (·.paracount ≠ 0)).length ≤ maxmodeparams

variable {cms : List Cmode}

theorem Receives.tail {pvar pvar' : List ModeChange}
    (h : Receives C src ch (cm :: cms) pvar)
    (hnodup : ((cm :: cms).map Cmode.letter).Nodup)
    (hall : ∀ cm' ∈ cms, cm' ∈ allChannelmodes)
    (hpvar : ∀ change ∈ pvar', change ∈ pvar ∨ change.letter = cm.letter)
    (hlen : pvar'.length + (cms.filter (·.paracount ≠ 0)).length ≤ maxmodeparams) :
    Receives C src (receiveMode src ch cm) cms pvar' := by
  rw [map_cons, nodup_cons] at hnodup
  have hne : ∀ cm' ∈ cms, cm.letter ≠ cm'.letter := fun cm' hcm' heq =>
    hnodup.1 (mem_map.mpr ⟨cm', hcm', heq.symm⟩)
  refine ⟨h.name, ?_, ?_, ?_, hlen⟩
  · intro cm' hcm' hpara hletter
    obtain ⟨hp, hs, -⟩ := param_letter_facts (hall cm' hcm') hpara
    rw [mem_receiveMode_of_ne hp hs] at hletter
    obtain ⟨y, registered, name, hy, hlegal⟩ := h.stored cm' (by simp [hcm'])
      hpara (hletter.resolve_left (hne cm' hcm').symm)
    refine ⟨y, registered, name, ?_, hlegal⟩
    simp only [receiveMode]
    split
    · rw [Function.update_of_ne (hne cm' hcm').symm]
      exact hy
    · exact hy
  · intro hr
    rw [mem_receiveMode_of_ne (by decide) (by decide)]
    rcases h.registered hr with hr | ⟨cm', hcm', hr⟩
    · exact .inl (.inr hr)
    · rcases mem_cons.mp hcm' with rfl | hcm'
      · exact .inl (.inl hr.symm)
      · exact .inr ⟨cm', hcm', hr⟩
  · intro change hchange cm' hcm'
    rcases hpvar change hchange with hold | hnew
    · exact h.fresh change hold cm' (by simp [hcm'])
    · rw [hnew]
      exact hne cm' hcm'

/-- Legal parameters that are written alike are the same. -/
theorem LegalParam.eq_of_getParam_eq {ch ch' : Channel} {letter : Char}
    {registered registered' : Bool} {name name' : List Char} {x y : ModeParam}
    (hx : ch.params letter = some x) (hy : ch'.params letter = some y)
    (hlegal : LegalParam C registered name letter x)
    (hlegal' : LegalParam C registered' name' letter y)
    (h : ch.getParam C letter = ch'.getParam C letter) : x = y := by
  obtain ⟨handler, text, hhandler, hget, htrip⟩ := hlegal.getParam_eq hx
  obtain ⟨handler', text', hhandler', hget', htrip'⟩ := hlegal'.getParam_eq hy
  obtain rfl := Option.some.inj (hhandler.symm.trans hhandler')
  obtain rfl := Option.some.inj (hget.symm.trans (h.trans hget'))
  exact Option.some.inj ((htrip.put none).symm.trans (htrip'.put none))

theorem Receives.roundTrips (hsrc : LegalModes C src)
    (h : Receives C src ch (cm :: cms) pvar)
    (hsub : (cm :: cms).Sublist C.table.channelmodes)
    (hcm : cm ∈ shownParams C src) :
    ∃ x handler, src.params cm.letter = some x ∧
      LegalParam C (decide ('r' ∈ src.mode)) src.name cm.letter x ∧
      paramHandler C cm.letter = some handler ∧
      src.getParam C cm.letter = some (paramText C src cm) ∧
      RoundTrips handler (paramContext peer.requester ch)
        (paramBound cm.letter) x (paramText C src cm) := by
  obtain ⟨x, handler, hx, hlegal, hhandler, hget, htrip⟩ :=
    hsrc.exists_param hcm
  have hregistered : cm.letter = 'H' → decide ('r' ∈ src.mode) = true →
      decide ('r' ∈ ch.mode) = true := by
    intro hH hr
    rw [decide_eq_true_eq] at hr ⊢
    rcases h.registered hr with hr | ⟨cm', hcm', hr⟩
    · exact hr
    · rcases mem_cons.mp hcm' with rfl | hcm'
      · exact absurd (hH.symm.trans hr) (by decide)
      · have horder := pairwise_cons.mp
          ((table_order C.table).sublist hsub)
        exact absurd ⟨hH, hr⟩ (horder.1 cm' hcm').1
  obtain ⟨handler', text', hhandler', htrip'⟩ :=
    (hlegal.transfer h.name hregistered).roundTrips
  obtain rfl := Option.some.inj (hhandler.symm.trans hhandler')
  obtain rfl := Option.some.inj (htrip.get.symm.trans htrip'.get)
  exact ⟨x, handler, hx, hlegal, hhandler, hget, htrip'⟩

/-- Each letter of the line takes its own parameter. -/
theorem setModeLoop_receive {src : Channel} (hsrc : LegalModes S.params src)
    (hsub : cms.Sublist (shownModes S.params src)) {ch : Channel}
    (h : Receives S.params src ch cms pvar) :
    (setModeLoop S peer.requester .add (cms.map Cmode.letter)
      ⟨ch, pvar, (cms.filter (·.paracount ≠ 0)).map
        (paramText S.params src)⟩).channel =
      cms.foldl (receiveMode src) ch := by
  induction cms generalizing ch pvar with
  | nil => rfl
  | cons cm cms ih =>
    have htable : (cm :: cms).Sublist S.table.channelmodes :=
      hsub.trans filter_sublist
    have hcm : cm ∈ shownModes S.params src := hsub.subset (by simp)
    obtain ⟨hmem, hlocal, -⟩ := mem_shownModes.mp hcm
    have htype := hsrc.type_of_mem_shownModes hcm
    have hall : ∀ cm' ∈ cms, cm' ∈ allChannelmodes := fun cm' hcm' =>
      S.table.mem_all (htable.subset (by simp [hcm']))
    have hnodup : ((cm :: cms).map Cmode.letter).Nodup :=
      (htable.map _).nodup S.table.nodup_letters
    have hfresh : ∀ change ∈ pvar, change.letter ≠ cm.letter :=
      fun change hchange => h.fresh change hchange cm (by simp)
    obtain ⟨-, hplus, hminus, hle⟩ := letter_facts
      (S.table.mem_all hmem)
    have hroom := h.room
    have hsub' := (sublist_cons_self cm cms).trans hsub
    rw [map_cons, setModeLoop, if_neg hplus, if_neg hminus,
      setModeChar_of_mem S peer hmem, foldl_cons]
    by_cases hpara : cm.paracount = 0
    · rw [filter_cons_of_neg (by simp [hpara])] at hroom ⊢
      rw [doExtmodeChar_flag S peer hlocal htype hpara _ hfresh]
      have hflag : ch.addFlag cm.letter = receiveMode src ch cm := by
        rw [receiveMode, if_neg (not_not.mpr hpara), Channel.addFlag]
      simp only [hflag]
      exact ih hsub' (h.tail hnodup hall (fun _ => .inl) hroom)
    · have hone : cm.paracount = 1 := by omega
      have hfilter : (cm :: cms).filter (·.paracount ≠ 0) =
          cm :: cms.filter (·.paracount ≠ 0) :=
        filter_cons_of_pos (by simp [hpara])
      obtain ⟨x, handler, hx, hlegal, hhandler, hget, htrip⟩ :=
        h.roundTrips peer hsrc htable
          (mem_filter.mpr ⟨hcm, by simp [hpara]⟩)
      have hbound : paramBound cm.letter ≤ modebuflen := by
        unfold paramBound modebuflen
        split
        · decide
        · decide
      rw [hfilter, length_cons] at hroom
      rw [hfilter, map_cons, doExtmodeChar_param S peer hlocal htype
        hone (htrip.length_le.trans hbound) _ (by omega) hfresh]
      obtain ⟨hp, hs, -⟩ := param_letter_facts
        (S.table.mem_all hmem) hpara
      have hchannel := addParamMode_receive S peer hhandler hx
        htrip hpara ⟨hp, hs⟩ (by
          intro hletter hsame
          obtain ⟨y, registered, name, hy, hlegal'⟩ := h.stored cm (by simp)
            hpara hletter
          rw [hy, hlegal'.eq_of_getParam_eq hy hx hlegal
            (hsame.trans hget.symm)]) pvar
      have hlen := length_addParamMode_le S peer.requester cm
        (paramText S.params src cm) ch pvar
      rw [hchannel]
      exact ih hsub' (h.tail hnodup hall
        (addParamMode_step S peer.requester cm _ ch pvar).pvar (by omega))

/-! ## Applying all modes of the line -/

/-- The flags after `+letters`, with what `+p` and `+s` do to each other. -/
def addFlags (mode : Finset Char) (letters : List Char) : Finset Char :=
  letters.foldl (fun mode c => modecharAdd (insert c mode) c) mode

/-- The parameters of the channel, with those of `cms` from the peer. -/
def receiveParams (src ch : Channel) (cms : List Cmode) :
    Char → Option ModeParam :=
  fun c => if ∃ cm ∈ cms, cm.paracount ≠ 0 ∧ cm.letter = c then src.params c
    else ch.params c

theorem receiveParams_nil (src ch : Channel) :
    receiveParams src ch [] = ch.params := by
  funext c
  simp [receiveParams]

theorem foldl_receiveMode (src ch : Channel) (cms : List Cmode) :
    cms.foldl (receiveMode src) ch =
      { ch with
        mode := addFlags ch.mode (cms.map Cmode.letter)
        params := receiveParams src ch cms } := by
  induction cms generalizing ch with
  | nil =>
    rw [receiveParams_nil]
    rfl
  | cons cm cms ih =>
    have hparams : receiveParams src (receiveMode src ch cm) cms =
        receiveParams src ch (cm :: cms) := by
      funext c
      simp only [receiveParams]
      by_cases hlater : ∃ cm' ∈ cms, cm'.paracount ≠ 0 ∧ cm'.letter = c
      · have hall : ∃ cm' ∈ cm :: cms, cm'.paracount ≠ 0 ∧
            cm'.letter = c := by
          obtain ⟨cm', hcm', hc⟩ := hlater
          exact ⟨cm', by simp [hcm'], hc⟩
        rw [if_pos hlater, if_pos hall]
      · rw [if_neg hlater]
        by_cases hhead : cm.paracount ≠ 0 ∧ cm.letter = c
        · rw [if_pos ⟨cm, by simp, hhead⟩]
          simp only [receiveMode, if_pos hhead.1]
          rw [← hhead.2, Function.update_self]
        · have hnone : ¬ ∃ cm' ∈ cm :: cms, cm'.paracount ≠ 0 ∧
              cm'.letter = c := by
            rintro ⟨cm', hcm', hc⟩
            rcases mem_cons.mp hcm' with rfl | hcm'
            · exact hhead hc
            · exact hlater ⟨cm', hcm', hc⟩
          rw [if_neg hnone]
          simp only [receiveMode]
          split
          · next hpara =>
              rw [Function.update_of_ne fun heq => hhead ⟨hpara, heq.symm⟩]
          · rfl
    rw [foldl_cons, ih, hparams]
    rfl

theorem receives_shownModes (hsrc : LegalModes C src)
    (hname : src.name.map Char.toLower = ch.name.map Char.toLower)
    (hstored : ∀ cm ∈ C.table.channelmodes, cm.paracount ≠ 0 →
      cm.letter ∈ ch.mode → ∃ y registered name, ch.params cm.letter = some y ∧
        LegalParam C registered name cm.letter y) :
    Receives C src ch (shownModes C src) [] := by
  refine ⟨hname, ?_, ?_, by simp, ?_⟩
  · intro cm hcm
    exact hstored cm (mem_shownModes.mp hcm).1
  · intro hr
    obtain ⟨cm, hcm, hletter⟩ := mem_map.mp (hsrc.mem_shownLetters.mpr hr)
    exact .inr ⟨cm, hcm, hletter⟩
  · have hcount : (allChannelmodes.filter
        (fun cm => cm.paracount ≠ 0 ∧ cm.type ≠ .member)).length ≤
          maxmodeparams := by
      decide
    rw [length_nil, Nat.zero_add]
    exact hsrc.shownParams_sublist.length_le.trans hcount

/-- What the modes of a line make of a channel. -/
theorem setSjoinModes_eq (hsrc : LegalModes S.params src)
    (h : Receives S.params src ch (shownModes S.params src) []) :
    (setSjoinModes S peer ch
        ('+' :: shownLetters S.params src, shownTexts S.params src)).1 =
      { ch with
        mode := addFlags ch.mode (shownLetters S.params src)
        params := receiveParams src ch (shownModes S.params src) } := by
  have hlen : ('+' :: shownLetters S.params src).length ≤ bufsize - 1 := by
    have hshown := (shownModes_sublist S.params src).length_le
    have hall : allChannelmodes.length ≤ bufsize - 2 := by decide
    rw [length_cons, shownLetters, length_map]
    exact Nat.succ_le_succ (hshown.trans hall)
  have hloop := setModeLoop_receive S peer hsrc (List.Sublist.refl _) h
  rw [foldl_receiveMode] at hloop
  rw [setSjoinModes, take_of_length_le hlen, hsrc.mp2parv_catParams,
    setMode, setModeLoop, if_pos rfl]
  exact hloop

section Flags

variable {mode : Finset Char} {letters : List Char}

theorem mem_modecharAdd_of_ne {c d : Char} (hp : d ≠ 'p') (hs : d ≠ 's') :
    d ∈ modecharAdd (insert c mode) c ↔ d = c ∨ d ∈ mode := by
  unfold modecharAdd
  split_ifs
  all_goals simp [hp, hs]

theorem mem_addFlags_of_ne {c : Char} (hp : c ≠ 'p') (hs : c ≠ 's') :
    c ∈ addFlags mode letters ↔ c ∈ letters ∨ c ∈ mode := by
  induction letters generalizing mode with
  | nil => simp [addFlags]
  | cons d letters ih =>
    have hcons : addFlags mode (d :: letters) =
        addFlags (modecharAdd (insert d mode) d) letters := rfl
    rw [hcons, ih, mem_modecharAdd_of_ne hp hs, mem_cons]
    tauto

/-- Of `+p` and `+s`, only the last one that was added is left. -/
theorem mem_addFlags_secret
    (horder : letters.Pairwise fun x y => ¬ (x = 's' ∧ y = 'p')) :
    ('s' ∈ addFlags mode letters ↔
        's' ∈ letters ∨ ('s' ∈ mode ∧ 'p' ∉ letters)) ∧
      ('p' ∈ addFlags mode letters ↔
        's' ∉ letters ∧ ('p' ∈ letters ∨ 'p' ∈ mode)) := by
  induction letters generalizing mode with
  | nil => simp [addFlags]
  | cons d letters ih =>
    obtain ⟨hhead, horder⟩ := pairwise_cons.mp horder
    have hcons : addFlags mode (d :: letters) =
        addFlags (modecharAdd (insert d mode) d) letters := rfl
    obtain ⟨hs, hp⟩ := @ih (modecharAdd (insert d mode) d) horder
    rw [hcons, hs, hp]
    by_cases hdp : d = 'p'
    · subst hdp
      simp [modecharAdd]
    · by_cases hds : d = 's'
      · subst hds
        have hlater : 'p' ∉ letters := fun hmem => hhead 'p' hmem ⟨rfl, rfl⟩
        simp [modecharAdd, hlater]
      · simp [modecharAdd, hdp, hds, Ne.symm hdp, Ne.symm hds]

end Flags

end Receive

end UnrealIrcd.Channels
