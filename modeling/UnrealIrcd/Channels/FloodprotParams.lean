import UnrealIrcd.Channels.ParamMerge
import UnrealIrcd.Channels.State

/-!
# Parameters of `+f`

What `conv_param` prints is read back as it was parsed, unless the period is no
positive `short` or a removal time is not printed.  An item without an action
takes its removal time from the next one.
-/

namespace UnrealIrcd.Channels

open Support List

variable {C : FloodConfig} {T : ModeTable} {x : FloodSettings} {o : FloodParse}

/-! ## The canonical form -/

/-- Settings that differ in times that are not printed look the same. -/
theorem channelModefString_congr {y : FloodSettings} (hper : x.per = y.per)
    (hoff : ∀ f ∈ floodtypes, f ∉ floodEntries x → (y.limits f.index).limit = 0)
    (hset : ∀ f ∈ floodEntries x,
      (y.limits f.index).limit = (x.limits f.index).limit ∧
        chmodefstrhelper f (y.limits f.index) =
          chmodefstrhelper f (x.limits f.index)) :
    channelModefString y = channelModefString x := by
  have hentries : floodEntries y = floodEntries x := by
    refine filter_congr fun f hf => ?_
    by_cases hx : f ∈ floodEntries x
    · rw [(hset f hx).1]
    · have hzero : (x.limits f.index).limit = 0 := by
        simpa [mem_floodEntries, hf] using hx
      rw [hoff f hf hx, hzero]
  rw [channelModefString_eq, channelModefString_eq, floodInside, floodInside,
    hentries, hper, map_congr_left fun f hf => (hset f hf).2]

/-- The text that `conv_param` makes is a fixed point and is stored and printed
without loss exactly if the period is a positive `short`, no time is set without
an action, and the parser does not put its default in the place of a time. -/
theorem cmodefConvParam_canonical_iff (C : FloodConfig) (T : ModeTable)
    (localclient : Bool) (param text : List Char)
    (h : cmodefConvParam C T localclient param = some text) :
    let x := (parseChannelModeFlood C T ⟨false, localclient⟩ param .empty).fld
    (cmodefConvParam C T localclient text = some text ∧ ∀ fld,
        channelModefString (cmodefPutParam C T fld text) = text ∧
          cmodefPutParam C T fld text = x) ↔
      ((1 ≤ x.per ∧ x.per ≤ 32767) ∧
        ∀ i, (x.limits i).action = '\x00' → (x.limits i).removeAfter = 0) ∧
      ∀ f ∈ floodEntries x, (x.limits f.index).action ≠ '\x00' →
        (x.limits f.index).reread C ⟨false, localclient⟩ f =
          x.limits f.index := by
  intro x
  rw [cmodefConvParam] at h
  split at h
  · next hok =>
      obtain rfl : channelModefString x = text := Option.some.inj h
      have hx : x.Parsed C T := parsed_of_parseChannelModeFlood hok
      obtain ⟨limits, hparse, hlimits⟩ :=
        @parse_channelModefString C T x ⟨false, localclient⟩ hx rfl .empty
      have hconv : cmodefConvParam C T localclient (channelModefString x) =
          some (channelModefString ⟨x.readBack.per, limits⟩) := by
        rw [cmodefConvParam, hparse]
        rfl
      rw [hconv, Option.some.injEq, ← readBack_eq_iff]
      simp only [hx.cmodefPutParam]
      constructor
      · rintro ⟨hfix, hstored⟩
        obtain ⟨-, hback⟩ := hstored none
        refine ⟨hback, fun f hf haction => ?_⟩
        -- Both print the same, so they are read as the same.
        have hy : FloodSettings.Parsed C T ⟨x.readBack.per, limits⟩ := by
          have hparsed := @parsed_of_parseChannelModeFlood C T
            ⟨false, localclient⟩ (channelModefString x) .empty
          rw [hparse] at hparsed
          exact hparsed rfl
        have hread := hy.cmodefPutParam none
        rw [hfix, hx.cmodefPutParam, hback] at hread
        have hlimit := congrArg (FloodSettings.limits · f.index) hread
        simp only [FloodSettings.readBack, hlimits f (mem_floodEntries.mp hf).1,
          if_pos hf] at hlimit
        exact (hlimit.trans (limit_readBack_eq_iff.mpr fun hnone =>
          absurd hnone haction)).symm
      · rintro ⟨hback, hreread⟩
        rw [hback]
        refine ⟨channelModefString_congr rfl ?_ ?_, fun _ => ⟨rfl, rfl⟩⟩
        · intro f hf hnot
          dsimp only
          rw [hlimits f hf, if_neg hnot]
          rfl
        · intro f hf
          dsimp only
          rw [hlimits f (mem_floodEntries.mp hf).1, if_pos hf]
          refine ⟨rfl, ?_⟩
          by_cases haction : (x.limits f.index).action = '\x00'
          · simp [chmodefstrhelper, FloodLimit.reread, haction]
          · rw [hreread f hf haction]
  · cases h

theorem cmodefConvParam_canonical_sample :
    cmodefConvParam sampleConfig.flood .full true "[5j#R10]:15".toList =
        some "[5j#R10]:15".toList ∧
      ∀ fld, channelModefString (cmodefPutParam sampleConfig.flood .full fld
        "[5j#R10]:15".toList) = "[5j#R10]:15".toList := by
  obtain ⟨hfix, hstored⟩ := (cmodefConvParam_canonical_iff sampleConfig.flood
    .full true "[5j#R10]:15".toList "[5j#R10]:15".toList (by decide)).mpr
    ⟨⟨by decide, by decide⟩, by decide⟩
  exact ⟨hfix, fun fld => (hstored fld).1⟩

/-- A period of 40000 seconds becomes one second. -/
theorem cmodefConvParam_negative :
    cmodefConvParam sampleConfig.flood .full true "[5j]:40000".toList =
        some "[5j]:-25536".toList ∧
      cmodefConvParam sampleConfig.flood .full true "[5j]:-25536".toList =
        some "[5j]:1".toList := by
  decide

/-! ## Items of one type -/

/-- The items of a parameter, each with the memory behind it. -/
def floodItems (param : List Char) : List (List Char × List Char) :=
  let text := (param.take 255).drop 1
  floodTokens ((text.dropWhile (· != ']')).drop 1) []
    (text.takeWhile (· != ']'))

theorem limits_of_ok {param : List Char} {fld : FloodSettings} {f : FloodType}
    (h : (parseChannelModeFlood C T o param fld).ok = true)
    (hf : f ∈ floodtypes) :
    (parseChannelModeFlood C T o param fld).fld.limits f.index =
      ((tokensOf f (floodItems param)).getLast?.map
        (tokenLimit C T o f)).getD .off := by
  revert h
  unfold floodItems
  fun_cases parseChannelModeFlood C T o param fld
  all_goals intro h
  case case6 text htext _ _ after hafter _ _ _ hparse _ _ _ _ =>
    simp only [htext, hafter, drop_succ_cons, drop_zero]
    exact limits_of_parseFloodTokens hf hparse
  all_goals cases h

theorem tokenLimit_eq_iff {f : FloodType} {x y : List Char × List Char}
    (hitem : y.1 = x.1) :
    tokenLimit C T o f x = tokenLimit C T o f y ↔
      (floodOptionOf x.1 = ['#'] →
        (f.timedbanRequired && !C.timedbanAvailable) = false →
          floodRemoveAfter C o ['#'] x.2 = floodRemoveAfter C o ['#'] y.2) := by
  simp only [tokenLimit, floodLimitOf, hitem, FloodLimit.mk.injEq, true_and]
  by_cases hhash : floodOptionOf x.1 = ['#']
  · rw [hhash]
    cases f.timedbanRequired && !C.timedbanAvailable <;> simp
  · -- what stands behind the item is not read
    have hsame : ∀ option, option ≠ ['#'] →
        floodRemoveAfter C o option x.2 =
          floodRemoveAfter C o option y.2 := by
      rintro (_ | ⟨c, _ | ⟨d, s⟩⟩) hne
      · rfl
      · simp [floodRemoveAfter]
      · by_cases hc : c = '#'
        · rw [hc]
          rfl
        · simp [floodRemoveAfter, hc]
    simp [hsame _ hhash, hhash]

/-- Parameters with the same items of a type store the same for it, unless the
last of the items ends behind its hash sign and the times read behind it
differ. -/
theorem parseChannelModeFlood_items_iff (C : FloodConfig) (T : ModeTable)
    (o : FloodParse) (f : FloodType) (hf : f ∈ floodtypes)
    (param param' : List Char) (fld fld' : FloodSettings)
    (h : (parseChannelModeFlood C T o param fld).ok = true)
    (h' : (parseChannelModeFlood C T o param' fld').ok = true)
    (hitems : (tokensOf f (floodItems param)).map Prod.fst =
      (tokensOf f (floodItems param')).map Prod.fst) :
    (parseChannelModeFlood C T o param fld).fld.limits f.index =
        (parseChannelModeFlood C T o param' fld').fld.limits f.index ↔
      ∀ x ∈ (tokensOf f (floodItems param)).getLast?,
        ∀ y ∈ (tokensOf f (floodItems param')).getLast?,
          floodOptionOf x.1 = ['#'] →
            (f.timedbanRequired && !C.timedbanAvailable) = false →
              floodRemoveAfter C o ['#'] x.2 =
                floodRemoveAfter C o ['#'] y.2 := by
  have hlast := congrArg getLast? hitems
  rw [getLast?_map, getLast?_map] at hlast
  rw [limits_of_ok h hf, limits_of_ok h' hf]
  cases hx : (tokensOf f (floodItems param)).getLast? with
  | none =>
    rw [hx, Option.map_none, eq_comm, Option.map_eq_none_iff] at hlast
    simp [hlast]
  | some x =>
    rw [hx, eq_comm, Option.map_some, Option.map_eq_some_iff] at hlast
    obtain ⟨y, hy, hitem⟩ := hlast
    simp only [hy, Option.mem_some_iff, forall_eq', Option.map_some,
      Option.getD_some]
    exact tokenLimit_eq_iff hitem

theorem parseChannelModeFlood_items_sample :
    (parseChannelModeFlood sampleConfig.flood .full ⟨true, true⟩
        "[5j#R3,10k]:5".toList .empty).fld.limits .join =
      (parseChannelModeFlood sampleConfig.flood .full ⟨true, true⟩
        "[20k,5j#R3]:7".toList .empty).fld.limits .join :=
  (parseChannelModeFlood_items_iff sampleConfig.flood .full ⟨true, true⟩
    ⟨'j', .join, 'i', ['R'], false⟩ (by decide) _ _ .empty .empty (by decide)
    (by decide) (by decide)).mpr (by decide)

/-- The minutes of `5j#` are the count of the next item. -/
theorem parseChannelModeFlood_next_item :
    ((parseChannelModeFlood sampleConfig.flood .full ⟨false, false⟩
        "[5j#,10k]:5".toList .empty).fld.limits .join).removeAfter = 10 ∧
      ((parseChannelModeFlood sampleConfig.flood .full ⟨false, false⟩
        "[5j#,20k]:5".toList .empty).fld.limits .join).removeAfter = 20 := by
  decide

end UnrealIrcd.Channels
