import UnrealIrcd.Channels.ParamRoundTrip
import UnrealIrcd.Channels.SetMode

/-!
# Merging two parameters of one mode

`sjoin_check` compares the parameter of our channel with the one of the peer.
Two servers that do this with exchanged roles store the same parameter, except
for flood settings that differ only in their period: those are taken to be the
same, and each server keeps what it got from the other.
-/

namespace UnrealIrcd.Channels

open Support

/-- The record that is stored when our record meets theirs. -/
def mergedParam (h : ParamHandler) (our their : ModeParam) :
    Option ModeParam :=
  let r := h.sjoinCheck our their
  match r.1 with
  | .same => some their
  | .theyWon => some their
  | .weWon => h.putParam (some their) ((h.getParam r.2).getD [])
  | .merge => h.putParam (some their) ((h.getParam r.2).getD [])

/-- Flood settings that differ in their period and in nothing else. -/
def ModeParam.PeriodOnly : ModeParam → ModeParam → Prop
  | .flood x, .flood y => compareFloodprotModes x y = true ∧ x.per ≠ y.per
  | _, _ => False

/-! ## Flood settings -/

section Flood

variable {C : FloodConfig} {T : ModeTable} {x y : FloodSettings}

theorem compareFloodprotModes_iff :
    compareFloodprotModes x y = true ↔ x.limits = y.limits := by
  simp only [compareFloodprotModes, Bool.and_eq_true, decide_eq_true_eq]
  constructor
  · rintro ⟨⟨hlimit, haction⟩, hremove⟩
    funext i
    have hx : x.limits i = ⟨(x.limits i).limit, (x.limits i).action,
      (x.limits i).removeAfter⟩ := rfl
    rw [hx, hlimit i, haction i, hremove i]
  · intro h
    simp [h]

theorem FloodSettings.merge_comm (x y : FloodSettings) :
    x.merge y = y.merge x := by
  simp only [merge, max_comm]

theorem null_le (c : Char) : '\x00' ≤ c := by
  rw [Char.le_def]
  exact Nat.zero_le _

theorem merge_limit_cases {f : FloodType}
    (hx : x.limits f.index = .off ∨ (x.limits f.index).Set C T f)
    (hy : y.limits f.index = .off ∨ (y.limits f.index).Set C T f) :
    (x.merge y).limits f.index = .off ∨
      ((x.merge y).limits f.index).Set C T f := by
  have hoff : ∀ l : FloodLimit, (⟨max 0 l.limit, max '\x00' l.action,
      max 0 l.removeAfter⟩ : FloodLimit) = l := by
    intro l
    rw [max_eq_right (Nat.zero_le _), max_eq_right (null_le _),
      max_eq_right (Nat.zero_le _)]
  rcases hx with hx | hx
  · have hmerge : (x.merge y).limits f.index = y.limits f.index := by
      simp only [FloodSettings.merge, hx]
      exact hoff _
    rw [hmerge]
    exact hy
  · rcases hy with hy | hy
    · have hmerge : (x.merge y).limits f.index = x.limits f.index := by
        rw [FloodSettings.merge_comm]
        simp only [FloodSettings.merge, hy]
        exact hoff _
      rw [hmerge]
      exact .inr hx
    · refine .inr ⟨?_, ?_, ?_, ?_, ?_⟩
      · exact hx.limit_pos.trans (le_max_left _ _)
      · exact max_le hx.limit_le hy.limit_le
      · rcases max_choice (x.limits f.index).action (y.limits f.index).action
          with heq | heq
        · simp only [FloodSettings.merge, heq]
          exact hx.action
        · simp only [FloodSettings.merge, heq]
          exact hy.action
      · exact max_le hx.removeAfter_le hy.removeAfter_le
      · intro htimed
        simp only [FloodSettings.merge, hx.removeAfter_of_timedban htimed,
          hy.removeAfter_of_timedban htimed, max_self]

theorem limit_readBack_eq_iff {l : FloodLimit} :
    l.readBack = l ↔ (l.action = '\x00' → l.removeAfter = 0) := by
  obtain ⟨limit, action, removeAfter⟩ := l
  unfold FloodLimit.readBack
  split
  · next h =>
      simp only at h
      simp [h, eq_comm]
  · next h =>
      simp [h]

theorem readBack_eq_iff :
    x.readBack = x ↔ (1 ≤ x.per ∧ x.per ≤ 32767) ∧
      ∀ i, (x.limits i).action = '\x00' → (x.limits i).removeAfter = 0 := by
  have hper : (if 1 ≤ x.per ∧ x.per ≤ 32767 then x.per else 1) = x.per ↔
      1 ≤ x.per ∧ x.per ≤ 32767 := by
    split
    · next h => simp [h]
    · omega
  rw [FloodSettings.ext_iff, ← hper]
  simp only [FloodSettings.readBack, funext_iff, limit_readBack_eq_iff]

theorem FloodSettings.Legal.merge (hx : x.Legal C T) (hy : y.Legal C T) :
    (x.merge y).Legal C T := by
  obtain ⟨hper, hremove⟩ := readBack_eq_iff.mp hx.readBack_eq
  obtain ⟨hper', hremove'⟩ := readBack_eq_iff.mp hy.readBack_eq
  refine ⟨⟨?_, ?_, ?_⟩, readBack_eq_iff.mpr ⟨?_, ?_⟩⟩
  · exact max_lt hx.per_lt hy.per_lt
  · intro f hf
    exact merge_limit_cases (hx.limits f hf) (hy.limits f hf)
  · obtain ⟨i, hi⟩ := hx.nonempty
    refine ⟨i, ?_⟩
    have hle : (x.limits i).limit ≤ ((x.merge y).limits i).limit :=
      le_max_left _ _
    omega
  · exact ⟨hper.1.trans (le_max_left _ _), max_le hper.2 hper'.2⟩
  · intro i hi
    have hxi : (x.limits i).action = '\x00' :=
      le_antisymm ((le_max_left _ _).trans hi.le) (null_le _)
    have hyi : (y.limits i).action = '\x00' :=
      le_antisymm ((le_max_right _ _).trans hi.le) (null_le _)
    simp only [FloodSettings.merge, hremove i hxi, hremove' i hyi, max_self]

theorem mergedParam_flood {P : ParamConfig} (hx : x.Legal P.flood P.table)
    (hy : y.Legal P.flood P.table) :
    mergedParam (floodHandler P) (.flood x) (.flood y) =
      if x.limits = y.limits then some (.flood y)
      else some (.flood (x.merge y)) := by
  by_cases hsame : x.limits = y.limits
  · have hcompare := compareFloodprotModes_iff.mpr hsame
    simp only [mergedParam, floodHandler, hcompare, if_true, if_pos hsame]
  · have hcompare : compareFloodprotModes x y = false :=
      Bool.eq_false_iff.mpr (mt compareFloodprotModes_iff.mp hsame)
    have hmerge := hx.merge hy
    have hput := hmerge.cmodefPutParam (some y)
    rw [hmerge.readBack_eq] at hput
    simp only [mergedParam, floodHandler, hcompare, Bool.false_eq_true,
      if_false, if_neg hsame, Option.getD_some, hput]

end Flood

/-! ## History limits -/

theorem HistoryChanMode.merge_comm (x y : HistoryChanMode) :
    x.merge y = y.merge x := by
  simp only [merge, max_comm]

theorem HistoryChanMode.Legal.merge {S : HistoryStorage} {x y : HistoryChanMode}
    (hx : x.Legal S) (hy : y.Legal S) : (x.merge y).Legal S where
  lines_pos := hx.lines_pos.trans (le_max_left _ _)
  lines_le := max_le hx.lines_le hy.lines_le
  lines_lt := max_lt hx.lines_lt hy.lines_lt
  time_ge := hx.time_ge.trans (le_max_left _ _)
  time_le := max_le hx.time_le hy.time_le
  time_lt := max_lt hx.time_lt hy.time_lt
  minutes := by
    rcases max_choice x.maxTime y.maxTime with heq | heq
    · simp only [HistoryChanMode.merge, heq]
      exact hx.minutes
    · simp only [HistoryChanMode.merge, heq]
      exact hy.minutes

theorem mergedParam_history {C : ParamConfig} {x y : HistoryChanMode}
    (hx : x.Legal C.history.registered) (hy : y.Legal C.history.registered) :
    mergedParam (historyHandler C) (.history x) (.history y) =
      some (.history (x.merge y)) := by
  by_cases hsame : x = y
  · subst hsame
    simp [mergedParam, historyHandler, HistoryChanMode.merge]
  · have hput : historyParseChanmode C.history true
        (historyChanmodeHelper (x.merge y)) = some (x.merge y) :=
      historyParseChanmode_helper (hx.merge hy)
    simp only [mergedParam, historyHandler, if_neg hsame, Option.getD_some,
      historyChanmodePutParam, hput, Option.map_some]

/-! ## Parameters of which the greater one wins -/

/-- The winner is stored on both sides. -/
theorem mergedParam_of_check {h : ParamHandler} {ctx ctx' : ParamContext}
    {bound : ℕ} {x y : ModeParam} {text text' : List Char} {α : Type} {s t : α}
    (hx : RoundTrips h ctx bound x text) (hy : RoundTrips h ctx' bound y text')
    (hkeep : (h.sjoinCheck x y).2 = x) (hkeep' : (h.sjoinCheck y x).2 = y)
    (hcheck : ((h.sjoinCheck x y).1 = .same ∧ s = t) ∨
      ((h.sjoinCheck x y).1 = .weWon ∧ (h.sjoinCheck y x).1 = .theyWon) ∨
      ((h.sjoinCheck x y).1 = .theyWon ∧ (h.sjoinCheck y x).1 = .weWon))
    (hsame : s = t → x = y) : mergedParam h x y = mergedParam h y x := by
  rcases hcheck with ⟨-, heq⟩ | ⟨hwon, hlost⟩ | ⟨hlost, hwon⟩
  · rw [hsame heq]
  · simp only [mergedParam, hwon, hlost, hkeep, hx.get, Option.getD_some,
      hx.put]
  · simp only [mergedParam, hwon, hlost, hkeep', hy.get, Option.getD_some,
      hy.put]

theorem strcmpCheck_cases (s t : List Char) :
    (strcmpCheck s t = .same ∧ s = t) ∨
      (strcmpCheck s t = .weWon ∧ strcmpCheck t s = .theyWon) ∨
      (strcmpCheck s t = .theyWon ∧ strcmpCheck t s = .weWon) := by
  have hswap : compare t s = (compare s t).swap := Std.OrientedCmp.eq_swap
  cases hcompare : compare s t with
  | eq =>
    refine .inl ⟨?_, Std.LawfulEqOrd.eq_of_compare hcompare⟩
    simp only [strcmpCheck, hcompare]
  | gt =>
    rw [hcompare] at hswap
    refine .inr (.inl ?_)
    simp only [strcmpCheck, hcompare, hswap, Ordering.swap, and_self]
  | lt =>
    rw [hcompare] at hswap
    refine .inr (.inr ?_)
    simp only [strcmpCheck, hcompare, hswap, Ordering.swap, and_self]

theorem strcmpCheck_self (s : List Char) : strcmpCheck s s = .same := by
  rcases strcmpCheck_cases s s with ⟨hsame, -⟩ | ⟨hwon, hlost⟩ | ⟨hlost, hwon⟩
  · exact hsame
  · exact absurd (hwon.symm.trans hlost) (by decide)
  · exact absurd (hlost.symm.trans hwon) (by decide)

theorem limitCheck_cases (s t : ℤ) :
    (limitCheck s t = .same ∧ s = t) ∨
      (limitCheck s t = .weWon ∧ limitCheck t s = .theyWon) ∨
      (limitCheck s t = .theyWon ∧ limitCheck t s = .weWon) := by
  rcases lt_trichotomy s t with h | h | h
  · refine .inr (.inr ?_)
    simp [limitCheck, h, h.ne, h.ne', not_lt.mpr h.le]
  · refine .inl ?_
    simp [limitCheck, h]
  · refine .inr (.inl ?_)
    simp [limitCheck, h, h.ne, h.ne', not_lt.mpr h.le]

/-! ## All parameters -/

section All

variable {C : ParamConfig} {registered registered' : Bool}
  {name name' : List Char} {letter : Char} {x y : ModeParam}
  {h : ParamHandler}

section

variable (hh : paramHandler C letter = some h)
  (hx : LegalParam C registered name letter x)

include hh hx

/-- Both sides store the same record, unless only the periods differ. -/
theorem mergedParam_comm (hy : LegalParam C registered' name' letter y)
    (hperiod : ¬ x.PeriodOnly y) : mergedParam h x y = mergedParam h y x := by
  obtain ⟨_, text, hh', htrip⟩ := hx.roundTrips
  obtain ⟨_, text', hh'', htrip'⟩ := hy.roundTrips
  obtain rfl := Option.some.inj (hh.symm.trans hh')
  obtain rfl := Option.some.inj (hh.symm.trans hh'')
  cases hx with
  | flood hx =>
    obtain rfl := Option.some.inj hh
    cases hy with
    | flood hy =>
      rw [mergedParam_flood hx hy, mergedParam_flood hy hx,
        FloodSettings.merge_comm]
      split
      · next hsame =>
          rw [if_pos hsame.symm]
          have hper := not_not.mp fun hne =>
            hperiod ⟨compareFloodprotModes_iff.mpr hsame, hne⟩
          rw [FloodSettings.ext hper hsame]
      · next hdiff => rw [if_neg (Ne.symm hdiff)]
  | @profile p settings hne hget =>
    obtain rfl := Option.some.inj hh
    cases hy with
    | @profile p' settings' hne' hget' =>
      refine mergedParam_of_check htrip htrip' rfl rfl
        (strcmpCheck_cases p p') ?_
      rintro rfl
      rw [hget] at hget'
      cases hget'
      rfl
  | history hput hconv =>
    obtain rfl := Option.some.inj hh
    cases hy with
    | history hput' hconv' =>
      rw [mergedParam_history hput hput', mergedParam_history hput' hput,
        HistoryChanMode.merge_comm]
  | @key key hne hvalid =>
    obtain rfl := Option.some.inj hh
    cases hy with
    | @key key' hne' hvalid' =>
      exact mergedParam_of_check htrip htrip' rfl rfl
        (strcmpCheck_cases key key') (congrArg _)
  | @limit limit hpos hle =>
    obtain rfl := Option.some.inj hh
    cases hy with
    | @limit limit' hpos' hle' =>
      exact mergedParam_of_check htrip htrip' rfl rfl
        (limitCheck_cases limit limit') (congrArg _)
  | @link linked hvalid hname =>
    obtain rfl := Option.some.inj hh
    cases hy with
    | @link linked' hvalid' hname' =>
      exact mergedParam_of_check htrip htrip' rfl rfl
        (strcmpCheck_cases linked linked') (congrArg _)

/-- If only the periods differ, each side stores what it got. -/
theorem mergedParam_of_periodOnly
    (hy : LegalParam C registered' name' letter y) (hperiod : x.PeriodOnly y) :
    mergedParam h x y = some y := by
  cases hx with
  | flood hx =>
    cases hy with
    | flood hy =>
      obtain rfl := Option.some.inj hh
      rw [mergedParam_flood hx hy,
        if_pos (compareFloodprotModes_iff.mp hperiod.1)]
  | profile | history | key | limit | link => exact hperiod.elim

theorem mergedParam_self : mergedParam h x x = some x := by
  cases hx with
  | flood hx =>
    obtain rfl := Option.some.inj hh
    rw [mergedParam_flood hx hx, if_pos rfl]
  | history hput hconv =>
    obtain rfl := Option.some.inj hh
    rw [mergedParam_history hput hput]
    simp [HistoryChanMode.merge]
  | @profile p settings hne hget =>
    obtain rfl := Option.some.inj hh
    simp [mergedParam, profileHandler, strcmpCheck_self]
  | key hne hvalid =>
    obtain rfl := Option.some.inj hh
    simp [mergedParam, keyHandler, strcmpCheck_self]
  | limit hpos hle =>
    obtain rfl := Option.some.inj hh
    simp [mergedParam, limitHandler, limitCheck]
  | link hvalid hname =>
    obtain rfl := Option.some.inj hh
    simp [mergedParam, linkHandler, strcmpCheck_self]

end

end All

end UnrealIrcd.Channels
