import UnrealIrcd.Channels.Floodprot

/-!
# Printing and parsing flood settings

A parameter of `+f` that `channel_modef_string` prints is parsed to the same
settings, provided they are of the kind that the parser itself makes.
-/

namespace UnrealIrcd.Channels

open Support List

/-! ## Settings that can be printed -/

/-- Settings for one kind of flood as the parser makes them. -/
structure FloodLimit.Set (C : FloodConfig) (T : ModeTable) (f : FloodType)
    (l : FloodLimit) : Prop where
  limit_pos : 1 ≤ l.limit
  limit_le : l.limit ≤ 999
  action : l.action = f.defaultAction ∨
    (l.action ≠ '\x00' ∧ floodprotValidAlternateAction T l.action f = true)
  removeAfter_le : l.removeAfter ≤ 255
  removeAfter_of_timedban :
    (f.timedbanRequired && !C.timedbanAvailable) = true → l.removeAfter = 0

/-- Settings as the parser makes them. -/
structure FloodSettings.Parsed (C : FloodConfig) (T : ModeTable)
    (x : FloodSettings) : Prop where
  per_lt : x.per < 2 ^ 16
  limits : ∀ f ∈ floodtypes,
    x.limits f.index = .off ∨ (x.limits f.index).Set C T f
  nonempty : ∃ i, (x.limits i).limit ≠ 0

/-- What is read back when a limit is printed: a time without an action is
lost. -/
def FloodLimit.readBack (l : FloodLimit) : FloodLimit :=
  if l.action = '\x00' then { l with removeAfter := 0 } else l

/-- What is read back when settings are printed: a period that is not a
positive `short` becomes one second. -/
def FloodSettings.readBack (x : FloodSettings) : FloodSettings where
  per := if 1 ≤ x.per ∧ x.per ≤ 32767 then x.per else 1
  limits i := (x.limits i).readBack

/-- Settings that are printed and parsed without loss. -/
structure FloodSettings.Legal (C : FloodConfig) (T : ModeTable)
    (x : FloodSettings) : Prop extends x.Parsed C T where
  readBack_eq : x.readBack = x

variable {C : FloodConfig} {T : ModeTable} {f : FloodType} {l : FloodLimit}
  {x : FloodSettings} {ts : List (List Char)}
  {tokens : List (List Char × List Char)} {o : FloodParse}

@[simp] theorem FloodLimit.readBack_off : FloodLimit.off.readBack = .off :=
  rfl

@[simp] theorem FloodLimit.readBack_limit (l : FloodLimit) :
    l.readBack.limit = l.limit := by
  unfold readBack
  split
  · rfl
  · rfl

@[simp] theorem FloodLimit.readBack_action (l : FloodLimit) :
    l.readBack.action = l.action := by
  unfold readBack
  split
  · rfl
  · rfl

theorem FloodLimit.readBack_removeAfter_le (l : FloodLimit) :
    l.readBack.removeAfter ≤ l.removeAfter := by
  unfold readBack
  split
  · exact Nat.zero_le _
  · exact Nat.le_refl _

theorem FloodLimit.Set.readBack (h : l.Set C T f) : l.readBack.Set C T f where
  limit_pos := by rw [l.readBack_limit]; exact h.limit_pos
  limit_le := by rw [l.readBack_limit]; exact h.limit_le
  action := by rw [l.readBack_action]; exact h.action
  removeAfter_le := l.readBack_removeAfter_le.trans h.removeAfter_le
  removeAfter_of_timedban := fun htimed => Nat.le_zero.mp
    (l.readBack_removeAfter_le.trans (h.removeAfter_of_timedban htimed).le)

theorem exists_floodtype (i : Flood) : ∃ f ∈ floodtypes, f.index = i := by
  cases i with
  | ctcp | join | knock | msg | nick | text | repeating | paste => decide

theorem nodup_floodtypes : (floodtypes.map FloodType.index).Nodup := by
  decide

theorem findFloodprotByLetter_letter (hf : f ∈ floodtypes) :
    findFloodprotByLetter f.letter = some f := by
  revert f
  decide

theorem floodtype_chars (hf : f ∈ floodtypes) :
    f.letter.isAlpha = true ∧
      (f.defaultAction = '\x00' ∨ f.defaultAction.isAlpha = true) ∧
      ∀ a ∈ f.actions, a.isAlpha = true := by
  have hall : floodtypes.all (fun f => f.letter.isAlpha &&
      (f.defaultAction == '\x00' || f.defaultAction.isAlpha) &&
        f.actions.all Char.isAlpha) = true := by
    decide
  have hchars := all_eq_true.mp hall f hf
  simp only [Bool.and_eq_true, Bool.or_eq_true, beq_iff_eq, all_eq_true]
    at hchars
  exact ⟨hchars.1.1, hchars.1.2, hchars.2⟩

theorem isDigit_floodtype_letter (hf : f ∈ floodtypes) :
    f.letter.isDigit = false := by
  revert f
  decide

theorem isAlpha_letter {cm : Cmode} (hcm : cm ∈ allChannelmodes) :
    cm.letter.isAlpha = true := by
  revert cm
  decide

theorem isAlpha_of_validAlternateAction (hf : f ∈ floodtypes) {a : Char}
    (h : floodprotValidAlternateAction T a f = true) : a.isAlpha = true := by
  rw [floodprotValidAlternateAction, Bool.or_eq_true] at h
  rcases h with h | h
  · exact (floodtype_chars hf).2.2 a (by simpa using h)
  · split at h
    · cases h
    · next cm hcm =>
        obtain ⟨hmem, rfl⟩ := T.findChannelModeHandler_eq_some.mp hcm
        exact isAlpha_letter (T.mem_all hmem)

/-! ## One entry -/

theorem shortDecimal_eq {n : ℕ} (h : n ≤ 32767) :
    shortDecimal n = decimal n := by
  rw [shortDecimal, Int.bmod_eq_of_le (by omega) (by omega)]

theorem decimal_natCast (n : ℕ) : decimal n = Nat.toDigits 10 n := by
  rw [decimal, if_neg (by omega), Int.natAbs_natCast]

theorem isDigit_of_mem_decimal {n : ℕ} : ∀ c ∈ decimal n, c.isDigit = true := by
  rw [decimal_natCast]
  exact isDigit_of_mem_toDigits

theorem length_decimal_le {n k : ℕ} (hk : 0 < k) (h : n < 10 ^ k) :
    (decimal n).length ≤ k := by
  rw [decimal_natCast]
  exact (Nat.length_toDigits_le_iff (by decide) hk).mpr h

theorem atoi_shortDecimal (n : ℕ) :
    atoi (shortDecimal n) = Int.bmod n (2 ^ 16) := by
  have hlow := Int.le_bmod (x := (n : ℤ)) (m := 2 ^ 16) (by decide)
  have hhigh := Int.bmod_lt (x := (n : ℤ)) (m := 2 ^ 16) (by decide)
  exact atoi_decimal (by omega) (by omega)

theorem decimal_ne_nil (n : ℤ) : decimal n ≠ [] := by
  unfold decimal
  split
  · simp
  · exact Nat.toDigits_ne_nil

theorem shortDecimal_ne_nil (n : ℕ) : shortDecimal n ≠ [] :=
  decimal_ne_nil _

theorem mem_decimal {n : ℤ} {c : Char} (h : c ∈ decimal n) :
    c = '-' ∨ c.isDigit = true := by
  unfold decimal at h
  split at h
  · rcases mem_cons.mp h with rfl | h
    · exact .inl rfl
    · exact .inr (isDigit_of_mem_toDigits c h)
  · exact .inr (isDigit_of_mem_toDigits c h)

theorem length_shortDecimal_le (n : ℕ) : (shortDecimal n).length ≤ 6 := by
  have hlow := Int.le_bmod (x := (n : ℤ)) (m := 2 ^ 16) (by decide)
  have hhigh := Int.bmod_lt (x := (n : ℤ)) (m := 2 ^ 16) (by decide)
  have hdigits : (Nat.toDigits 10 (Int.bmod n (2 ^ 16)).natAbs).length ≤ 5 :=
    (Nat.length_toDigits_le_iff (by decide) (by decide)).mpr (by omega)
  rw [shortDecimal, decimal]
  split
  · rw [length_cons]
    omega
  · omega

/-- The type that a token names behind its number. -/
def floodTypeOf (token : List Char) : Option FloodType :=
  findFloodprotByLetter ((token.dropWhile Char.isDigit).headD '\x00')

def floodCount (token : List Char) : ℤ := atoi (token.takeWhile Char.isDigit)

def floodOptionOf (token : List Char) : List Char :=
  (token.dropWhile Char.isDigit).drop 1

def tokensOf (f : FloodType) (tokens : List (List Char × List Char)) :
    List (List Char × List Char) :=
  tokens.filter fun token => floodTypeOf token.1 = some f

/-- What a token stores for its type. -/
def tokenLimit (C : FloodConfig) (T : ModeTable) (o : FloodParse)
    (f : FloodType) (token : List Char × List Char) : FloodLimit :=
  floodLimitOf C T o f (floodCount token.1) (floodOptionOf token.1) token.2

/-- The last token of a type counts. -/
theorem limits_of_parseFloodTokens (hf : f ∈ floodtypes)
    {limits limits' : Flood → FloodLimit} {unknown unknown' : List Char}
    (h : parseFloodTokens C T o tokens limits unknown =
      .ok (limits', unknown')) :
    limits' f.index = ((tokensOf f tokens).getLast?.map
      (tokenLimit C T o f)).getD (limits f.index) := by
  induction tokens generalizing limits unknown with
  | nil =>
    cases h
    rfl
  | cons token tokens ih =>
    unfold tokensOf at ih ⊢
    rw [parseFloodTokens] at h
    dsimp only at h
    split at h
    · next hnone =>
        have hskip : floodTypeOf token.1 = none := hnone
        rw [ih h, filter_cons_of_neg (by simp [hskip])]
    · next g hg =>
        have htype : floodTypeOf token.1 = some g := hg
        split at h
        · cases h
        · rw [ih h]
          by_cases hfg : f = g
          · rw [hfg, filter_cons_of_pos (by simp [htype]), getLast?_cons,
              Function.update_self]
            cases (tokens.filter _).getLast? <;> rfl
          · have hindex : f.index ≠ g.index := fun heq => hfg
              (inj_on_of_nodup_map nodup_floodtypes hf
                (mem_of_find?_eq_some hg) heq)
            rw [filter_cons_of_neg (by simp [htype, Ne.symm hfg]),
              Function.update_of_ne hindex]

theorem parseFloodTokens_ok
    (h : ∀ token ∈ tokens, (floodTypeOf token.1).isSome = true ∧
      1 ≤ floodCount token.1 ∧ floodCount token.1 ≤ 999)
    (limits : Flood → FloodLimit) (unknown : List Char) :
    ∃ limits', parseFloodTokens C T o tokens limits unknown =
      .ok (limits', unknown) := by
  induction tokens generalizing limits with
  | nil => exact ⟨limits, rfl⟩
  | cons token tokens ih =>
    obtain ⟨⟨hknown, hpos, hle⟩, hrest⟩ := forall_mem_cons.mp h
    obtain ⟨f, hf⟩ := Option.isSome_iff_exists.mp hknown
    unfold floodTypeOf at hf
    unfold floodCount at hpos hle
    rw [parseFloodTokens, hf]
    dsimp only
    rw [if_neg (by omega)]
    exact ih hrest _

/-- The part of an entry behind its letter. -/
def floodOption (f : FloodType) (l : FloodLimit) : List Char :=
  if l.action ≠ '\x00' ∧
      (l.action ≠ f.defaultAction ∨ l.removeAfter ≠ 0) then
    '#' :: l.action ::
      if l.removeAfter ≠ 0 then decimal l.removeAfter else []
  else []

/-- What a parser makes of a printed limit: where no time is printed it takes
its default. -/
def FloodLimit.reread (C : FloodConfig) (o : FloodParse) (f : FloodType)
    (l : FloodLimit) : FloodLimit :=
  { l with removeAfter :=
      if f.timedbanRequired && !C.timedbanAvailable then 0
      else if l.readBack.removeAfter = 0 then floodRemoveAfter C o [] []
      else l.readBack.removeAfter }

section Entry

variable (h : l.Set C T f)

include h

theorem chmodefstrhelper_eq :
    chmodefstrhelper f l = decimal l.limit ++ f.letter :: floodOption f l := by
  have hlimit := h.limit_le
  have hremove := h.removeAfter_le
  rw [chmodefstrhelper, floodOption, shortDecimal_eq (by omega),
    shortDecimal_eq (by omega)]

/-- The option is left out if the action and the time are the defaults. -/
theorem floodOption_cases :
    (floodOption f l = [] ∧ l.action = f.defaultAction ∧
      l.readBack.removeAfter = 0) ∨
    (l.action ≠ '\x00' ∧ l.readBack = l ∧
      floodOption f l = '#' :: l.action ::
        if l.removeAfter ≠ 0 then decimal l.removeAfter else []) := by
  unfold floodOption FloodLimit.readBack
  split
  · next hshown => exact .inr ⟨hshown.1, if_neg hshown.1, rfl⟩
  · next hhidden =>
      refine .inl ⟨rfl, ?_⟩
      by_cases hnone : l.action = '\x00'
      · rw [if_pos hnone]
        rcases h.action with haction | ⟨hne, -⟩
        · exact ⟨haction, rfl⟩
        · exact absurd hnone hne
      · rw [not_and_or, not_or, not_not, not_not, not_not] at hhidden
        rw [if_neg hnone]
        rcases hhidden with hnull | hdefault
        · exact absurd hnull hnone
        · exact hdefault

theorem floodRemoveAfter_floodOption
    (ho : (o.strict && o.localclient) = false) (after : List Char) :
    floodRemoveAfter C o (floodOption f l) after =
      if l.readBack.removeAfter = 0 then floodRemoveAfter C o [] []
      else l.readBack.removeAfter := by
  have hle := h.removeAfter_le
  rcases floodOption_cases h with ⟨hoption, -, hzero⟩ | ⟨-, hback, hoption⟩
  · rw [hoption, if_pos hzero]
    rfl
  · rw [hoption, hback]
    by_cases hzero : l.removeAfter = 0
    · rw [hzero]
      rfl
    · have hne := decimal_ne_nil l.removeAfter
      have hread : atoi (decimal l.removeAfter) = l.removeAfter :=
        atoi_decimal (by omega) (by omega)
      simp only [floodRemoveAfter, hzero, ne_eq, not_false_eq_true, if_true,
        hne, if_false, hread, ho, Bool.false_eq_true]
      omega

theorem floodLimitOf_floodOption
    (ho : (o.strict && o.localclient) = false) (after : List Char) :
    floodLimitOf C T o f l.limit (floodOption f l) after =
      l.reread C o f := by
  have hlimit : (min (max (l.limit : ℤ) 1) 999).toNat = l.limit := by
    have hpos := h.limit_pos
    have hle := h.limit_le
    omega
  have haction : (if floodActionLetter (floodOption f l) ≠ '\x00' ∧
      floodprotValidAlternateAction T (floodActionLetter (floodOption f l)) f =
        true then floodActionLetter (floodOption f l)
      else f.defaultAction) = l.action := by
    rcases floodOption_cases h with ⟨hoption, hdefault, -⟩ | ⟨hne, -, hoption⟩
    · rw [hoption, hdefault]
      rfl
    · have hletter : floodActionLetter (floodOption f l) = l.action := by
        rw [hoption]
        rfl
      rw [hletter]
      split
      · rfl
      · next hinvalid =>
          rcases h.action with hdefault | hvalid
          · exact hdefault.symm
          · exact absurd hvalid hinvalid
  simp only [floodLimitOf, hlimit, haction, floodRemoveAfter_floodOption h ho]
  rfl

theorem FloodLimit.Set.reread_eq_readBack (strict : Bool) :
    l.reread C ⟨strict, false⟩ f = l.readBack := by
  have hback : l.readBack =
      { l with removeAfter := l.readBack.removeAfter } := by
    unfold FloodLimit.readBack
    split <;> rfl
  have hdefault : floodRemoveAfter C ⟨strict, false⟩ [] [] = 0 := rfl
  have htimed := h.readBack.removeAfter_of_timedban
  unfold reread
  rw [hback, hdefault]
  split_ifs with hno hzero
  · rw [htimed hno]
  · rw [hzero]
  · rfl

theorem mem_chmodefstrhelper (hf : f ∈ floodtypes) :
    ∀ c ∈ chmodefstrhelper f l,
      c.isDigit = true ∨ c.isAlpha = true ∨ c = '#' := by
  have hletter := (floodtype_chars hf).1
  intro c hc
  rw [chmodefstrhelper_eq h, mem_append, mem_cons] at hc
  rcases hc with hc | rfl | hc
  · exact .inl (isDigit_of_mem_decimal c hc)
  · exact .inr (.inl hletter)
  · rcases floodOption_cases h with ⟨hoption, -⟩ | ⟨hne, -, hoption⟩
    · rw [hoption] at hc
      simp at hc
    · rw [hoption, mem_cons, mem_cons] at hc
      rcases hc with rfl | rfl | hc
      · exact .inr (.inr rfl)
      · rcases h.action with haction | ⟨-, hvalid⟩
        · rw [haction] at hne ⊢
          exact .inr (.inl ((floodtype_chars hf).2.1.resolve_left hne))
        · exact .inr (.inl (isAlpha_of_validAlternateAction hf hvalid))
      · split at hc
        · exact .inl (isDigit_of_mem_decimal c hc)
        · simp at hc

theorem length_chmodefstrhelper_le : (chmodefstrhelper f l).length ≤ 9 := by
  have hlimit : (decimal l.limit).length ≤ 3 :=
    length_decimal_le (by decide) (by have := h.limit_le; omega)
  have hremove : (decimal l.removeAfter).length ≤ 3 :=
    length_decimal_le (by decide) (by have := h.removeAfter_le; omega)
  rw [chmodefstrhelper_eq h, length_append, length_cons]
  rcases floodOption_cases h with ⟨hoption, -⟩ | ⟨-, -, hoption⟩
  · rw [hoption, length_nil]
    omega
  · rw [hoption, length_cons, length_cons]
    split
    · omega
    · rw [length_nil]
      omega

theorem chmodefstrhelper_ne_nil : chmodefstrhelper f l ≠ [] := by
  rw [chmodefstrhelper_eq h]
  simp

/-- The text of an entry is read as its type, its limit and its option. -/
theorem read_chmodefstrhelper (hf : f ∈ floodtypes) :
    floodTypeOf (chmodefstrhelper f l) = some f ∧
      floodCount (chmodefstrhelper f l) = l.limit ∧
      floodOptionOf (chmodefstrhelper f l) = floodOption f l := by
  have hle := h.limit_le
  have hletter := isDigit_floodtype_letter hf
  have hnumber : (chmodefstrhelper f l).takeWhile Char.isDigit =
      decimal l.limit := by
    rw [chmodefstrhelper_eq h]
    exact takeWhile_append_of_head isDigit_of_mem_decimal (by simpa)
  have hrest : (chmodefstrhelper f l).dropWhile Char.isDigit =
      f.letter :: floodOption f l := by
    rw [chmodefstrhelper_eq h, dropWhile_append_of_pos isDigit_of_mem_decimal]
    simp [hletter]
  rw [floodTypeOf, floodCount, floodOptionOf, hnumber, hrest]
  exact ⟨findFloodprotByLetter_letter hf, atoi_decimal (by omega) (by omega),
    rfl⟩

end Entry

/-! ## The list of entries -/

theorem floodTokens_append (after token : List Char) {t : List Char}
    (ht : ',' ∉ t) (s : List Char) :
    floodTokens after token (t ++ s) = floodTokens after (token ++ t) s := by
  induction t generalizing token with
  | nil => simp
  | cons c t ih =>
    have hc : c ≠ ',' := fun h => ht (by simp [h])
    have ht : ',' ∉ t := fun h => ht (by simp [h])
    rw [cons_append, floodTokens, if_neg hc, ih _ ht,
      append_assoc, singleton_append]

theorem map_fst_floodTokens (after : List Char) (hne : ∀ t ∈ ts, t ≠ [])
    (hcomma : ∀ t ∈ ts, ',' ∉ t) :
    (floodTokens after [] (List.intercalate [','] ts)).map Prod.fst = ts := by
  induction ts with
  | nil => rfl
  | cons t ts ih =>
    have ht := hne t (by simp)
    have htoken := floodTokens_append after [] (hcomma t (by simp))
    cases ts with
    | nil =>
      have hlast := htoken []
      rw [append_nil, nil_append] at hlast
      rw [intercalate_singleton, hlast, floodTokens, if_neg ht]
      rfl
    | cons t' ts =>
      have hrest := ih (fun u hu => hne u (by simp [hu]))
        (fun u hu => hcomma u (by simp [hu]))
      rw [intercalate_cons_cons, append_assoc, htoken, nil_append,
        singleton_append, floodTokens, if_pos rfl, if_neg ht, map_cons, hrest]

def floodEntries (x : FloodSettings) : List FloodType :=
  floodtypes.filter fun f => (x.limits f.index).limit ≠ 0

theorem mem_floodEntries :
    f ∈ floodEntries x ↔
      f ∈ floodtypes ∧ (x.limits f.index).limit ≠ 0 := by
  simp [floodEntries]

theorem FloodSettings.Parsed.set_of_mem (h : x.Parsed C T)
    (hf : f ∈ floodEntries x) : (x.limits f.index).Set C T f := by
  obtain ⟨hmem, hlimit⟩ := mem_floodEntries.mp hf
  rcases h.limits f hmem with hoff | hset
  · rw [hoff] at hlimit
    exact (hlimit rfl).elim
  · exact hset

theorem mem_intercalate {c : Char} (h : c ∈ List.intercalate [','] ts) :
    c = ',' ∨ ∃ t ∈ ts, c ∈ t := by
  induction ts with
  | nil => simp [List.intercalate] at h
  | cons t ts ih =>
    cases ts with
    | nil =>
      rw [intercalate_singleton] at h
      exact .inr ⟨t, by simp, h⟩
    | cons t' ts =>
      rw [intercalate_cons_cons, append_assoc,
        mem_append, singleton_append, mem_cons] at h
      rcases h with h | h | h
      · exact .inr ⟨t, by simp, h⟩
      · exact .inl h
      · rcases ih h with h | ⟨u, hu, hc⟩
        · exact .inl h
        · exact .inr ⟨u, by simp [hu], hc⟩

theorem length_intercalate_le {n : ℕ} (h : ∀ t ∈ ts, t.length ≤ n) :
    (List.intercalate [','] ts).length ≤ ts.length * (n + 1) := by
  induction ts with
  | nil => simp [List.intercalate]
  | cons t ts ih =>
    have ht := h t (by simp)
    have hts := ih fun u hu => h u (by simp [hu])
    cases ts with
    | nil =>
      rw [intercalate_singleton, length_singleton]
      omega
    | cons t' ts =>
      have hlen : (t :: t' :: ts).length = (t' :: ts).length + 1 := rfl
      rw [intercalate_cons_cons, append_assoc, length_append,
        singleton_append, length_cons, hlen, Nat.succ_mul]
      omega

def floodInside (x : FloodSettings) : List Char :=
  List.intercalate [',']
    ((floodEntries x).map fun f => chmodefstrhelper f (x.limits f.index))

theorem channelModefString_eq (x : FloodSettings) :
    channelModefString x =
      '[' :: (floodInside x ++ ']' :: ':' :: shortDecimal x.per) :=
  rfl

theorem FloodSettings.Parsed.mem_floodInside (h : x.Parsed C T) :
    ∀ c ∈ floodInside x,
      c.isDigit = true ∨ c.isAlpha = true ∨ c = '#' ∨ c = ',' := by
  intro c hc
  rcases mem_intercalate hc with rfl | ⟨t, ht, hct⟩
  · exact .inr (.inr (.inr rfl))
  · obtain ⟨f, hf, rfl⟩ := mem_map.mp ht
    rcases mem_chmodefstrhelper (h.set_of_mem hf) (mem_floodEntries.mp hf).1
      c hct with hc | hc | hc
    · exact .inl hc
    · exact .inr (.inl hc)
    · exact .inr (.inr (.inl hc))

theorem FloodSettings.Parsed.length_floodInside_le (h : x.Parsed C T) :
    (floodInside x).length ≤ 80 := by
  have hentry : ∀ t ∈ (floodEntries x).map
      (fun f => chmodefstrhelper f (x.limits f.index)), t.length ≤ 9 := by
    intro t ht
    obtain ⟨f, hf, rfl⟩ := mem_map.mp ht
    exact length_chmodefstrhelper_le (h.set_of_mem hf)
  have hlen := length_intercalate_le hentry
  have hcount : (floodEntries x).length ≤ 8 :=
    (length_filter_le _ floodtypes).trans (by decide)
  rw [length_map] at hlen
  exact hlen.trans (by omega)

theorem FloodSettings.Parsed.length_le (h : x.Parsed C T) :
    (channelModefString x).length ≤ 90 := by
  have hinside := h.length_floodInside_le
  have hper := length_shortDecimal_le x.per
  rw [channelModefString_eq, length_cons, length_append,
    length_cons, length_cons]
  omega

theorem FloodSettings.Parsed.word (h : x.Parsed C T) :
    ' ' ∉ channelModefString x := by
  rw [channelModefString_eq, mem_cons, mem_append, mem_cons, mem_cons]
  rintro (hc | hc | hc | hc | hc)
  · exact absurd hc (by decide)
  · have hchar := h.mem_floodInside _ hc
    revert hchar
    decide
  · exact absurd hc (by decide)
  · exact absurd hc (by decide)
  · exact absurd (mem_decimal hc) (by decide)

section Written

variable (h : x.Parsed C T) {tokens : List (List Char × List Char)}
  (htokens : tokens.map Prod.fst = (floodEntries x).map
    fun f => chmodefstrhelper f (x.limits f.index))

include h

/-- What is written is cut into its entries again. -/
theorem map_fst_tokens_floodInside (after : List Char) :
    (floodTokens after [] (floodInside x)).map Prod.fst =
      (floodEntries x).map fun f => chmodefstrhelper f (x.limits f.index) := by
  have hentry : ∀ t ∈ (floodEntries x).map
      (fun f => chmodefstrhelper f (x.limits f.index)),
      t ≠ [] ∧ ',' ∉ t := by
    intro t ht
    obtain ⟨f, hf, rfl⟩ := mem_map.mp ht
    refine ⟨chmodefstrhelper_ne_nil (h.set_of_mem hf), fun hcomma => ?_⟩
    have hchar := mem_chmodefstrhelper (h.set_of_mem hf)
      (mem_floodEntries.mp hf).1 _ hcomma
    revert hchar
    decide
  exact map_fst_floodTokens _ (fun t ht => (hentry t ht).1)
    (fun t ht => (hentry t ht).2)

include htokens

theorem exists_parseFloodTokens :
    ∃ limits, parseFloodTokens C T o tokens (fun _ => .off) [] =
      .ok (limits, []) := by
  refine parseFloodTokens_ok (fun token htoken => ?_) _ _
  obtain ⟨f, hf, hchm⟩ := mem_map.mp (htokens ▸ mem_map_of_mem htoken)
  have hset := h.set_of_mem hf
  obtain ⟨htype, hcount, -⟩ :=
    read_chmodefstrhelper hset (mem_floodEntries.mp hf).1
  have hpos := hset.limit_pos
  have hle := hset.limit_le
  rw [← hchm, htype, hcount]
  exact ⟨rfl, by omega, by omega⟩

/-- Each entry is read once, and nothing else. -/
theorem limits_of_written (ho : (o.strict && o.localclient) = false)
    {limits : Flood → FloodLimit} {unknown : List Char}
    (hparse : parseFloodTokens C T o tokens (fun _ => .off) [] =
      .ok (limits, unknown)) :
    ∀ f ∈ floodtypes, limits f.index =
      if f ∈ floodEntries x then (x.limits f.index).reread C o f
      else .off := by
  have hread := fun f (hf : f ∈ floodEntries x) =>
    read_chmodefstrhelper (h.set_of_mem hf) (mem_floodEntries.mp hf).1
  intro f hf
  rw [limits_of_parseFloodTokens hf hparse]
  cases hlast : (tokensOf f tokens).getLast? with
  | none =>
    rw [if_neg]
    · rfl
    · intro hentry
      obtain ⟨token, htoken, hchm⟩ := mem_map.mp
        (htokens ▸ mem_map_of_mem hentry)
      have hmem : token ∈ tokensOf f _ :=
        mem_filter.mpr ⟨htoken, by simp [hchm, (hread f hentry).1]⟩
      rw [getLast?_eq_none_iff.mp hlast] at hmem
      cases hmem
  | some token =>
    obtain ⟨htoken, htype⟩ := mem_filter.mp (mem_of_getLast? hlast)
    obtain ⟨g, hg, hchm⟩ := mem_map.mp (htokens ▸ mem_map_of_mem htoken)
    obtain ⟨hg', hcount, hoption⟩ := hread g hg
    rw [← hchm, hg', decide_eq_true_eq, Option.some.injEq] at htype
    subst htype
    rw [if_pos hg, Option.map_some, Option.getD_some, tokenLimit, ← hchm,
      hcount, hoption, floodLimitOf_floodOption (h.set_of_mem hg) ho]

end Written

theorem parse_channelModefString (h : x.Parsed C T)
    (ho : (o.strict && o.localclient) = false) (fld : FloodSettings) :
    ∃ limits, parseChannelModeFlood C T o (channelModefString x) fld =
        ⟨true, ⟨x.readBack.per, limits⟩, none⟩ ∧
      ∀ f ∈ floodtypes, limits f.index =
        if f ∈ floodEntries x then (x.limits f.index).reread C o f
        else .off := by
  have hbracket : ']' ∉ floodInside x := by
    intro hc
    have hchar := h.mem_floodInside _ hc
    revert hchar
    decide
  have htake : (channelModefString x).take 255 =
      '[' :: (floodInside x ++ ']' :: ':' :: shortDecimal x.per) := by
    rw [take_of_length_le (h.length_le.trans (by decide)),
      channelModefString_eq]
  have hinside : (floodInside x ++ ']' :: ':' :: shortDecimal x.per).takeWhile
      (· != ']') = floodInside x := takeWhile_bne_append hbracket
  have hafter : (floodInside x ++ ']' :: ':' :: shortDecimal x.per).dropWhile
      (· != ']') = ']' :: ':' :: shortDecimal x.per :=
    dropWhile_bne_append hbracket
  have htokens := map_fst_tokens_floodInside h (':' :: shortDecimal x.per)
  obtain ⟨limits, hparse⟩ := @exists_parseFloodTokens C T x o h _ htokens
  have hlimits := limits_of_written h htokens ho hparse
  have hper : (max (atoi (shortDecimal x.per)) 1).toNat % 2 ^ 16 =
      x.readBack.per := by
    have hlt := h.per_lt
    simp only [atoi_shortDecimal, FloodSettings.readBack, Int.bmod_def]
    split_ifs
    all_goals omega
  have hsome : ¬ ∀ i, (limits i).limit = 0 := by
    obtain ⟨i, hi⟩ := h.nonempty
    obtain ⟨f, hf, rfl⟩ := exists_floodtype i
    intro hall
    have hzero := hall f.index
    rw [hlimits f hf, if_pos (mem_floodEntries.mpr ⟨hf, hi⟩)] at hzero
    exact hi hzero
  refine ⟨limits, ?_, hlimits⟩
  rw [parseChannelModeFlood, htake]
  split
  · next text htext =>
      obtain rfl := (List.cons.inj htext).2
      rw [hinside, hafter]
      dsimp only
      rw [if_neg (by simp), hparse]
      dsimp only
      rw [drop_one, tail_cons, if_neg (shortDecimal_ne_nil x.per),
        if_neg hsome, hper]
      rfl
  · next hbad => exact absurd rfl (hbad _)

theorem parseChannelModeFlood_channelModefString (h : x.Parsed C T)
    (strict : Bool) (fld : FloodSettings) :
    parseChannelModeFlood C T ⟨strict, false⟩ (channelModefString x) fld =
      ⟨true, x.readBack, none⟩ := by
  obtain ⟨limits, hparse, hlimits⟩ :=
    @parse_channelModefString C T x ⟨strict, false⟩ h (Bool.and_false _) fld
  have heq : limits = x.readBack.limits := by
    funext i
    obtain ⟨f, hf, rfl⟩ := exists_floodtype i
    rw [hlimits f hf]
    split_ifs with hentry
    · exact (h.set_of_mem hentry).reread_eq_readBack strict
    · have hzero : (x.limits f.index).limit = 0 := by
        simpa [mem_floodEntries, hf] using hentry
      rcases h.limits f hf with hoff | hset
      · simp [FloodSettings.readBack, hoff]
      · have hpos := hset.limit_pos
        omega
  rw [hparse, heq]

/-! ## What the parser makes -/

theorem set_floodLimitOf (f : FloodType) (v : ℤ) (option after : List Char) :
    (floodLimitOf C T o f v option after).Set C T f where
  limit_pos := by
    simp only [floodLimitOf]
    omega
  limit_le := by
    simp only [floodLimitOf]
    omega
  action := by
    simp only [floodLimitOf]
    split
    · next hvalid => exact .inr hvalid
    · exact .inl rfl
  removeAfter_le := by
    simp only [floodLimitOf]
    split
    · exact Nat.zero_le _
    · simp only [floodRemoveAfter]
      split_ifs
      all_goals omega
  removeAfter_of_timedban := fun htimed => by
    simp only [floodLimitOf, htimed, if_true]

theorem parsed_of_parseChannelModeFlood {param : List Char} {fld : FloodSettings}
    (h : (parseChannelModeFlood C T o param fld).ok = true) :
    (parseChannelModeFlood C T o param fld).fld.Parsed C T := by
  revert h
  fun_cases parseChannelModeFlood C T o param fld
  all_goals intro h
  case case6 limits unknown hparse hafter per warning hsome =>
    refine ⟨Nat.mod_lt _ (by decide), fun f hf => ?_, not_forall.mp hsome⟩
    dsimp only
    rw [limits_of_parseFloodTokens hf hparse]
    cases (tokensOf f _).getLast? with
    | none => exact .inl rfl
    | some token => exact .inr (set_floodLimitOf f _ _ _)
  all_goals cases h

/-! ## The handlers of `+f` -/

theorem FloodSettings.Parsed.cmodefPutParam (h : x.Parsed C T)
    (fld : Option FloodSettings) :
    cmodefPutParam C T fld (channelModefString x) = x.readBack := by
  rw [Channels.cmodefPutParam, parseChannelModeFlood_channelModefString h]

end UnrealIrcd.Channels
