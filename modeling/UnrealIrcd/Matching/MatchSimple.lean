import Mathlib.Data.List.Infix
import Mathlib.Data.List.TakeWhile
import UnrealIrcd.Support.StepLoop

/-!
# Matching a mask

`match_simple` of `match.c`: a mask with `*` and `?` against a name.  The loop
keeps where it has to go back to when the text after a `*` does not fit.

The loop ends for every mask and name, and a mask without wildcards only
matches a name that is equal to it, apart from case.
-/

namespace UnrealIrcd.Matching

open Support List

/-! ## The loop -/

/-- The table `tolowertab`. -/
def lc (c : Char) : Char := c.toLower

/-- The pointers of the loop: the rests of mask and name, and the rests to go
back to, if a `*` has been met. -/
structure Pointers where
  m : List Char
  n : List Char
  ma : Option (List Char)
  na : List Char

def differ (m n : Char) : Bool :=
  lc m != lc n && !(m == '_' && n == ' ') && m != '?'

/-- Two characters are compared, where the end is a NUL. -/
def compare (p : Pointers) : Pointers ⊕ Bool :=
  if differ (p.m.headD '\x00') (p.n.headD '\x00') then
    match p.ma with
    | none => .inr false
    | some ma => .inl { p with m := ma, n := p.na.tail, na := p.na.tail }
  else .inl { p with m := p.m.tail, n := p.n.tail }

def collapse (p : Pointers) : Pointers :=
  if p.m.head? = some '*' then
    let m := p.m.dropWhile (· == '*')
    { p with m := m, ma := some m, na := p.n }
  else p

/-- The mask ends with a star, apart from question marks. -/
def endsInStar (mask : List Char) : Bool :=
  (mask.reverse.dropWhile (· == '?')).head? = some '*'

def matchStep (mask : List Char) (p : Pointers) : Pointers ⊕ Bool :=
  let p := collapse p
  match p.m, p.n with
  | [], [] => .inr true
  | [], _ :: _ =>
    match p.ma with
    | none => .inr false
    | some ma =>
      if endsInStar mask then .inr true
      else compare { p with m := ma, n := p.na.tail, na := p.na.tail }
  | m, [] => .inr (m.dropWhile (· == '*') == [])
  | _ :: _, _ :: _ => compare p

def matchSimple (mask name : List Char) : Bool :=
  (stepLoop (matchStep mask) ((name.length + 1) * (mask.length + 1))
    ⟨mask, name, none, name⟩).getD false

/-! ## The loop ends -/

/-- The pointers point into mask and name, and are as far from each other as
the places to go back to. -/
structure Pointers.Sound (mask : List Char) (p : Pointers) : Prop where
  suffix : p.m <:+ mask
  back : ∀ ma, p.ma = some ma → ma <:+ mask ∧
    ma.length + p.n.length = p.m.length + p.na.length ∧
      (ma = [] → endsInStar mask = true)
  ahead : p.n.length ≤ p.na.length

/-- Going back shortens the rest of the name. -/
def Pointers.size (mask : List Char) (p : Pointers) : ℕ :=
  p.na.length * (mask.length + 1) + p.m.length

theorem endsInStar_of_suffix {mask m : List Char} (hsuffix : m <:+ mask)
    (hstar : m.head? = some '*') (hall : m.dropWhile (· == '*') = []) :
    endsInStar mask = true := by
  obtain ⟨front, rfl⟩ := hsuffix
  have hlast : ∃ init, m = init ++ ['*'] := by
    cases m using List.reverseRecOn with
    | nil => cases hstar
    | append_singleton init c =>
      have hc := dropWhile_eq_nil_iff.mp hall c (by simp)
      exact ⟨init, by rw [beq_iff_eq.mp hc]⟩
  obtain ⟨init, rfl⟩ := hlast
  simp [endsInStar]

section Sound

variable {mask : List Char} {p p' : Pointers} (h : p.Sound mask)

include h

theorem collapse_sound :
    (collapse p).Sound mask ∧ (collapse p).size mask ≤ p.size mask := by
  unfold collapse
  split
  · next hstar =>
      have hdrop : p.m.dropWhile (· == '*') <:+ p.m := dropWhile_suffix _
      refine ⟨⟨hdrop.trans h.suffix, ?_, Nat.le_refl _⟩, ?_⟩
      · rintro ma ⟨rfl⟩
        exact ⟨hdrop.trans h.suffix, rfl,
          fun hall => endsInStar_of_suffix h.suffix hstar hall⟩
      · exact Nat.add_le_add (Nat.mul_le_mul_right _ h.ahead) hdrop.length_le
  · exact ⟨h, Nat.le_refl _⟩

theorem goBack_sound {ma : List Char} (hma : p.ma = some ma) (hna : p.na ≠ []) :
    let p' : Pointers := { p with m := ma, n := p.na.tail, na := p.na.tail }
    p'.Sound mask ∧ p'.size mask < p.size mask := by
  obtain ⟨hsuffix, -, hend⟩ := h.back ma hma
  obtain ⟨c, na, hna⟩ := exists_cons_of_ne_nil hna
  refine ⟨⟨hsuffix, ?_, Nat.le_refl _⟩, ?_⟩
  · intro ma' hma'
    rw [hma] at hma'
    cases hma'
    exact ⟨hsuffix, rfl, hend⟩
  · have hle := hsuffix.length_le
    simp only [Pointers.size, hna, tail_cons, length_cons,
      Nat.add_mul, Nat.one_mul]
    omega

theorem compare_sound (hm : p.m ≠ []) (hn : p.n ≠ [])
    (hstep : compare p = .inl p') :
    p'.Sound mask ∧ p'.size mask < p.size mask := by
  have hna : p.na ≠ [] := by
    intro hna
    have hle := h.ahead
    rw [hna, length_nil, Nat.le_zero, length_eq_zero_iff] at hle
    exact hn hle
  obtain ⟨c, m, hm⟩ := exists_cons_of_ne_nil hm
  obtain ⟨d, n, hn⟩ := exists_cons_of_ne_nil hn
  unfold compare at hstep
  split at hstep
  · split at hstep
    · cases hstep
    · next ma hma =>
        cases hstep
        exact goBack_sound h hma hna
  · cases hstep
    refine ⟨⟨?_, ?_, ?_⟩, ?_⟩
    · exact (tail_suffix p.m).trans h.suffix
    · intro ma hma
      obtain ⟨hsuffix, hlength, hend⟩ := h.back ma hma
      refine ⟨hsuffix, ?_, hend⟩
      simp only [hm, hn, length_cons, tail_cons] at hlength ⊢
      omega
    · have hle := h.ahead
      simp only [hn, length_cons, tail_cons] at hle ⊢
      omega
    · simp only [Pointers.size, hm, tail_cons, length_cons]
      omega

theorem matchStep_sound (hstep : matchStep mask p = .inl p') :
    p'.Sound mask ∧ p'.size mask < p.size mask := by
  obtain ⟨hsound, hsize⟩ := collapse_sound h
  unfold matchStep at hstep
  dsimp only at hstep
  generalize collapse p = q at hstep hsound hsize
  split at hstep
  · cases hstep
  · next hm hn =>
      split at hstep
      · cases hstep
      · next ma hma =>
          split at hstep
          · cases hstep
          · next hend =>
              -- The text after the star is not empty, so there is a place to
              -- go on in the name.
              obtain ⟨-, hlength, hstar⟩ := hsound.back ma hma
              have hma' : ma ≠ [] := fun hnil => hend (hstar hnil)
              have hpos := length_pos_of_ne_nil hma'
              simp only [hm, hn, length_nil, length_cons] at hlength
              have hna : q.na ≠ [] := by
                intro hnil
                rw [hnil, length_nil] at hlength
                omega
              have htail : q.na.tail ≠ [] := by
                intro hnil
                have hlen := congrArg List.length hnil
                rw [length_tail, length_nil] at hlen
                omega
              obtain ⟨hback, hless⟩ := goBack_sound hsound hma hna
              obtain ⟨hcompare, hless'⟩ := compare_sound hback hma' htail hstep
              exact ⟨hcompare, by omega⟩
  · cases hstep
  · next hm hn =>
      obtain ⟨hcompare, hless⟩ := compare_sound hsound (by simp [hm])
        (by simp [hn]) hstep
      exact ⟨hcompare, by omega⟩

end Sound

theorem exists_matchSimple (mask name : List Char) :
    ∃ answer, stepLoop (matchStep mask)
      ((name.length + 1) * (mask.length + 1)) ⟨mask, name, none, name⟩ =
        some answer := by
  apply exists_stepLoop_of (I := Pointers.Sound mask)
  · exact fun p p' hp hstep => matchStep_sound hp hstep
  · exact ⟨suffix_refl mask, fun ma hma => (nomatch hma),
      Nat.le_refl _⟩
  · simp only [Pointers.size, Nat.add_mul, Nat.one_mul]
    omega

/-! ## Masks without wildcards -/

/-- Two characters fit, neither of them a wildcard. -/
def Fits (m n : Char) : Prop := lc m = lc n ∨ m = '_' ∧ n = ' '

theorem fits_of_differ {m n : Char} (hm : m ≠ '?') (h : differ m n = false) :
    Fits m n := by
  simp only [differ, Bool.and_eq_false_iff, bne_eq_false_iff_eq,
    Bool.not_eq_false', Bool.and_eq_true, beq_iff_eq] at h
  rcases h with (hlc | hblank) | hquestion
  · exact .inl hlc
  · exact .inr hblank
  · exact absurd hquestion hm

theorem forall₂_of_stepLoop {mask m n na : List Char} {fuel : ℕ}
    (hstar : '*' ∉ m) (hquestion : '?' ∉ m)
    (h : stepLoop (matchStep mask) fuel ⟨m, n, none, na⟩ = some true) :
    List.Forall₂ Fits m n := by
  induction fuel generalizing m n with
  | zero => cases h
  | succ fuel ih =>
    have hcollapse : collapse ⟨m, n, none, na⟩ = ⟨m, n, none, na⟩ := by
      unfold collapse
      rw [if_neg]
      intro hhead
      exact hstar (mem_of_mem_head? hhead)
    cases m with
    | nil =>
      cases n with
      | nil => exact .nil
      | cons d n =>
        rw [stepLoop_inr (r := false)] at h
        · cases h
        · rw [matchStep, hcollapse]
    | cons c m =>
      have hc : c ≠ '*' := fun heq => hstar (heq ▸ mem_cons_self)
      cases n with
      | nil =>
        rw [stepLoop_inr (r := false)] at h
        · cases h
        · rw [matchStep, hcollapse]
          simp [hc]
      | cons d n =>
        by_cases hdiffer : differ c d = true
        · rw [stepLoop_inr (r := false)] at h
          · cases h
          · rw [matchStep, hcollapse]
            exact if_pos hdiffer
        · have hstep : matchStep mask ⟨c :: m, d :: n, none, na⟩ =
              .inl ⟨m, n, none, na⟩ := by
            rw [matchStep, hcollapse]
            exact if_neg hdiffer
          rw [stepLoop_inl hstep] at h
          refine .cons (fits_of_differ ?_ (Bool.eq_false_iff.mpr hdiffer))
            (ih ?_ ?_ h)
          · exact fun heq => hquestion (heq ▸ mem_cons_self)
          · exact fun hmem => hstar (mem_cons_of_mem c hmem)
          · exact fun hmem => hquestion (mem_cons_of_mem c hmem)

/-- A mask without wildcards matches what it spells. -/
theorem fits_of_matchSimple {mask name : List Char} (hstar : '*' ∉ mask)
    (hquestion : '?' ∉ mask) (h : matchSimple mask name = true) :
    List.Forall₂ Fits mask name := by
  obtain ⟨answer, hanswer⟩ := exists_matchSimple mask name
  rw [matchSimple, hanswer, Option.getD_some] at h
  exact forall₂_of_stepLoop hstar hquestion (h ▸ hanswer)

/-- Digits and dots have no case. -/
theorem eq_of_fits {m n : Char} (hm : m.isDigit = true ∨ m = '.')
    (h : Fits m n) : m = n := by
  have hsmall : m.val.toNat < 65 := by
    rcases hm with hdigit | rfl
    · rw [Char.isDigit, Bool.and_eq_true, decide_eq_true_eq,
        decide_eq_true_eq, UInt32.le_iff_toNat_le] at hdigit
      exact lt_of_le_of_lt hdigit.2 (by decide)
    · decide
  rcases h with hlc | ⟨rfl, -⟩
  · have hm' : lc m = m := by
      apply dif_neg
      rintro ⟨hge, -⟩
      exact absurd (UInt32.le_iff_toNat_le.mp hge) (Nat.not_le.mpr hsmall)
    rw [hm'] at hlc
    by_cases hupper : n.val ≥ 'A'.val ∧ n.val ≤ 'Z'.val
    · -- The lower case of a letter is a letter.
      have hn : (lc n).val = n.val + ('a'.val - 'A'.val) :=
        congrArg Char.val (dif_pos hupper)
      rw [hlc, hn, UInt32.toNat_add] at hsmall
      have hge := UInt32.le_iff_toNat_le.mp hupper.1
      have hle := UInt32.le_iff_toNat_le.mp hupper.2
      change 65 ≤ n.val.toNat at hge
      change n.val.toNat ≤ 90 at hle
      change (n.val.toNat + 32) % 2 ^ 32 < 65 at hsmall
      omega
    · rw [hlc]
      exact dif_neg hupper
  · exact absurd hsmall (by decide)

theorem eq_of_forall₂_fits {mask name : List Char}
    (hmask : ∀ c ∈ mask, c.isDigit = true ∨ c = '.')
    (h : List.Forall₂ Fits mask name) : mask = name := by
  induction h with
  | nil => rfl
  | cons hfits _ ih =>
    rw [eq_of_fits (hmask _ mem_cons_self) hfits,
      ih fun c hc => hmask c (mem_cons_of_mem _ hc)]

/-- A mask of digits and dots matches only itself. -/
theorem eq_of_matchSimple {mask name : List Char}
    (hmask : ∀ c ∈ mask, c.isDigit = true ∨ c = '.')
    (h : matchSimple mask name = true) : mask = name := by
  have hwild : ∀ c ∈ ['*', '?'], c ∉ mask := by
    intro c hc hmem
    rw [mem_cons, mem_singleton] at hc
    rcases hmask c hmem with hdigit | rfl
    · rcases hc with rfl | rfl
      · exact absurd hdigit (by decide)
      · exact absurd hdigit (by decide)
    · exact absurd hc (by decide)
  exact eq_of_forall₂_fits hmask (fits_of_matchSimple
    (hwild _ mem_cons_self) (hwild _ (by simp)) h)

end UnrealIrcd.Matching
