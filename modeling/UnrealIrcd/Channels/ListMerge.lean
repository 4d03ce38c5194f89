import UnrealIrcd.Channels.Bans
import Mathlib.Data.List.Basic
import Mathlib.Order.Lattice

/-!
# Merging list modes

Servers add entries to a list in any order.  As long as the configuration
allows entries at all, every mask ends up in the list once, with the smallest
time that was given for it.
-/

namespace UnrealIrcd.Channels

open Support List

/-- An entry that a server adds.  `clean_ban_mask` has cut the mask. -/
structure ListAddition where
  banid : List Char
  setby : List Char
  seton : ℤ
  length_banid : banid.length ≤ maxbanlen
  seton_pos : 0 < seton

def addListmode (C : BanConfig) (list : List Ban) (a : ListAddition) :
    List Ban :=
  (addListmodeEx C false list a.banid a.setby a.seton).2

def foldMask (mask : List Char) : List Char := mask.map Char.toLower

def timesOf (mask : List Char) (list : List Ban) : List ℤ :=
  (list.filter fun ban => foldMask ban.banstr == mask).map Ban.when

def timesGiven (mask : List Char) (adds : List ListAddition) : List ℤ :=
  (adds.filter fun a => foldMask a.banid == mask).map ListAddition.seton

/-- What an addition does to the times for its mask. -/
def lower (times : List ℤ) (t : ℤ) : List ℤ :=
  match times with
  | [] => [t]
  | t' :: times => (if 0 < t' ∧ t' ≤ t then t' else t) :: times

variable {C : BanConfig} {list : List Ban} {a : ListAddition}
  {mask : List Char}

theorem timesOf_cons (ban : Ban) :
    timesOf mask (ban :: list) =
      if foldMask ban.banstr = mask then ban.when :: timesOf mask list
      else timesOf mask list := by
  unfold timesOf
  by_cases h : foldMask ban.banstr = mask <;> simp [h]

theorem timesOf_updateListmode
    (h : ∃ ban ∈ list, identicalBan ban.banstr a.banid = true) :
    timesOf mask (updateListmode a.banid a.setby a.seton list).2 =
      if foldMask a.banid = mask then lower (timesOf mask list) a.seton
      else timesOf mask list := by
  induction list with
  | nil => simp at h
  | cons ban list ih =>
    rw [updateListmode, timesOf_cons]
    by_cases hsame : identicalBan ban.banstr a.banid = true
    · have hfold : foldMask ban.banstr = foldMask a.banid := eq_of_beq hsame
      rw [if_pos hsame, hfold]
      by_cases hold : 0 < ban.when ∧ ban.when ≤ a.seton
      · rw [if_pos hold, timesOf_cons, hfold]
        split_ifs
        · rw [lower, if_pos hold]
        · rfl
      · rw [if_neg hold, timesOf_cons, storedBan,
          take_of_length_le a.length_banid]
        split_ifs
        · rw [lower, if_neg hold]
        · rfl
    · have hne : foldMask ban.banstr ≠ foldMask a.banid := fun heq =>
        hsame (beq_iff_eq.mpr heq)
      rw [if_neg hsame, timesOf_cons, ih (by simpa [hsame] using h)]
      by_cases hmask : foldMask a.banid = mask
      · subst hmask
        rw [if_neg hne, if_neg hne]
      · rw [if_neg hmask, if_neg hmask]

theorem timesOf_addListmode (hC : 0 < C.maxbans) :
    timesOf mask (addListmode C list a) =
      if foldMask a.banid = mask then lower (timesOf mask list) a.seton
      else timesOf mask list := by
  rw [addListmode, addListmodeEx]
  split
  · next h => exact timesOf_updateListmode (any_eq_true.mp h)
  · next h =>
      rw [if_neg (by simp; omega), timesOf_cons, storedBan,
        take_of_length_le a.length_banid]
      split_ifs with hmask
      · have hnone : timesOf mask list = [] := by
          rw [timesOf, map_eq_nil_iff, filter_eq_nil_iff]
          intro ban hban heq
          exact h (any_eq_true.mpr ⟨ban, hban, beq_iff_eq.mpr
            ((eq_of_beq heq).trans hmask.symm)⟩)
        rw [hnone, lower]
      · rfl

theorem timesOf_foldl_addListmode (hC : 0 < C.maxbans)
    (adds : List ListAddition) :
    timesOf mask (adds.foldl (addListmode C) list) =
      (timesGiven mask adds).foldl lower (timesOf mask list) := by
  induction adds generalizing list with
  | nil => rfl
  | cons a adds ih =>
    rw [foldl_cons, ih, timesOf_addListmode hC]
    unfold timesGiven
    by_cases hmask : foldMask a.banid = mask <;> simp [hmask]

theorem foldl_lower {t : ℤ} {times : List ℤ} (h : ∀ x ∈ t :: times, 0 < x) :
    times.foldl lower [t] = (t :: times).min?.toList := by
  induction times generalizing t with
  | nil => rfl
  | cons t' times ih =>
    have hmin : lower [t] t' = [min t t'] := by
      have ht := h t mem_cons_self
      simp only [lower, ht, true_and]
      rfl
    rw [foldl_cons, hmin, ih]
    · rfl
    · simp only [mem_cons, forall_eq_or_imp, lt_inf_iff] at h ⊢
      tauto

/-- In whatever order the entries are added to an empty list, every mask is in
it once, with the smallest time that was given for it, if and only if the
configuration allows at least one entry. -/
theorem timesOf_addListmodes_iff (C : BanConfig) :
    (∀ adds order : List ListAddition, order.Perm adds → ∀ mask : List Char,
      timesOf mask (order.foldl (addListmode C) []) =
        (timesGiven mask adds).min?.toList) ↔ 0 < C.maxbans := by
  constructor
  · intro h
    by_contra hC
    have hone := h [⟨['a'], ['s'], 1, by decide, by decide⟩] _ (.refl _) ['a']
    have hnone : C.maxbans < 1 := by omega
    simp [addListmode, addListmodeEx, hnone, timesOf, timesGiven, foldMask]
      at hone
  · intro hC adds order hperm mask
    have hgiven : (timesGiven mask order).Perm (timesGiven mask adds) :=
      (hperm.filter _).map _
    have hmin : (timesGiven mask order).min? = (timesGiven mask adds).min? :=
      Option.ext fun t => by
        simp only [min?_eq_some_iff, hgiven.mem_iff]
    have hpos : ∀ t ∈ timesGiven mask order, 0 < t := by
      intro t ht
      obtain ⟨a, -, rfl⟩ := mem_map.mp ht
      exact a.seton_pos
    rw [timesOf_foldl_addListmode hC, ← hmin]
    cases htimes : timesGiven mask order with
    | nil => rfl
    | cons t times => exact foldl_lower (htimes ▸ hpos)

/-- With `set::maxbans 0` a server cannot add an entry. -/
theorem not_timesOf_maxbans_zero :
    let a : ListAddition := ⟨['a'], ['s'], 1, by decide, by decide⟩
    timesOf ['a'] ([a].foldl (addListmode ⟨[], true, 0⟩) []) ≠
      (timesGiven ['a'] [a]).min?.toList := by
  decide

end UnrealIrcd.Channels
