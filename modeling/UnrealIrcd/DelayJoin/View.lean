import Mathlib.Data.Set.Insert
import UnrealIrcd.DelayJoin.Members
import UnrealIrcd.Support.Runs

/-!
# What a local user knows about the members

A local user on the channel builds a list of its members: the NAMES reply when
it joins, and the JOIN, PART and KICK lines after that.  The list should be that
of the members that `user_can_see_member` lets it see.

This module has the lines as the user hears them, and what happens when a member
leaves or becomes visible.
-/

namespace UnrealIrcd.DelayJoin

open Support Visibility

variable {myConnect : ClientId → Bool} {ch : Channel} {c : ClientId}

/-! ## Lines and the list that a user builds from them -/

/-- The lines that the client is sent. -/
def received (c : ClientId) (out : Out) : List Line :=
  (out.filter fun e => e.1 = c).map Prod.snd

/-- What a line tells its reader. -/
def hear (view : Set ClientId) : Line → Set ClientId
  | .join who => insert who view
  | .part who => view \ {who}
  | .kick who => view \ {who}
  | .names who => {x | x ∈ who}

/-- The list of the client after the lines. -/
def heard (c : ClientId) (view : Set ClientId) (out : Out) : Set ClientId :=
  (received c out).foldl hear view

theorem heard_append (view : Set ClientId) (out out' : Out) :
    heard c view (out ++ out') = heard c (heard c view out) out' := by
  simp [heard, received]

theorem heard_nil (view : Set ClientId) : heard c view [] = view := rfl

/-- A client has at most one record in the list of members. -/
theorem filter_client (h : ch.Distinct) (c : ClientId) :
    (ch.members.filter fun m => m.client = c) =
      (ch.find c).toList.map fun mb => ⟨c, mb⟩ := by
  unfold Channel.Distinct at h
  unfold Channel.find
  generalize ch.members = members at h
  induction members with
  | nil => rfl
  | cons m members ih =>
    rw [List.map_cons, List.nodup_cons] at h
    by_cases hm : m.client = c
    · subst hm
      have hrest : (members.filter fun x => x.client = m.client) = [] := by
        rw [List.filter_eq_nil_iff]
        intro x hx hsame
        exact h.1 (List.mem_map.mpr ⟨x, hx, by simpa using hsame⟩)
      simp [hrest]
    · rw [List.filter_cons_of_neg (by simpa using hm), ih h.2,
        List.find?_cons_of_neg (by simpa using hm)]

theorem heard_sendtoChannel (h : ch.Distinct) (accept : Member → Bool)
    (line : Line) (view : Set ClientId) :
    heard c view (sendtoChannel myConnect ch accept line) =
      if myConnect c = true ∧ ∃ mb, ch.find c = some mb ∧ accept ⟨c, mb⟩ = true
      then hear view line else view := by
  have hreceived : received c (sendtoChannel myConnect ch accept line) =
      ((ch.members.filter fun m => m.client = c).filter fun m =>
        myConnect m.client && accept m).map fun _ => line := by
    simp only [received, sendtoChannel, List.filter_map, List.map_map]
    rw [List.filter_comm]
    rfl
  rw [heard, hreceived, filter_client h]
  cases ch.find c with
  | none => simp
  | some mb => cases hsent : myConnect c && accept ⟨c, mb⟩ <;> simp_all

/-! ## The list is right -/

/-- The list has exactly the members that the user can see. -/
def Informed (ch : Channel) (c : ClientId) (view : Set ClientId) : Prop :=
  ∀ m, m ∈ view ↔ ch.isMember m = true ∧ ch.canSee c m = true

theorem canSee_congr {ch' : Channel} {m : ClientId}
    (hc : ch'.find c = ch.find c) (hm : ch'.find m = ch.find m) :
    ch'.canSee c m = ch.canSee c m := by
  unfold Channel.canSee
  rw [hc, hm]

theorem isMember_congr {ch' : Channel} {m : ClientId}
    (hm : ch'.find m = ch.find m) : ch'.isMember m = ch.isMember m := by
  unfold Channel.isMember
  rw [hm]

/-- Only one member changes, and the list is judged by that member. -/
theorem informed_iff_of_one {ch' : Channel} {view view' : Set ClientId}
    {x : ClientId} (h : Informed ch c view) (hc : ch'.find c = ch.find c)
    (hothers : ∀ m, m ≠ x → ch'.find m = ch.find m)
    (hview : ∀ m, m ≠ x → (m ∈ view' ↔ m ∈ view)) :
    Informed ch' c view' ↔
      (x ∈ view' ↔ ch'.isMember x = true ∧ ch'.canSee c x = true) := by
  constructor
  · intro h'
    exact h' x
  · intro hx m
    by_cases hm : m = x
    · subst hm
      exact hx
    · rw [hview m hm, h m, isMember_congr (hothers m hm),
        canSee_congr hc (hothers m hm)]

/-! ### Leaving -/

theorem find_clearPostDelayedIfLast (x : ClientId) :
    (clearPostDelayedIfLast ch).find x = ch.find x := by
  unfold clearPostDelayedIfLast
  split <;> rfl

theorem find_partHook {x m : ClientId} (hm : m ≠ x) (join0 : Bool) :
    (partHook myConnect ch x join0).find m = ch.find m := by
  unfold partHook modedPart
  split
  · rfl
  · split
    · rw [find_clearPostDelayedIfLast, Channel.setUserInvisible, find_modify,
        if_neg hm]
    · rfl

/-- A member that leaves is seen but not announced to the user: it is invisible
and has a status, and the user has none of `hoaq`. -/
def SeenUnannounced (ch : Channel) (c x : ClientId) : Prop :=
  ch.invisibleUser x = true ∧ ch.access x vhoaq = true ∧
    ch.access c hoaq = false

theorem heard_leaveLines (hd : ch.Distinct) (hlocal : myConnect c = true)
    (hmember : ch.isMember c = true) (view : Set ClientId) {x : ClientId}
    (hx : x ≠ c) (line : Line) :
    heard c view (leaveLines myConnect ch x line) =
      if ch.invisibleUser x = false ∨ ch.access c hoaq = true
      then hear view line else view := by
  obtain ⟨mb, hc⟩ := Option.isSome_iff_exists.mp hmember
  have hsent : (myConnect c = true ∧ ∃ mb', ch.find c = some mb' ∧
      (!ch.invisibleUser x || mb'.access hoaq || decide (c = x)) = true) ↔
      ch.invisibleUser x = false ∨ ch.access c hoaq = true := by
    rw [Channel.access, hc]
    simp [hlocal, hx.symm]
  unfold leaveLines
  rw [heard_sendtoChannel hd]
  simp only [hsent]

theorem not_mem_heard_leaveLines (hd : ch.Distinct) (hlocal : myConnect c = true)
    {view : Set ClientId} (h : Informed ch c view)
    (hc : ch.isMember c = true) {x : ClientId} (hx : x ≠ c)
    (hmember : ch.isMember x = true) {line : Line}
    (hline : hear view line = view \ {x}) :
    x ∉ heard c view (leaveLines myConnect ch x line) ↔
      ¬ SeenUnannounced ch c x := by
  rw [heard_leaveLines hd hlocal hc view hx]
  unfold SeenUnannounced
  split
  case isTrue hann =>
    rw [hline]
    refine iff_of_true (fun hmem => hmem.2 rfl) ?_
    rintro ⟨hinv, -, hno⟩
    simp [hinv, hno] at hann
  case isFalse hann =>
    rw [not_or] at hann
    rw [h x, canSee_iff hmember]
    have hinv : ch.invisibleUser x = true := by simpa using hann.1
    have hno : ch.access c hoaq = false := by simpa using hann.2
    simp [hmember, hx.symm, hinv, hno]

theorem mem_heard_leaveLines_of_ne (hd : ch.Distinct) {view : Set ClientId}
    {x m : ClientId} {line : Line} (hline : hear view line = view \ {x})
    (hm : m ≠ x) :
    m ∈ heard c view (leaveLines myConnect ch x line) ↔ m ∈ view := by
  unfold leaveLines
  rw [heard_sendtoChannel hd]
  split
  · rw [hline]
    simp [hm]
  · rfl

/-! ### Becoming visible -/

theorem distinct_modify (hd : ch.Distinct) (x : ClientId)
    (f : Membership → Membership) : (ch.modify x f).Distinct := by
  unfold Channel.Distinct Channel.modify at *
  rw [List.map_map]
  have hcomp : Member.client ∘ (fun m : Member =>
      if m.client = x then { m with membership := f m.membership } else m) =
      Member.client := by
    funext m
    simp only [Function.comp_apply]
    split <;> rfl
  rw [hcomp]
  exact hd

end UnrealIrcd.DelayJoin
