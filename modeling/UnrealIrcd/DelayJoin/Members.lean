import Mathlib.Data.List.Nodup
import UnrealIrcd.DelayJoin.Model

/-!
# The members of the channel

The record of a member after each of the changes to the list, and what
`user_can_see_member` says in terms of the records.
-/

namespace UnrealIrcd.DelayJoin

open Visibility List

variable {ch : Channel} {c : ClientId}

theorem members_of_remove {ch' : Channel} {client : ClientId}
    (h : ch.remove client = some ch') :
    ch' = { ch with members := ch.members.filter fun m => m.client ≠ client } := by
  unfold Channel.remove at h
  simp only at h
  split at h
  · cases h
  · cases h
    rfl

/-- No client is twice in the list of members. -/
def Channel.Distinct (ch : Channel) : Prop :=
  (ch.members.map Member.client).Nodup

theorem find_modify (client x : ClientId) (f : Membership → Membership) :
    (ch.modify client f).find x =
      if x = client then (ch.find x).map f else ch.find x := by
  have hcomp : (fun m : Member => decide (m.client = x)) ∘ (fun m : Member =>
      if m.client = client then { m with membership := f m.membership } else m) =
      fun m => decide (m.client = x) := by
    funext m
    simp only [Function.comp_apply]
    split <;> rfl
  simp only [Channel.find, Channel.modify, find?_map, hcomp, Option.map_map]
  cases hfind : ch.members.find? fun m => m.client = x with
  | none => simp
  | some m =>
    have hm : m.client = x := by simpa using find?_some hfind
    by_cases hx : x = client
    · simp [hm, hx]
    · simp [hm, hx]

theorem find_remove {ch' : Channel} {client : ClientId}
    (h : ch.remove client = some ch') (x : ClientId) :
    ch'.find x = if x = client then none else ch.find x := by
  rw [members_of_remove h]
  unfold Channel.find
  rw [find?_filter]
  by_cases hx : x = client
  · subst hx
    rw [if_pos rfl, Option.map_eq_none_iff, find?_eq_none]
    intro m _ hm
    simp at hm
  · rw [if_neg hx]
    congr 1
    refine congrArg (fun p => ch.members.find? p) (funext fun m => ?_)
    by_cases hm : m.client = x
    · simp [hm, hx]
    · simp [hm]

theorem find_cons (client x : ClientId) (mb : Membership) :
    ({ ch with members := ⟨client, mb⟩ :: ch.members } : Channel).find x =
      if x = client then some mb else ch.find x := by
  unfold Channel.find
  by_cases hx : x = client
  · subst hx
    simp
  · rw [if_neg hx, find?_cons_of_neg (by simpa using Ne.symm hx)]

theorem mem_of_find {mb : Membership} (h : ch.find c = some mb) :
    (⟨c, mb⟩ : Member) ∈ ch.members := by
  unfold Channel.find at h
  rw [Option.map_eq_some_iff] at h
  obtain ⟨m, hm, rfl⟩ := h
  have hc : m.client = c := by simpa using find?_some hm
  rw [← hc]
  exact mem_of_find?_eq_some hm

theorem Channel.Distinct.find_eq (h : ch.Distinct) {m : Member}
    (hm : m ∈ ch.members) : ch.find m.client = some m.membership := by
  unfold Channel.find
  cases hfind : ch.members.find? fun x => x.client = m.client with
  | none =>
    have := find?_eq_none.mp hfind m hm
    simp at this
  | some x =>
    have hx : x.client = m.client := by simpa using find?_some hfind
    have heq := inj_on_of_nodup_map h (mem_of_find?_eq_some hfind) hm hx
    rw [heq]
    rfl

theorem isMember_iff : ch.isMember c = true ↔ ∃ m ∈ ch.members, m.client = c := by
  unfold Channel.isMember
  rw [Option.isSome_iff_exists]
  constructor
  · rintro ⟨mb, h⟩
    exact ⟨⟨c, mb⟩, mem_of_find h, rfl⟩
  · rintro ⟨m, hm, hc⟩
    unfold Channel.find
    rw [← Option.isSome_iff_exists, Option.isSome_map, find?_isSome]
    exact ⟨m, hm, by simpa using hc⟩

/-- A user sees itself, and of the others those that are not invisible or have a
status, and with one of `hoaq` all. -/
theorem canSee_iff {m : ClientId} (hm : ch.isMember m = true) :
    ch.canSee c m = true ↔ c = m ∨ ch.invisibleUser m = false ∨
      ch.access m vhoaq = true ∨ ch.access c hoaq = true := by
  obtain ⟨mb, hmb⟩ := Option.isSome_iff_exists.mp hm
  unfold Channel.canSee Channel.invisibleUser Channel.access
  rw [hmb]
  by_cases hself : c = m
  · simp [hself]
  · simp only [hself, if_false, userCanSeeMemberFast, false_or, Option.any_some]
    cases hc : ch.find c with
    | none =>
      cases mb.invisible <;> cases mb.access vhoaq <;> simp
    | some mb' =>
      rw [Option.map_some, Option.any_some, Option.any_some, Membership.access]
      cases mb.invisible <;> cases mb.access vhoaq <;>
        cases hops : checkChannelAccessString mb'.memberModes hoaq <;>
          simp [Membership.access, hops]

/-! ## Mode changes -/

/-- A letter changes the status of a member, or one of the two modes. -/
theorem applyChange_cases {ch' : Channel} {change : Change}
    (h : applyChange ch change = some ch') :
    (∃ add letter client f, change = .status add letter client ∧
        ch' = ch.modify client f ∧
        ∀ mb : Membership, (f mb).invisible = mb.invisible) ∨
      (∃ add, change = .delayed add ∧ ch' = { ch with delayed := add }) ∨
      ∃ add, change = .permanent add ∧ ch' = { ch with permanent := add } := by
  cases change with
  | status add letter client =>
    simp only [applyChange] at h
    split at h
    · cases h
    · split at h
      · cases h
      · cases h
        exact .inl ⟨add, letter, client, _, rfl, rfl, fun _ => rfl⟩
  | delayed add =>
    simp only [applyChange] at h
    split at h
    · cases h
    · cases h
      exact .inr (.inl ⟨add, rfl, rfl⟩)
  | permanent add =>
    simp only [applyChange] at h
    split at h
    · cases h
    · cases h
      exact .inr (.inr ⟨add, rfl, rfl⟩)

section SetMode

variable {R : Channel → Channel → Prop} (hrefl : ∀ ch, R ch ch)
  (htrans : ∀ {ch₁ ch₂ ch₃}, R ch₁ ch₂ → R ch₂ ch₃ → R ch₁ ch₃)
  (hchange : ∀ {ch ch' change}, applyChange ch change = some ch' → R ch ch')

include hrefl htrans hchange

theorem applyLine_induction (ch : Channel) (line : List Change) :
    R ch (applyLine ch line).1 := by
  induction line generalizing ch with
  | nil => exact hrefl ch
  | cons change line ih =>
    unfold applyLine
    split
    case h_1 => exact ih ch
    case h_2 ch' h => exact htrans (hchange h) (ih ch')

theorem setMode_induction (ch : Channel) (lines : List (List Change)) :
    R ch (setMode ch lines).1 := by
  induction lines generalizing ch with
  | nil => exact hrefl ch
  | cons line lines ih =>
    exact htrans (applyLine_induction hrefl htrans hchange ch line) (ih _)

end SetMode

end UnrealIrcd.DelayJoin
