import Mathlib.Algebra.Order.Group.Int
import Mathlib.Data.Char
import Mathlib.Data.List.Lex
import Mathlib.Data.List.MinMax
import Mathlib.Data.Prod.Lex
import UnrealIrcd.Support.JoinFold

/-!
# Merging server bans

`cmd_tkl_add` of `tkl.c` for the messages that other servers send about one
ban: the first message stores it, the later ones are merged into it field by
field.

The set-at, expire-at and set-by fields do not depend on the order of the
messages.  The id does: it is compared by the set-at of the stored ban, which a
message without an id may have lowered.  `orderIndependent_iff` says when this
makes a difference.
-/

namespace UnrealIrcd.Tkl

open Support List

/-! ## Messages and bans -/

/-- A TKL add message for one ban: its times, its setter and its
`s2s-tkl/id` and `s2s-tkl/spamfilter_id` tags. -/
structure AddMessage where
  setBy : List Char
  expireAt : ℤ
  setAt : ℤ
  id : Option (List Char)
  spamfilterId : Option (List Char)
  deriving DecidableEq, Repr

/-- The common fields of a stored ban.  An empty id is none. -/
structure TKL where
  setAt : ℤ
  expireAt : ℤ
  setBy : List Char
  id : List Char
  spamfilterId : List Char
  deriving DecidableEq, Repr

/-- `sizeof(tkl->id)`. -/
def tklIdLen : ℕ := 16

/-- The id that a tag gives: none if it is empty or does not fit. -/
def tagValue : Option (List Char) → List Char
  | none => []
  | some value => if value.length < tklIdLen then value else []

def AddMessage.tag (m : AddMessage) : List Char := tagValue m.id

def newTkl (m : AddMessage) : TKL where
  setAt := m.setAt
  expireAt := m.expireAt
  setBy := m.setBy
  id := m.tag
  spamfilterId := tagValue m.spamfilterId

/-- Whether the id of a message replaces that of a ban. -/
def idWins (tkl : TKL) (m : AddMessage) : Bool :=
  m.tag ≠ [] ∧ tkl.id ≠ m.tag ∧
    (tkl.id = [] ∨ m.setAt < tkl.setAt ∨
      m.setAt = tkl.setAt ∧ m.tag < tkl.id)

def mergeId (tkl : TKL) (m : AddMessage) : TKL :=
  if idWins tkl m then
    { tkl with id := m.tag, spamfilterId := tagValue m.spamfilterId }
  else tkl

def mergeFields (tkl : TKL) (m : AddMessage) : TKL :=
  if m.setAt < tkl.setAt ∨ m.expireAt ≠ tkl.expireAt ∨ tkl.setBy ≠ m.setBy then
    { tkl with
      setAt := min tkl.setAt m.setAt
      expireAt :=
        if tkl.expireAt = 0 ∨ m.expireAt = 0 then 0
        else max tkl.expireAt m.expireAt
      setBy := if tkl.setBy < m.setBy then m.setBy else tkl.setBy }
  else tkl

/-- An existing entry is updated, its id before its set-at is lowered. -/
def mergeTkl (tkl : TKL) (m : AddMessage) : TKL :=
  mergeFields (mergeId tkl m) m

/-- The times of a message are in range, where `shortDate` tells the times that
can be written as a date. -/
def accepted (shortDate : ℤ → Bool) (m : AddMessage) : Bool :=
  !(decide (m.setAt < 0) || !shortDate m.setAt) &&
    !(decide (m.expireAt < 0) || !shortDate m.expireAt)

/-- `cmd_tkl_add` for the ban of these messages. -/
def cmdTklAdd (shortDate : ℤ → Bool) (tkl : Option TKL) (m : AddMessage) :
    Option TKL :=
  if accepted shortDate m then
    match tkl with
    | none => some (newTkl m)
    | some tkl => some (mergeTkl tkl m)
  else tkl

def stored (shortDate : ℤ → Bool) (messages : List AddMessage) : Option TKL :=
  messages.foldl (cmdTklAdd shortDate) none

/-- The fields that are merged, apart from `spamfilter_id`, which goes with the
id. -/
def TKL.fields (tkl : TKL) : ℤ × ℤ × List Char × List Char :=
  (tkl.setAt, tkl.expireAt, tkl.setBy, tkl.id)

/-- The merged fields are the same for every order of the messages. -/
def OrderIndependent (shortDate : ℤ → Bool) (messages : List AddMessage) :
    Prop :=
  ∀ others : List AddMessage, others.Perm messages →
    (stored shortDate others).map TKL.fields =
      (stored shortDate messages).map TKL.fields

/-! ## One message -/

section Merge

variable {tkl : TKL} {m : AddMessage}

@[simp] theorem mergeId_setAt : (mergeId tkl m).setAt = tkl.setAt := by
  unfold mergeId
  split
  · rfl
  · rfl

@[simp] theorem mergeId_expireAt : (mergeId tkl m).expireAt = tkl.expireAt := by
  unfold mergeId
  split
  · rfl
  · rfl

@[simp] theorem mergeId_setBy : (mergeId tkl m).setBy = tkl.setBy := by
  unfold mergeId
  split
  · rfl
  · rfl

theorem mergeTkl_setAt : (mergeTkl tkl m).setAt = min tkl.setAt m.setAt := by
  rw [mergeTkl, mergeFields]
  split
  · simp
  · next h =>
      simp only [mergeId_setAt, not_or, not_lt] at h ⊢
      exact (min_eq_left h.1).symm

theorem mergeTkl_expireAt :
    (mergeTkl tkl m).expireAt =
      if tkl.expireAt = 0 ∨ m.expireAt = 0 then 0
      else max tkl.expireAt m.expireAt := by
  rw [mergeTkl, mergeFields]
  split
  · simp
  · next h =>
      simp only [mergeId_expireAt, not_or, not_ne_iff] at h ⊢
      rw [h.2.1]
      split
      · next hzero => exact hzero.elim id id
      · exact (max_self _).symm

theorem mergeTkl_setBy : (mergeTkl tkl m).setBy = max tkl.setBy m.setBy := by
  rw [mergeTkl, mergeFields]
  split
  · simp only [mergeId_setBy]
    split
    · next hlt => exact (max_eq_right hlt.le).symm
    · next hle => exact (max_eq_left (not_lt.mp hle)).symm
  · next h =>
      simp only [mergeId_setBy, not_or, not_ne_iff] at h ⊢
      rw [h.2.2, max_self]

@[simp] theorem mergeFields_id : (mergeFields tkl m).id = tkl.id := by
  unfold mergeFields
  split
  · rfl
  · rfl

theorem mergeTkl_id :
    (mergeTkl tkl m).id = if idWins tkl m then m.tag else tkl.id := by
  rw [mergeTkl, mergeFields_id, mergeId]
  split
  · rfl
  · rfl

theorem idWins_iff :
    idWins tkl m ↔ m.tag ≠ [] ∧ tkl.id ≠ m.tag ∧
      (tkl.id = [] ∨ m.setAt < tkl.setAt ∨
        m.setAt = tkl.setAt ∧ m.tag < tkl.id) := by
  rw [idWins, decide_eq_true_iff]

theorem mergeTkl_id_of_nil (hid : tkl.id = []) :
    (mergeTkl tkl m).id = m.tag := by
  rw [mergeTkl_id]
  split
  · rfl
  · next hlose =>
      by_contra hne
      rw [hid] at hne
      exact hlose (idWins_iff.mpr ⟨Ne.symm hne, hid ▸ hne, .inl hid⟩)

theorem mergeTkl_id_cases (hid : tkl.id ≠ []) :
    (mergeTkl tkl m).id = tkl.id ∨
      m.tag ≠ [] ∧ (mergeTkl tkl m).id = m.tag ∧
        (m.setAt < tkl.setAt ∨ m.setAt = tkl.setAt ∧ m.tag < tkl.id) := by
  rw [mergeTkl_id]
  split
  · next hwins =>
      obtain ⟨htag, -, hwhy⟩ := idWins_iff.mp hwins
      exact .inr ⟨htag, rfl, hwhy.resolve_left hid⟩
  · exact .inl rfl

end Merge

/-! ## The times and the setter -/

/-- How long a ban lasts: zero is forever. -/
def lasts (expireAt : ℤ) : WithTop ℤ :=
  if expireAt = 0 then ⊤ else expireAt

theorem lasts_injective : Function.Injective lasts := by
  intro a b h
  unfold lasts at h
  split at h
  · next ha =>
      split at h
      · next hb => exact ha.trans hb.symm
      · exact absurd h.symm (WithTop.coe_ne_top)
  · split at h
    · exact absurd h (WithTop.coe_ne_top)
    · exact WithTop.coe_injective h

theorem lasts_mergeTkl (tkl : TKL) (m : AddMessage) :
    lasts (mergeTkl tkl m).expireAt =
      lasts tkl.expireAt ⊔ lasts m.expireAt := by
  rw [mergeTkl_expireAt]
  by_cases htkl : tkl.expireAt = 0
  · rw [if_pos (.inl htkl)]
    simp only [lasts, htkl, if_true, top_sup_eq]
  · by_cases hm : m.expireAt = 0
    · rw [if_pos (.inr hm)]
      simp only [lasts, hm, if_true, sup_top_eq]
    · rw [if_neg (not_or.mpr ⟨htkl, hm⟩)]
      have hmax : max tkl.expireAt m.expireAt ≠ 0 := by
        rcases max_choice tkl.expireAt m.expireAt with h | h
        · rwa [h]
        · rwa [h]
      simp only [lasts, if_neg htkl, if_neg hm, if_neg hmax]
      exact WithTop.coe_max _ _

/-- Oldest wins. -/
theorem joins_setAt :
    Joins newTkl mergeTkl (fun tkl => OrderDual.toDual tkl.setAt)
      (fun m => OrderDual.toDual m.setAt) where
  start _ := rfl
  update _ _ := congrArg OrderDual.toDual mergeTkl_setAt

/-- Longest wins. -/
theorem joins_expireAt :
    Joins newTkl mergeTkl (fun tkl => lasts tkl.expireAt)
      (fun m => lasts m.expireAt) where
  start _ := rfl
  update := lasts_mergeTkl

/-- Highest wins. -/
theorem joins_setBy :
    Joins newTkl mergeTkl TKL.setBy AddMessage.setBy where
  start _ := rfl
  update _ _ := mergeTkl_setBy

/-! ## Runs of accepted messages -/

def merged : List AddMessage → Option TKL
  | [] => none
  | m :: messages => some (messages.foldl mergeTkl (newTkl m))

theorem stored_eq (shortDate : ℤ → Bool) (messages : List AddMessage) :
    stored shortDate messages =
      merged (messages.filter (accepted shortDate)) := by
  have hstep : cmdTklAdd shortDate = fun tkl m =>
      if accepted shortDate m then some (tkl.elim (newTkl m) (mergeTkl · m))
      else tkl := by
    funext tkl m
    cases tkl <;> rfl
  rw [stored, hstep, ← foldl_filter]
  cases messages.filter (accepted shortDate) with
  | nil => rfl
  | cons m later => exact foldl_hom some fun _ _ => rfl

/-! ## The id -/

/-- What the messages so far say about the id of the ban.  The last field is
what the comparison of the next id rests on: the set-at of the ban is that of a
message with the stored id, or that of a message without one. -/
structure IdMerged (messages : List AddMessage) (tkl : TKL) : Prop where
  setAt_le : ∀ m ∈ messages, tkl.setAt ≤ m.setAt
  tag_eq_nil : tkl.id = [] → ∀ m ∈ messages, m.tag = []
  exists_tag : ∃ m ∈ messages, m.tag = tkl.id
  exists_setAt :
    ∃ m ∈ messages, m.setAt = tkl.setAt ∧ (m.tag = [] ∨ m.tag = tkl.id)

theorem idMerged_newTkl (m : AddMessage) : IdMerged [m] (newTkl m) where
  setAt_le := forall_mem_singleton.mpr le_rfl
  tag_eq_nil hid := forall_mem_singleton.mpr hid
  exists_tag := ⟨m, mem_singleton_self m, rfl⟩
  exists_setAt := ⟨m, mem_singleton_self m, rfl, .inr rfl⟩

section Step

variable {messages : List AddMessage} {tkl : TKL} (h : IdMerged messages tkl)
  (x : AddMessage)

include h

theorem IdMerged.exists_tag_merge :
    ∃ m ∈ messages ++ [x], m.tag = (mergeTkl tkl x).id := by
  rw [mergeTkl_id]
  split
  · exact ⟨x, by simp, rfl⟩
  · obtain ⟨m, hm, htag⟩ := h.exists_tag
    exact ⟨m, mem_append_left _ hm, htag⟩

theorem IdMerged.exists_setAt_merge :
    ∃ m ∈ messages ++ [x], m.setAt = (mergeTkl tkl x).setAt ∧
      (m.tag = [] ∨ m.tag = (mergeTkl tkl x).id) := by
  obtain ⟨m, hm, hsetAt, htag⟩ := h.exists_setAt
  have hx : x ∈ messages ++ [x] := by simp
  rw [mergeTkl_setAt, mergeTkl_id]
  by_cases hwins : idWins tkl x
  · rw [if_pos hwins]
    obtain ⟨-, -, hempty | holder | ⟨hsame, -⟩⟩ := idWins_iff.mp hwins
    · rcases le_total x.setAt tkl.setAt with hle | hle
      · exact ⟨x, hx, (min_eq_right hle).symm, .inr rfl⟩
      · refine ⟨m, mem_append_left _ hm, ?_, .inl ?_⟩
        · rw [hsetAt, min_eq_left hle]
        · exact h.tag_eq_nil hempty m hm
    · exact ⟨x, hx, (min_eq_right holder.le).symm, .inr rfl⟩
    · exact ⟨x, hx, (min_eq_right hsame.le).symm, .inr rfl⟩
  · rw [if_neg hwins]
    rcases lt_or_ge x.setAt tkl.setAt with hlt | hle
    · -- An older message that does not take the id has none, or the same one.
      refine ⟨x, hx, (min_eq_right hlt.le).symm, ?_⟩
      by_contra hne
      rw [not_or] at hne
      exact hwins (idWins_iff.mpr ⟨hne.1, Ne.symm hne.2, .inr (.inl hlt)⟩)
    · refine ⟨m, mem_append_left _ hm, ?_, htag⟩
      rw [hsetAt, min_eq_left hle]

theorem IdMerged.mergeTkl :
    IdMerged (messages ++ [x]) (mergeTkl tkl x) where
  setAt_le := by
    rw [mergeTkl_setAt, forall_mem_append, forall_mem_singleton]
    exact ⟨fun m hm => (min_le_left _ _).trans (h.setAt_le m hm),
      min_le_right _ _⟩
  tag_eq_nil := by
    intro hid
    have hempty : tkl.id = [] := by
      by_contra hne
      rcases mergeTkl_id_cases hne with hkept | ⟨htag, htaken, -⟩
      · exact hne (hkept.symm.trans hid)
      · exact htag (htaken.symm.trans hid)
    rw [forall_mem_append, forall_mem_singleton]
    exact ⟨h.tag_eq_nil hempty, (mergeTkl_id_of_nil hempty).symm.trans hid⟩
  exists_tag := h.exists_tag_merge x
  exists_setAt := h.exists_setAt_merge x

end Step

theorem idMerged_foldl (m : AddMessage) (messages : List AddMessage) :
    IdMerged (m :: messages) (messages.foldl mergeTkl (newTkl m)) := by
  induction messages using List.reverseRecOn with
  | nil => exact idMerged_newTkl m
  | append_singleton messages x ih =>
    rw [foldl_append, ← cons_append]
    exact ih.mergeTkl x

/-! ## The winning id -/

/-- The message whose id should win: the oldest of those with an id, and of
these the one with the least id. -/
def Wins (messages : List AddMessage) (w : AddMessage) : Prop :=
  w ∈ messages ∧ w.tag ≠ [] ∧
    ∀ b ∈ messages, b.tag ≠ [] →
      w.setAt < b.setAt ∨ w.setAt = b.setAt ∧ w.tag ≤ b.tag

/-- A message without an id does no harm: it is newer than the winning one, or
as old and the winning id is the least of all, or there is only one id. -/
def Settled (messages : List AddMessage) : Prop :=
  ∀ n ∈ messages, n.tag = [] → ∀ w, Wins messages w →
    w.setAt < n.setAt ∨
    (w.setAt = n.setAt ∧ ∀ b ∈ messages, b.tag ≠ [] → w.tag ≤ b.tag) ∨
    ∀ b ∈ messages, b.tag ≠ [] → b.tag = w.tag

theorem exists_wins {messages : List AddMessage}
    (h : ∃ m ∈ messages, m.tag ≠ []) : ∃ w, Wins messages w := by
  let key : AddMessage → ℤ ×ₗ List Char := fun m => toLex (m.setAt, m.tag)
  let tagged := messages.filter fun m => m.tag ≠ []
  obtain ⟨m, hm, htag⟩ := h
  have hmem : m ∈ tagged := mem_filter.mpr ⟨hm, decide_eq_true htag⟩
  cases hargmin : tagged.argmin key with
  | none =>
    rw [argmin_eq_none.mp hargmin] at hmem
    exact absurd hmem not_mem_nil
  | some w =>
    have hw := mem_filter.mp (argmin_mem hargmin)
    refine ⟨w, hw.1, of_decide_eq_true hw.2, fun b hb hbtag => ?_⟩
    have hle := le_of_mem_argmin
      (mem_filter.mpr ⟨hb, decide_eq_true hbtag⟩) hargmin
    exact Prod.Lex.le_iff.mp hle

section Settles

variable {all messages : List AddMessage} {w : AddMessage} {tkl : TKL}

theorem Wins.mergeTkl_id_of_stored (hw : Wins all w) (hid : tkl.id = w.tag)
    (hsetAt : tkl.setAt = w.setAt) {x : AddMessage} (hx : x ∈ all) :
    (mergeTkl tkl x).id = w.tag := by
  obtain ⟨-, hwtag, hleast⟩ := hw
  rcases mergeTkl_id_cases (hid ▸ hwtag) with hkept | ⟨htag, -, hwhy⟩
  · rw [hkept, hid]
  · rw [hsetAt, hid] at hwhy
    have hlt : toLex (x.setAt, x.tag) < toLex (w.setAt, w.tag) :=
      Prod.Lex.toLex_lt_toLex.mpr hwhy
    exact absurd hlt (Prod.Lex.toLex_le_toLex.mpr (hleast x hx htag)).not_gt

theorem Wins.mergeTkl_id_of_comes (hw : Wins all w)
    (htie : ∀ n ∈ all, n.tag = [] → n.setAt = w.setAt →
      ∀ b ∈ all, b.tag ≠ [] → w.tag ≤ b.tag) (hmerged : IdMerged messages tkl)
    (hsub : ∀ x ∈ messages, x ∈ all) (holdest : w.setAt ≤ tkl.setAt) :
    (mergeTkl tkl w).id = w.tag := by
  obtain ⟨-, hwtag, hleast⟩ := hw
  by_cases hempty : tkl.id = []
  · exact mergeTkl_id_of_nil hempty
  rw [mergeTkl_id]
  split
  · rfl
  · next hlose =>
      by_contra hne
      apply hlose
      refine idWins_iff.mpr ⟨hwtag, hne, .inr ?_⟩
      refine holdest.lt_or_eq.imp id fun hsame => ⟨hsame, ?_⟩
      refine lt_of_le_of_ne ?_ (Ne.symm hne)
      obtain ⟨o, ho, hoAt, hblank | hstored⟩ := hmerged.exists_setAt
      · obtain ⟨b, hb, hbtag⟩ := hmerged.exists_tag
        rw [← hbtag]
        exact htie o (hsub o ho) hblank (hoAt.trans hsame.symm) b (hsub b hb)
          (hbtag ▸ hempty)
      · rw [← hstored]
        rcases hleast o (hsub o ho) (hstored ▸ hempty) with hlt | hle
        · exact absurd (hsame.trans hoAt.symm) hlt.ne
        · exact hle.2

/-- Once the winning message has come, its id is stored. -/
theorem Wins.foldl_id (hw : Wins all w) (holdest : ∀ m ∈ all, w.setAt ≤ m.setAt)
    (htie : ∀ n ∈ all, n.tag = [] → n.setAt = w.setAt →
      ∀ b ∈ all, b.tag ≠ [] → w.tag ≤ b.tag) (m : AddMessage)
    (messages : List AddMessage) (hsub : ∀ x ∈ m :: messages, x ∈ all)
    (hcome : w ∈ m :: messages) :
    (messages.foldl mergeTkl (newTkl m)).id = w.tag := by
  induction messages using List.reverseRecOn with
  | nil =>
    rw [mem_singleton.mp hcome]
    rfl
  | append_singleton messages x ih =>
    rw [← cons_append] at hsub hcome
    rw [foldl_append, foldl_cons, foldl_nil]
    have hsub' : ∀ y ∈ m :: messages, y ∈ all :=
      fun y hy => hsub y (mem_append_left _ hy)
    have hmerged := idMerged_foldl m messages
    generalize messages.foldl mergeTkl (newTkl m) = tkl at ih hmerged
    obtain ⟨o, ho, hoAt, -⟩ := hmerged.exists_setAt
    have hge : w.setAt ≤ tkl.setAt := hoAt ▸ holdest o (hsub' o ho)
    by_cases hcame : w ∈ m :: messages
    · have hsetAt : tkl.setAt = w.setAt :=
        le_antisymm (hmerged.setAt_le w hcame) hge
      exact hw.mergeTkl_id_of_stored (ih hsub' hcame) hsetAt (hsub x (by simp))
    · have hwx : w = x :=
        mem_singleton.mp ((mem_append.mp hcome).resolve_left hcame)
      rw [← hwx]
      exact hw.mergeTkl_id_of_comes htie hmerged hsub' hge

/-- In settled messages the winning id is stored, whatever their order. -/
theorem Settled.foldl_id (hsettled : Settled all) (hw : Wins all w)
    {m : AddMessage} (hperm : (m :: messages).Perm all) :
    (messages.foldl mergeTkl (newTkl m)).id = w.tag := by
  have hsub : ∀ x ∈ m :: messages, x ∈ all := fun x hx => hperm.mem_iff.mp hx
  have hcome : w ∈ m :: messages := hperm.mem_iff.mpr hw.1
  have hmerged := idMerged_foldl m messages
  by_cases hone : ∀ b ∈ all, b.tag ≠ [] → b.tag = w.tag
  · obtain ⟨b, hb, hbtag⟩ := hmerged.exists_tag
    rw [← hbtag]
    apply hone b (hsub b hb)
    intro hempty
    exact hw.2.1 (hmerged.tag_eq_nil (hbtag ▸ hempty) w hcome)
  · -- With two ids, no message without one is older than the winner.
    have hblank : ∀ n ∈ all, n.tag = [] →
        w.setAt < n.setAt ∨
        (w.setAt = n.setAt ∧ ∀ b ∈ all, b.tag ≠ [] → w.tag ≤ b.tag) :=
      fun n hn hntag =>
        (or_assoc.mpr (hsettled n hn hntag w hw)).resolve_right hone
    refine hw.foldl_id ?_ ?_ m messages hsub hcome
    · intro x hx
      by_cases htag : x.tag = []
      · rcases hblank x hx htag with hlt | ⟨heq, -⟩
        · exact hlt.le
        · exact heq.le
      · rcases hw.2.2 x hx htag with hlt | ⟨heq, -⟩
        · exact hlt.le
        · exact heq.le
    · intro n hn hntag hsame
      rcases hblank n hn hntag with hlt | ⟨-, hall⟩
      · exact absurd hsame hlt.ne'
      · exact hall

end Settles

/-- The id that comes after a message without one is kept, if no later one is
older than that message, or as old and less. -/
theorem foldl_id_of_kept {tkl : TKL} {n x : AddMessage}
    {messages : List AddMessage} (hxtag : x.tag ≠ []) (hid : tkl.id = x.tag)
    (hsetAt : tkl.setAt ≤ n.setAt)
    (hlater : ∀ c ∈ messages, c.tag ≠ [] →
      n.setAt < c.setAt ∨ n.setAt = c.setAt ∧ x.tag ≤ c.tag) :
    (messages.foldl mergeTkl tkl).id = x.tag := by
  induction messages generalizing tkl with
  | nil => exact hid
  | cons c messages ih =>
    rw [foldl_cons]
    refine ih ?_ ?_ fun y hy => hlater y (mem_cons_of_mem c hy)
    · rcases mergeTkl_id_cases (hid ▸ hxtag) with hkept | ⟨htag, -, hwhy⟩
      · rw [hkept, hid]
      · -- it would be before the stored id, and so before `n` with this id
        rw [hid] at hwhy
        have hlt : toLex (c.setAt, c.tag) < toLex (tkl.setAt, x.tag) :=
          Prod.Lex.toLex_lt_toLex.mpr hwhy
        have hle : toLex (tkl.setAt, x.tag) ≤ toLex (n.setAt, x.tag) :=
          Prod.Lex.toLex_mono ⟨hsetAt, le_rfl⟩
        have hafter := hlater c mem_cons_self htag
        exact absurd (hlt.trans_le hle)
          (Prod.Lex.toLex_le_toLex.mpr hafter).not_gt
    · rw [mergeTkl_setAt]
      exact (min_le_left _ _).trans hsetAt

/-! ## Order independence -/

section Order

variable {shortDate : ℤ → Bool} {messages : List AddMessage}

/-- A message without an id can come first, and one with an id right after it,
whose id is then kept. -/
theorem exists_perm_id {n x : AddMessage}
    (hn : n ∈ messages.filter (accepted shortDate)) (hntag : n.tag = [])
    (hx : x ∈ messages.filter (accepted shortDate)) (hxtag : x.tag ≠ [])
    (hlater : ∀ c ∈ messages.filter (accepted shortDate), c.tag ≠ [] →
      n.setAt < c.setAt ∨ n.setAt = c.setAt ∧ x.tag ≤ c.tag) :
    ∃ others : List AddMessage, others.Perm messages ∧
      (stored shortDate others).map TKL.id = some x.tag := by
  rw [mem_filter] at hn hx
  have hne : x ≠ n := fun h => hxtag (h ▸ hntag)
  have hperm : (n :: x :: (messages.erase n).erase x).Perm messages := by
    have hrest := perm_cons_erase ((mem_erase_of_ne hne).mpr hx.1)
    exact (hrest.symm.cons n).trans (perm_cons_erase hn.1).symm
  refine ⟨_, hperm, ?_⟩
  rw [stored_eq, filter_cons_of_pos hn.2, filter_cons_of_pos hx.2,
    merged, Option.map_some, foldl_cons]
  apply congrArg some
  apply foldl_id_of_kept (n := n) hxtag
  · exact mergeTkl_id_of_nil hntag
  · rw [mergeTkl_setAt]
    exact min_le_left _ _
  · intro c hc
    obtain ⟨hmem, haccepted⟩ := mem_filter.mp hc
    apply hlater c
    refine mem_filter.mpr ⟨hperm.mem_iff.mp ?_, haccepted⟩
    exact mem_cons_of_mem n (mem_cons_of_mem x hmem)

theorem OrderIndependent.settled (h : OrderIndependent shortDate messages) :
    Settled (messages.filter (accepted shortDate)) := by
  intro n hn hntag w hw
  by_contra hharm
  simp only [not_or, not_and, not_lt, not_forall, not_le] at hharm
  obtain ⟨hle, hless, b, hb, hbtag, hbw⟩ := hharm
  -- Some other id that would be kept after `n`, as the winning one would.
  obtain ⟨b, hb, hbtag, hbw, hblow⟩ : ∃ b ∈ messages.filter (accepted shortDate),
      b.tag ≠ [] ∧ b.tag ≠ w.tag ∧ (w.setAt = n.setAt → b.tag < w.tag) := by
    by_cases hsame : w.setAt = n.setAt
    · obtain ⟨c, hc, hctag, hcw⟩ := hless hsame
      exact ⟨c, hc, hctag, hcw.ne, fun _ => hcw⟩
    · exact ⟨b, hb, hbtag, hbw, fun heq => absurd heq hsame⟩
  have hsame : ∀ x ∈ messages.filter (accepted shortDate), x.tag ≠ [] →
      (w.setAt = n.setAt → x.tag ≤ w.tag) →
      (stored shortDate messages).map TKL.id = some x.tag := by
    intro x hx hxtag hxw
    obtain ⟨others, hperm, hid⟩ := exists_perm_id hn hntag hx hxtag (by
      intro c hc hctag
      rcases hw.2.2 c hc hctag with hlt | ⟨heq, hwc⟩
      · exact .inl (hle.trans_lt hlt)
      · refine hle.lt_or_eq.imp (fun hlt => heq ▸ hlt) fun hnw => ?_
        exact ⟨hnw.trans heq, (hxw hnw.symm).trans hwc⟩)
    have hfields := congrArg (Option.map fun f => f.2.2.2) (h others hperm)
    simp only [Option.map_map] at hfields
    exact hfields.symm.trans hid
  have hwid := hsame w hw.1 hw.2.1 fun _ => le_rfl
  have hbid := hsame b hb hbtag fun heq => (hblow heq).le
  exact hbw (Option.some.inj (hbid.symm.trans hwid))

theorem Settled.merged_fields_eq {all others : List AddMessage}
    (hsettled : Settled all) (hperm : others.Perm all) :
    (merged others).map TKL.fields = (merged all).map TKL.fields := by
  cases all with
  | nil => rw [hperm.eq_nil]
  | cons m messages =>
    cases others with
    | nil => exact absurd hperm.symm.eq_nil (cons_ne_nil m messages)
    | cons m' messages' =>
      simp only [merged, Option.map_some, TKL.fields, Option.some.injEq,
        Prod.mk.injEq]
      have hmem : ∀ x, x ∈ m' :: messages' ↔ x ∈ m :: messages :=
        fun x => hperm.mem_iff
      refine ⟨?_, ?_, ?_, ?_⟩
      · exact OrderDual.toDual.injective
          (joins_setAt.foldl_eq_of_mem_iff hmem)
      · exact lasts_injective (joins_expireAt.foldl_eq_of_mem_iff hmem)
      · exact joins_setBy.foldl_eq_of_mem_iff hmem
      · by_cases htagged : ∃ x ∈ m :: messages, x.tag ≠ []
        · obtain ⟨w, hw⟩ := exists_wins htagged
          rw [hsettled.foldl_id hw hperm, hsettled.foldl_id hw (Perm.refl _)]
        · have hblank : ∀ x ∈ m :: messages, x.tag = [] := by
            intro x hx
            by_contra hne
            exact htagged ⟨x, hx, hne⟩
          obtain ⟨x, hx, hxtag⟩ := (idMerged_foldl m' messages').exists_tag
          obtain ⟨y, hy, hytag⟩ := (idMerged_foldl m messages).exists_tag
          rw [← hxtag, ← hytag, hblank x (hperm.mem_iff.mp hx), hblank y hy]

end Order

/-- The merged fields do not depend on the order of the messages exactly if the
accepted messages without an id do no harm. -/
theorem orderIndependent_iff (shortDate : ℤ → Bool)
    (messages : List AddMessage) :
    OrderIndependent shortDate messages ↔
      Settled (messages.filter (accepted shortDate)) := by
  constructor
  · intro h
    exact h.settled
  · intro hsettled others hperm
    rw [stored_eq, stored_eq]
    exact hsettled.merged_fields_eq (hperm.filter _)

def harmful : List AddMessage :=
  [{ setBy := ['x'], expireAt := 0, setAt := 5, id := none,
     spamfilterId := none },
   { setBy := ['x'], expireAt := 0, setAt := 7, id := some ['a'],
     spamfilterId := none },
   { setBy := ['x'], expireAt := 0, setAt := 8, id := some ['b'],
     spamfilterId := none }]

def harmfulSwapped : List AddMessage :=
  harmful.take 1 ++ (harmful.drop 1).reverse

/-- The id of `harmful` is that of the message that comes second. -/
theorem not_orderIndependent_harmful :
    (stored (fun _ => true) harmful).map TKL.id = some ['a'] ∧
    (stored (fun _ => true) harmfulSwapped).map TKL.id = some ['b'] ∧
    ¬ OrderIndependent (fun _ => true) harmful := by
  refine ⟨by decide +kernel, by decide +kernel, fun h => ?_⟩
  have hfields := h harmfulSwapped (by decide)
  revert hfields
  decide +kernel

end UnrealIrcd.Tkl
