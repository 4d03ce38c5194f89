import UnrealIrcd.DelayJoin.View

/-!
# What a mode change tells a local user

The letters of a mode line are handled one by one.  A member that was invisible
becomes visible with the first letter about it, and is announced to those that
have none of `hoaq` after the whole change.  A user that gains or loses one of
`hoaq` is sent a JOIN or a PART for every member that is invisible at that
moment.
-/

namespace UnrealIrcd.DelayJoin

open Support Visibility List

variable {myConnect : ClientId → Bool} {ch : Channel} {c : ClientId}

/-! ## The letters of a mode change -/

/-- The letter is a status of the member. -/
def about (m : ClientId) : Change → Bool
  | .status _ letter user => isStatusLetter letter && user == m
  | _ => false

/-- The letter gives the client one of `hoaq` or takes one. -/
def own (c : ClientId) : Change → Option Bool
  | .status add letter user =>
    if isStatusLetter letter && letter != 'v' && user == c then some add
    else none
  | _ => none

/-- Whether the client has been told about a member that is still invisible, by
its own letters that come before the first one about the member: the last of
them counts.  Without any it is as it was. -/
def Knows (c m : ClientId) (letters : List Change) (before : Prop) : Prop :=
  match ((letters.takeWhile fun l => !about m l).filterMap (own c)).getLast? with
  | some add => add = true
  | none => before

theorem knows_nil (m : ClientId) (before : Prop) :
    Knows c m [] before ↔ before := Iff.rfl

variable {m : ClientId} {letter : Change}

theorem knows_cons_of_about (h : about m letter = true) (letters : List Change)
    (before : Prop) : Knows c m (letter :: letters) before ↔ before := by
  simp [Knows, h]

theorem knows_cons_of_own {add : Bool} (h : ¬ about m letter = true)
    (hown : own c letter = some add) (letters : List Change) (before : Prop) :
    Knows c m (letter :: letters) before ↔
      Knows c m letters (add = true) := by
  unfold Knows
  rw [takeWhile_cons_of_pos (by simpa using h),
    filterMap_cons_some hown, getLast?_cons]
  cases ((letters.takeWhile fun l => !about m l).filterMap (own c)).getLast? <;> rfl

theorem knows_cons_of_other (h : ¬ about m letter = true)
    (hown : own c letter = none) (letters : List Change) (before : Prop) :
    Knows c m (letter :: letters) before ↔ Knows c m letters before := by
  unfold Knows
  rw [takeWhile_cons_of_pos (by simpa using h), filterMap_cons_none hown]

/-! ## Members that become visible -/

/-- The members that `p` names have become visible. -/
structure Shown (p : ClientId → Bool) (ch ch' : Channel) : Prop where
  find : ∀ m, ch'.find m =
    if p m = true then (ch.find m).map fun mb => { mb with invisible := false }
    else ch.find m
  distinct : ch.Distinct → ch'.Distinct

section Shown

variable {p q : ClientId → Bool} {ch' ch'' : Channel}

theorem shown_refl (h : ∀ m, p m = false) : Shown p ch ch :=
  ⟨fun m => (if_neg (by simp [h m])).symm, id⟩

theorem Shown.trans (h : Shown p ch ch') (h' : Shown q ch' ch'') :
    Shown (fun m => p m || q m) ch ch'' := by
  refine ⟨fun m => ?_, fun hd => h'.distinct (h.distinct hd)⟩
  rw [h'.find, h.find]
  cases p m <;> cases q m <;> simp [Function.comp_def]

theorem Shown.isMember (h : Shown p ch ch') (m : ClientId) :
    ch'.isMember m = ch.isMember m := by
  unfold Channel.isMember
  rw [h.find]
  split
  · exact Option.isSome_map
  · rfl

theorem Shown.access (h : Shown p ch ch') (m : ClientId) (modes : List Char) :
    ch'.access m modes = ch.access m modes := by
  unfold Channel.access
  rw [h.find]
  cases ch.find m <;> split <;> rfl

theorem Shown.invisibleUser (h : Shown p ch ch') (m : ClientId) :
    ch'.invisibleUser m = (ch.invisibleUser m && !p m) := by
  unfold Channel.invisibleUser
  rw [h.find]
  cases ch.find m <;> cases p m <;> simp

end Shown

theorem members_clearPostDelayedIfLast :
    (clearPostDelayedIfLast ch).members = ch.members := by
  unfold clearPostDelayedIfLast
  split <;> rfl

theorem shown_clearUserInvisibleAnnounce (x : ClientId) :
    Shown (· == x) ch (clearUserInvisibleAnnounce myConnect ch x).1 where
  find m := by
    simp only [clearUserInvisibleAnnounce]
    rw [find_clearPostDelayedIfLast, Channel.setUserInvisible, find_modify]
    by_cases hm : m = x <;> simp [hm]
  distinct hd := by
    unfold Channel.Distinct
    simp only [clearUserInvisibleAnnounce]
    rw [members_clearPostDelayedIfLast]
    exact distinct_modify hd x _

/-! ### One letter -/

def announce (myConnect : ClientId → Bool) (ch : Channel) (user : ClientId) :
    Channel × Out :=
  if ch.invisibleUser user then clearUserInvisibleAnnounce myConnect ch user
  else (ch, [])

theorem shown_announce (user : ClientId) :
    Shown (· == user) ch (announce myConnect ch user).1 := by
  unfold announce
  split
  case isTrue => exact shown_clearUserInvisibleAnnounce user
  case isFalse hvis =>
    refine ⟨fun m => ?_, id⟩
    split
    case isFalse => rfl
    case isTrue hm =>
      -- the member is visible as it is
      rw [beq_iff_eq.mp hm]
      unfold Channel.invisibleUser at hvis
      cases hfind : ch.find user with
      | none => rfl
      | some mb =>
        obtain ⟨modes, invisible⟩ := mb
        rw [hfind] at hvis
        cases invisible with
        | false => rfl
        | true => exact absurd rfl hvis

variable (hd : ch.Distinct) (hlocal : myConnect c = true)
  (hmember : ch.isMember c = true) (view : Set ClientId)

include hd hlocal hmember in
theorem heard_announce_iff (user m : ClientId) :
    m ∈ heard c view (announce myConnect ch user).2 ↔
      m ∈ view ∨ (m = user ∧ m ≠ c ∧ ch.invisibleUser m = true ∧
        ch.access c hoaq = false) := by
  unfold announce
  split
  case isTrue hinv =>
    have hd' : (ch.setUserInvisible user false).Distinct :=
      distinct_modify hd user _
    simp only [clearUserInvisibleAnnounce]
    rw [heard_sendtoChannel hd']
    obtain ⟨mb, hmb⟩ := Option.isSome_iff_exists.mp hmember
    have hiff : (myConnect c = true ∧ ∃ mb,
        (ch.setUserInvisible user false).find c = some mb ∧
          (!mb.access hoaq && c != user) = true) ↔
        user ≠ c ∧ ch.access c hoaq = false := by
      rw [Channel.setUserInvisible, find_modify, Channel.access, hmb]
      by_cases hx : c = user
      · subst hx
        simp
      · simp [hlocal, hx, Ne.symm hx]
    simp only [hiff, hear]
    by_cases hm : m = user
    · subst hm
      by_cases hcond : m ≠ c ∧ ch.access c hoaq = false
      · rw [if_pos hcond]
        simp [hinv, hcond.1, hcond.2]
      · rw [if_neg hcond]
        refine (or_iff_left ?_).symm
        rintro ⟨-, h₁, -, h₂⟩
        exact hcond ⟨h₁, h₂⟩
    · split <;> simp [hm]
  case isFalse hvis =>
    rw [heard_nil]
    refine (or_iff_left ?_).symm
    rintro ⟨rfl, -, hinv, -⟩
    exact hvis hinv

def ownLines (ch : Channel) (user : ClientId) (add : Bool) : Out :=
  (ch.members.filter fun m => m.client != user && m.membership.invisible).map
    fun m => (user, if add then .join m.client else .part m.client)

/-- The body of the loop, for any letter. -/
def modedLetter (myConnect : ClientId → Bool) (ch : Channel) :
    Change → Channel × Out
  | .status add letter user => modedStatus myConnect ch add letter user
  | _ => (ch, [])

theorem modedLoop_cons (letter : Change) (letters : List Change) :
    modedLoop myConnect (letter :: letters) ch =
      ((modedLoop myConnect letters (modedLetter myConnect ch letter).1).1,
        (modedLetter myConnect ch letter).2 ++
          (modedLoop myConnect letters (modedLetter myConnect ch letter).1).2) := by
  cases letter <;> rfl

/-- What one letter does: nothing, or it makes its member visible and then may
tell the member about the others. -/
theorem modedLetter_cases (myConnect : ClientId → Bool) (ch : Channel)
    (letter : Change) :
    (modedLetter myConnect ch letter = (ch, []) ∧
        (∀ m, about m letter = false) ∧ ∀ c, own c letter = none) ∨
      ∃ user, (∀ m, about m letter = (m == user)) ∧
        ((modedLetter myConnect ch letter = announce myConnect ch user ∧
            ∀ c, myConnect c = true → own c letter = none) ∨
          ∃ add, modedLetter myConnect ch letter =
              ((announce myConnect ch user).1, (announce myConnect ch user).2 ++
                ownLines (announce myConnect ch user).1 user add) ∧
            ∀ c, own c letter = if user = c then some add else none) := by
  cases letter with
  | delayed add
  | permanent add => exact .inl ⟨rfl, fun _ => rfl, fun _ => rfl⟩
  | status add letter user =>
    by_cases hletter : isStatusLetter letter = true
    · refine .inr ⟨user, fun m => by simp [about, hletter, eq_comm], ?_⟩
      by_cases hquiet : (letter = 'v' || !myConnect user) = true
      · refine .inl ⟨?_, fun c hc => ?_⟩
        · simp only [modedLetter, modedStatus, announce, hletter, hquiet, if_true]
        · rcases Bool.or_eq_true_iff.mp hquiet with hv | hremote
          · simp [own, of_decide_eq_true hv]
          · have hne : user ≠ c := by
              rintro rfl
              simp [hc] at hremote
            simp [own, hne]
      · refine .inr ⟨add, ?_, fun c => ?_⟩
        · simp only [modedLetter, modedStatus, announce, ownLines, hletter, hquiet,
            if_true, if_false, Bool.false_eq_true]
        · have hv : letter ≠ 'v' := fun hv => hquiet (by simp [hv])
          simp [own, hletter, hv]
    · refine .inl ⟨?_, fun m => by simp [about, hletter], fun c => ?_⟩
      · simp [modedLetter, modedStatus, hletter]
      · simp [own, hletter]

theorem shown_modedLetter (letter : Change) :
    Shown (about · letter) ch (modedLetter myConnect ch letter).1 := by
  obtain ⟨heq, hnot, -⟩ | ⟨user, habout, ⟨heq, -⟩ | ⟨add, heq, -⟩⟩ :=
    modedLetter_cases myConnect ch letter
  · rw [heq]
    exact shown_refl hnot
  · rw [heq, funext habout]
    exact shown_announce user
  · rw [heq, funext habout]
    exact shown_announce user

theorem heard_own_lines (view : Set ClientId) (add : Bool) (members : List Member)
    (m : ClientId) :
    m ∈ heard c view (members.map fun x =>
        (c, if add then .join x.client else .part x.client)) ↔
      (m ∈ members.map Member.client ∧ add = true) ∨
        (m ∉ members.map Member.client ∧ m ∈ view) := by
  induction members generalizing view with
  | nil => simp [heard, received]
  | cons x members ih =>
    have hstep : heard c view ((x :: members).map fun x =>
        (c, if add then .join x.client else .part x.client)) =
        heard c (hear view (if add then .join x.client else .part x.client))
          (members.map fun x =>
            (c, if add then .join x.client else .part x.client)) := by
      simp [heard, received]
    have hhear : m ∈ hear view (if add then .join x.client else .part x.client) ↔
        if m = x.client then add = true else m ∈ view := by
      by_cases hm : m = x.client <;> cases add <;> simp [hear, hm]
    rw [hstep, ih, hhear, map_cons, mem_cons]
    by_cases hm : m = x.client
    · simp only [hm, if_true, true_or, true_and, not_true, false_and, or_false]
      tauto
    · simp [hm]

theorem heard_ownLines_of_ne {user : ClientId} (huser : user ≠ c)
    (view : Set ClientId) (add : Bool) :
    heard c view (ownLines ch user add) = view := by
  have hnil : received c (ownLines ch user add) = [] := by
    unfold received ownLines
    rw [map_eq_nil_iff, filter_eq_nil_iff]
    intro e he
    obtain ⟨x, -, rfl⟩ := mem_map.mp he
    simpa using huser
  rw [heard, hnil]
  rfl

/-- The client is told about all members that are invisible. -/
theorem heard_ownLines (hd : ch.Distinct) (view : Set ClientId) (add : Bool)
    (m : ClientId) :
    m ∈ heard c view (ownLines ch c add) ↔
      if m ≠ c ∧ ch.invisibleUser m = true then add = true else m ∈ view := by
  have hmem : m ∈ ((ch.members.filter fun x => x.client != c &&
      x.membership.invisible).map Member.client) ↔
      m ≠ c ∧ ch.invisibleUser m = true := by
    rw [mem_map]
    constructor
    · rintro ⟨x, hx, rfl⟩
      obtain ⟨hx, htest⟩ := mem_filter.mp hx
      simp only [Bool.and_eq_true, bne_iff_ne, ne_eq] at htest
      rw [Channel.invisibleUser, hd.find_eq hx]
      exact htest
    · rintro ⟨hm, hinv⟩
      obtain ⟨mb, hmb, hminv⟩ := (Option.any_eq_true _ _).mp hinv
      refine ⟨⟨m, mb⟩, mem_filter.mpr ⟨mem_of_find hmb, ?_⟩, rfl⟩
      simp [hm, hminv]
  rw [ownLines, heard_own_lines, hmem]
  split
  case isTrue htold => simp [htold]
  case isFalse htold => simp [htold]

include hd hlocal hmember in
theorem heard_modedLetter (letter : Change) :
    m ∈ heard c view (modedLetter myConnect ch letter).2 ↔
      if about m letter = true then
        m ∈ view ∨ (m ≠ c ∧ ch.invisibleUser m = true ∧
          ch.access c hoaq = false)
      else
        match own c letter with
        | some add =>
          if m ≠ c ∧ ch.invisibleUser m = true then add = true else m ∈ view
        | none => m ∈ view := by
  obtain ⟨heq, hnot, hown⟩ | ⟨user, habout, hcases⟩ :=
    modedLetter_cases myConnect ch letter
  · rw [heq, heard_nil, hnot, hown]
    simp
  -- only the announcement counts for a member that is not the user itself
  have hothers : m ∈ heard c view (announce myConnect ch user).2 ↔
      if about m letter = true then
        m ∈ view ∨ (m ≠ c ∧ ch.invisibleUser m = true ∧
          ch.access c hoaq = false)
      else m ∈ view := by
    rw [heard_announce_iff hd hlocal hmember view user m, habout]
    by_cases huser : m = user
    · simp [huser]
    · simp [huser]
  obtain ⟨heq, hown⟩ | ⟨add, heq, hown⟩ := hcases
  · rw [heq, hothers, hown c hlocal]
  · rw [heq, hown, heard_append]
    by_cases huser : user = c
    · subst huser
      have hshown := @shown_announce myConnect ch user
      rw [heard_ownLines (hshown.distinct hd), hshown.invisibleUser, hothers, habout]
      by_cases hm : m = user <;> simp [hm]
    · rw [heard_ownLines_of_ne huser, hothers, if_neg huser]

/-! ### All letters -/

/-- What the client knows about a member in the end: a member that was invisible
becomes visible with its first letter, and is then announced to those without
`hoaq`. -/
def KnowsAfter (ch : Channel) (c m : ClientId) (letters : List Change)
    (before : Prop) : Prop :=
  if ch.invisibleUser m = true then
    Knows c m letters before ∨
      (letters.any (about m) = true ∧ ch.access c hoaq = false)
  else before

theorem shown_modedLoop (letters : List Change) :
    Shown (fun m => letters.any (about m)) ch
      (modedLoop myConnect letters ch).1 := by
  induction letters generalizing ch with
  | nil => exact shown_refl fun _ => rfl
  | cons letter letters ih =>
    rw [modedLoop_cons]
    exact (shown_modedLetter letter).trans ih

include hd hlocal hmember in
theorem heard_modedLoop_iff (letters : List Change) :
    m ∈ heard c view (modedLoop myConnect letters ch).2 ↔
      if m ≠ c then KnowsAfter ch c m letters (m ∈ view) else m ∈ view := by
  unfold KnowsAfter
  induction letters generalizing ch view with
  | nil =>
    rw [knows_nil]
    split <;> simp [modedLoop, heard_nil]
  | cons letter letters ih =>
    have hshown := @shown_modedLetter myConnect ch letter
    rw [modedLoop_cons]
    rw [heard_append, ih (hshown.distinct hd) ((hshown.isMember c).trans hmember),
      hshown.invisibleUser, hshown.access, any_cons,
      heard_modedLetter hd hlocal hmember view letter]
    by_cases hm : m = c
    · cases hown : own c letter <;> simp [hm]
    by_cases habout : about m letter = true
    · rw [knows_cons_of_about habout]
      by_cases hinv : ch.invisibleUser m = true <;> simp [habout, hinv, hm]
    · simp only [habout, Bool.not_false, Bool.and_true, if_false, Bool.false_or,
        Bool.false_eq_true, hm, not_false_eq_true, ne_eq, if_true, true_and]
      cases hown : own c letter with
      | none => rw [knows_cons_of_other habout hown]
      | some add =>
        rw [knows_cons_of_own habout hown]
        by_cases hinv : ch.invisibleUser m = true <;> simp [hinv]

/-! ## The lines of a mode change -/

/-- The same members become visible, and the same lines are sent. -/
def SameEffect (r r' : Channel × Out) : Prop :=
  r.1.members = r'.1.members ∧ r.2 = r'.2

theorem modedLoop_append (letters letters' : List Change) :
    modedLoop myConnect (letters ++ letters') ch =
      ((modedLoop myConnect letters' (modedLoop myConnect letters ch).1).1,
        (modedLoop myConnect letters ch).2 ++
          (modedLoop myConnect letters' (modedLoop myConnect letters ch).1).2) := by
  induction letters generalizing ch with
  | nil => rfl
  | cons letter letters ih =>
    rw [cons_append, modedLoop_cons, modedLoop_cons, ih, append_assoc]

section SameMembers

variable {ch' : Channel} (h : ch.members = ch'.members)

include h

theorem announce_congr (user : ClientId) :
    SameEffect (announce myConnect ch user) (announce myConnect ch' user) := by
  have hinv : ch.invisibleUser user = ch'.invisibleUser user := by
    unfold Channel.invisibleUser Channel.find
    rw [h]
  have hset : (ch.setUserInvisible user false).members =
      (ch'.setUserInvisible user false).members := by
    simp only [Channel.setUserInvisible, Channel.modify, h]
  unfold announce
  rw [hinv]
  split
  · constructor
    · simp only [clearUserInvisibleAnnounce]
      rw [members_clearPostDelayedIfLast, members_clearPostDelayedIfLast, hset]
    · simp only [clearUserInvisibleAnnounce, sendtoChannel, hset]
  · exact ⟨h, rfl⟩

theorem modedLetter_congr (letter : Change) :
    SameEffect (modedLetter myConnect ch letter)
      (modedLetter myConnect ch' letter) := by
  cases letter with
  | delayed add | permanent add => exact ⟨h, rfl⟩
  | status add letter user =>
    obtain ⟨hmembers, hout⟩ := @announce_congr myConnect ch ch' h user
    simp only [announce] at hmembers hout
    simp only [modedLetter, modedStatus]
    split
    · split
      · exact ⟨hmembers, hout⟩
      · exact ⟨hmembers, by simp only [hmembers, hout]⟩
    · exact ⟨h, rfl⟩

theorem modedLoop_congr (letters : List Change) :
    SameEffect (modedLoop myConnect letters ch)
      (modedLoop myConnect letters ch') := by
  induction letters generalizing ch ch' with
  | nil => exact ⟨h, rfl⟩
  | cons letter letters ih =>
    obtain ⟨hmembers, hout⟩ := @modedLetter_congr myConnect ch ch' h letter
    obtain ⟨hmembers', hout'⟩ := ih hmembers
    rw [modedLoop_cons, modedLoop_cons]
    exact ⟨hmembers', by simp only [hout, hout']⟩

end SameMembers

theorem modedLoop_of_no_invisible (h : ch.hasInvisibleUsers = false)
    (letters : List Change) : modedLoop myConnect letters ch = (ch, []) := by
  have hnone : ∀ m ∈ ch.members, m.membership.invisible = false := by
    simpa [Channel.hasInvisibleUsers] using h
  have hann : ∀ user, announce myConnect ch user = (ch, []) := by
    intro user
    unfold announce
    rw [if_neg]
    intro hinv
    obtain ⟨mb, hmb, hminv⟩ := (Option.any_eq_true _ _).mp hinv
    rw [hnone _ (mem_of_find hmb)] at hminv
    cases hminv
  have hlines : ∀ user add, ownLines ch user add = [] := by
    intro user add
    unfold ownLines
    rw [map_eq_nil_iff, filter_eq_nil_iff]
    intro m hm
    simp [hnone m hm]
  have hletter : ∀ letter, modedLetter myConnect ch letter = (ch, []) := by
    intro letter
    obtain ⟨heq, -, -⟩ | ⟨user, -, ⟨heq, -⟩ | ⟨add, heq, -⟩⟩ :=
      modedLetter_cases myConnect ch letter
    · exact heq
    · rw [heq, hann]
    · rw [heq, hann, hlines]
      rfl
  induction letters with
  | nil => rfl
  | cons letter letters ih =>
    rw [modedLoop_cons, hletter]
    simp only [ih, append_nil]

/-- While somebody is invisible the module looks at the lines. -/
def Active (ch : Channel) : Prop :=
  (ch.delayed || ch.postDelayed) = true ∨ ch.hasInvisibleUsers = false

theorem hasInvisibleUsers_setUserInvisible {user : ClientId}
    (h : ch.hasInvisibleUsers = false) :
    (ch.setUserInvisible user false).hasInvisibleUsers = false := by
  simp only [Channel.hasInvisibleUsers, any_eq_false] at h ⊢
  intro m hm
  simp only [Channel.setUserInvisible, Channel.modify, mem_map] at hm
  obtain ⟨m', hm', rfl⟩ := hm
  split
  · simp
  · exact h m' hm'

theorem active_announce (h : Active ch) (user : ClientId) :
    Active (announce myConnect ch user).1 := by
  unfold announce
  split
  case isFalse => exact h
  case isTrue =>
    simp only [clearUserInvisibleAnnounce, clearPostDelayedIfLast]
    split
    case isTrue hlast =>
      refine .inr ?_
      simpa [Channel.hasInvisibleUsers] using (Bool.and_eq_true_iff.mp hlast).2
    case isFalse =>
      rcases h with hflag | hnone
      · exact .inl hflag
      · exact .inr (hasInvisibleUsers_setUserInvisible hnone)

theorem active_modedLoop (h : Active ch) (letters : List Change) :
    Active (modedLoop myConnect letters ch).1 := by
  induction letters generalizing ch with
  | nil => exact h
  | cons letter letters ih =>
    rw [modedLoop_cons]
    refine ih ?_
    obtain ⟨heq, -, -⟩ | ⟨user, -, ⟨heq, -⟩ | ⟨add, heq, -⟩⟩ :=
      modedLetter_cases myConnect ch letter
    · rw [heq]
      exact h
    · rw [heq]
      exact active_announce h user
    · rw [heq]
      exact active_announce h user

theorem members_modedUpdate (line : List Change) :
    (modedUpdate ch line).members = ch.members := by
  unfold modedUpdate
  split
  · rfl
  · split <;> rfl

theorem modedUpdate_of_flag (h : (ch.delayed || ch.postDelayed) = true)
    (line : List Change) :
    ((modedUpdate ch line).delayed || (modedUpdate ch line).postDelayed) =
      true := by
  unfold modedUpdate
  rw [if_neg]
  · split
    case isTrue hboth => simp [(Bool.and_eq_true_iff.mp hboth).1]
    case isFalse => exact h
  · intro hall
    simp only [Bool.and_eq_true, Bool.not_eq_true'] at hall
    simp [hall.1.1.2, hall.1.2] at h

/-- A line that the module looks at has the effect of its letters. -/
theorem modedChanmode_of_active (h : Active ch) (line : List Change) :
    SameEffect (modedChanmode myConnect ch line) (modedLoop myConnect line ch) ∧
      Active (modedChanmode myConnect ch line).1 := by
  have hmembers := @members_modedUpdate ch line
  unfold modedChanmode
  simp only
  rcases h with hflag | hnone
  · rw [if_pos (modedUpdate_of_flag hflag line)]
    exact ⟨modedLoop_congr hmembers line,
      active_modedLoop (.inl (modedUpdate_of_flag hflag line)) line⟩
  · have hnone' : (modedUpdate ch line).hasInvisibleUsers = false := by
      unfold Channel.hasInvisibleUsers at hnone ⊢
      rw [hmembers]
      exact hnone
    rw [modedLoop_of_no_invisible hnone' line, modedLoop_of_no_invisible hnone line,
      ite_self]
    exact ⟨⟨hmembers, rfl⟩, .inr hnone'⟩

theorem hookLines_of_active (h : Active ch) (lines : List (List Change)) :
    SameEffect (hookLines myConnect lines ch)
      (modedLoop myConnect lines.flatten ch) := by
  induction lines generalizing ch with
  | nil => exact ⟨rfl, rfl⟩
  | cons line lines ih =>
    obtain ⟨⟨hmembers, hout⟩, hactive⟩ :=
      @modedChanmode_of_active myConnect ch h line
    obtain ⟨hmembers', hout'⟩ := ih hactive
    obtain ⟨hmembers'', hout''⟩ :=
      @modedLoop_congr myConnect _ _ hmembers lines.flatten
    rw [flatten_cons, modedLoop_append, hookLines]
    exact ⟨hmembers'.trans hmembers'', by simp only [hout, hout', hout'']⟩

/-- The letters that the module looks at: without +D and +d it waits for the
line that takes +D away. -/
def hookedLetters (ch : Channel) (lines : List (List Change)) : List Change :=
  if ch.delayed || ch.postDelayed then lines.flatten
  else (lines.dropWhile fun line => !modedParsemode line).flatten

theorem hookLines_effect (lines : List (List Change)) :
    SameEffect (hookLines myConnect lines ch)
      (modedLoop myConnect (hookedLetters ch lines) ch) := by
  unfold hookedLetters
  split
  case isTrue hflag => exact hookLines_of_active (.inl hflag) lines
  case isFalse hflag =>
    simp only [Bool.or_eq_true, not_or, Bool.not_eq_true] at hflag
    obtain ⟨hdelayed, hpost⟩ := hflag
    induction lines with
    | nil => exact ⟨rfl, rfl⟩
    | cons line lines ih =>
      by_cases hline : modedParsemode line = true
      · rw [dropWhile_cons_of_neg (by simpa using hline)]
        by_cases hinv : ch.hasInvisibleUsers = true
        · -- The mode +d that the line brings is there from its start.
          have hsame : hookLines myConnect (line :: lines) ch =
              hookLines myConnect (line :: lines) { ch with postDelayed := true } := by
            have hupdate : modedUpdate ch line =
                modedUpdate { ch with postDelayed := true } line := by
              unfold modedUpdate
              rw [if_pos (by simp [hline, hdelayed, hpost, hinv]),
                if_neg (by simp), if_neg (by simp [hdelayed])]
            rw [hookLines, hookLines, modedChanmode, modedChanmode, hupdate]
          rw [hsame]
          obtain ⟨hmembers, hout⟩ := @hookLines_of_active myConnect
            { ch with postDelayed := true } (.inl (by simp)) (line :: lines)
          obtain ⟨hmembers', hout'⟩ := @modedLoop_congr myConnect
            { ch with postDelayed := true } ch rfl (line :: lines).flatten
          exact ⟨hmembers.trans hmembers', hout.trans hout'⟩
        · exact hookLines_of_active (.inr (by simpa using hinv)) (line :: lines)
      · rw [dropWhile_cons_of_pos (by simpa using hline)]
        have hsame : modedChanmode myConnect ch line = (ch, []) := by
          simp [modedChanmode, modedUpdate, hline, hdelayed, hpost]
        rw [hookLines, hsame]
        exact ih

end UnrealIrcd.DelayJoin
