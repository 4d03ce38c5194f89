import UnrealIrcd.Channels.SetMode

/-!
# What a letter of a mode string can do

One letter of a mode string changes one list, the status of one member, or the
flags and parameters of the channel.  Invariants of `set_mode` are derived from
this.
-/

namespace UnrealIrcd.Channels

open Support

inductive ModeEffect (T : ModeTable) (letter : Char) (ch : Channel) :
    Channel → Prop
  | lists (lm : ListMode) (list : List Ban) :
      ModeEffect T letter ch (ch.setList lm list)
  | addStatus {m : Member} (hm : ch.findMember m.client = some m)
      (hletter : T.IsStatus letter) (hnew : letter ∉ m.memberModes) :
      ModeEffect T letter ch
        (ch.modifyMember m.client (addMemberModeFast T · letter))
  | delStatus {m : Member} (hm : ch.findMember m.client = some m)
      (hletter : T.IsStatus letter) (hold : letter ∈ m.memberModes) :
      ModeEffect T letter ch
        (ch.modifyMember m.client (delMemberModeFast · letter))
  | modes (mode : Finset Char) (params : Char → Option ModeParam)
      (hmode : ∀ c ∈ mode, c ∈ ch.mode ∨ c = letter) :
      ModeEffect T letter ch { ch with mode := mode, params := params }

/-- The effect on the channel, and the changes that are recorded. -/
structure ModeStep (T : ModeTable) (letter : Char) (ch : Channel)
    (pvar : List ModeChange) (ch' : Channel) (pvar' : List ModeChange) :
    Prop where
  effect : ModeEffect T letter ch ch'
  pvar : ∀ x ∈ pvar', x ∈ pvar ∨ x.letter = letter

theorem ModeStep.refl (T : ModeTable) (letter : Char) (ch : Channel)
    (pvar : List ModeChange) : ModeStep T letter ch pvar ch pvar :=
  ⟨.modes ch.mode ch.params fun _ => .inl, fun _ => .inl⟩

theorem mem_doModeCharWrite {pvar : List ModeChange} {what : What}
    {letter : Char} {str : List Char} {x : ModeChange}
    (hx : x ∈ doModeCharWrite pvar what letter str) :
    x ∈ pvar ∨ x.letter = letter := by
  unfold doModeCharWrite at hx
  split at hx
  · exact .inl hx
  · rcases List.mem_append.mp hx with hx | hx
    · exact .inl hx
    · rw [List.mem_singleton.mp hx]
      exact .inr rfl

theorem length_doModeCharWrite_le (pvar : List ModeChange) (what : What)
    (letter : Char) (str : List Char) :
    (doModeCharWrite pvar what letter str).length ≤ pvar.length + 1 := by
  unfold doModeCharWrite
  split
  · exact Nat.le_succ _
  · rw [List.length_append, List.length_singleton]

theorem Channel.client_of_findMember {ch : Channel} {client : List Char}
    {m : Member} (h : ch.findMember client = some m) :
    m ∈ ch.members ∧ m.client = client :=
  ⟨List.mem_of_find?_eq_some h, by simpa using List.find?_some h⟩

section

variable (S : Server) (R : Requester)

theorem doModeCharListMode_step (what : What) (lm : ListMode) (s : ModeState) :
    ModeStep S.table lm.letter s.channel s.pvar
      (doModeCharListMode S R what lm s).channel
      (doModeCharListMode S R what lm s).pvar := by
  have hban : ∀ param, ModeEffect S.table lm.letter s.channel
      (modeBanHandler S R s.channel param what lm).1 := by
    intro param
    fun_cases modeBanHandler S R s.channel param what lm
    all_goals
      first
      | exact (ModeStep.refl _ _ _ s.pvar).effect
      | exact .lists _ _
  fun_cases doModeCharListMode S R what lm s
  · exact .refl _ _ _ _
  · exact .refl _ _ _ _
  · refine ⟨hban _, fun x hx => ?_⟩
    split at hx
    · exact .inl hx
    · exact mem_doModeCharWrite hx

theorem doModeCharMemberModeNew_step {cm : Cmode}
    (hcm : cm ∈ S.table.channelmodes) (htype : cm.type = .member)
    (what : What) (param : List Char) (ch : Channel) (pvar : List ModeChange) :
    ModeStep S.table cm.letter ch pvar
      (doModeCharMemberModeNew S R cm what param ch pvar).1
      (doModeCharMemberModeNew S R cm what param ch pvar).2 := by
  have hstatus : S.table.IsStatus cm.letter := ⟨cm, hcm, rfl, htype⟩
  unfold doModeCharMemberModeNew
  split
  · exact .refl _ _ _ _
  · next target _ =>
      split
      · exact .refl _ _ _ _
      · next member hmember =>
          obtain ⟨-, hclient⟩ := Channel.client_of_findMember hmember
          rw [← hclient] at hmember ⊢
          split
          · split
            · exact .refl _ _ _ _
            · next hnew =>
                exact ⟨.addStatus hmember hstatus hnew,
                  fun x => mem_doModeCharWrite⟩
          · split
            · exact .refl _ _ _ _
            · next hold =>
                split
                · exact .refl _ _ _ _
                · exact ⟨.delStatus hmember hstatus (not_not.mp hold),
                    fun x => mem_doModeCharWrite⟩

theorem putParam_eq (C : ParamConfig) (ch : Channel) (letter : Char)
    (param : List Char) :
    ∃ params, ch.putParam C letter param = { ch with params := params } := by
  unfold Channel.putParam
  split
  · exact ⟨ch.params, rfl⟩
  · exact ⟨_, rfl⟩

theorem freeParam_eq (C : ParamConfig) (ch : Channel) (letter : Char) :
    ∃ params, ch.freeParam C letter = { ch with params := params } := by
  unfold Channel.freeParam
  split
  · exact ⟨ch.params, rfl⟩
  · exact ⟨_, rfl⟩

theorem mem_addFlag {ch : Channel} {letter c : Char}
    (h : c ∈ (ch.addFlag letter).mode) : c ∈ ch.mode ∨ c = letter := by
  have hinsert : c ∈ insert letter ch.mode := by
    simp only [Channel.addFlag, modecharAdd] at h
    split at h
    · exact Finset.mem_of_mem_erase h
    split at h
    · exact Finset.mem_of_mem_erase h
    · exact h
  exact (Finset.mem_insert.mp hinsert).symm

theorem mem_delFlag {ch : Channel} {letter c : Char}
    (h : c ∈ (ch.delFlag letter).mode) : c ∈ ch.mode ∨ c = letter := by
  simp only [Channel.delFlag, modecharDel] at h
  split at h
  · exact .inl (Finset.mem_of_mem_erase (Finset.mem_of_mem_erase h))
  · exact .inl (Finset.mem_of_mem_erase h)

theorem addParamMode_step (cm : Cmode) (param : List Char) (ch : Channel)
    (pvar : List ModeChange) :
    ModeStep S.table cm.letter ch pvar
      (addParamMode S R cm param ch pvar).1
      (addParamMode S R cm param ch pvar).2 := by
  fun_cases addParamMode S R cm param ch pvar
  case case5 h hok morphed hconv hsame =>
    obtain ⟨params, hparams⟩ := putParam_eq S.params
      (ch.addFlag cm.letter) cm.letter morphed
    rw [hparams]
    exact ⟨.modes _ params fun c => mem_addFlag, fun x => mem_doModeCharWrite⟩
  all_goals exact .refl _ _ _ _

theorem delParamMode_step (cm : Cmode) (ch : Channel) (pvar : List ModeChange) :
    ModeStep S.table cm.letter ch pvar (delParamMode S cm ch pvar).1
      (delParamMode S cm ch pvar).2 := by
  unfold delParamMode
  split
  · exact .refl _ _ _ _
  · obtain ⟨params, hparams⟩ := freeParam_eq S.params
      (ch.delFlag cm.letter) cm.letter
    rw [hparams]
    refine ⟨.modes _ params fun c => mem_delFlag, fun x hx => ?_⟩
    split at hx
    · exact mem_doModeCharWrite hx
    · exact .inl hx

theorem doExtmodeChar_step {cm : Cmode} (hcm : cm ∈ S.table.channelmodes)
    (what : What) (s : ModeState) :
    ModeStep S.table cm.letter s.channel s.pvar
      (doExtmodeChar S R cm what s).channel
      (doExtmodeChar S R cm what s).pvar := by
  unfold doExtmodeChar
  dsimp only
  split
  · exact .refl _ _ _ _
  split
  · exact .refl _ _ _ _
  split
  · exact .refl _ _ _ _
  split
  · next htype =>
      exact doModeCharMemberModeNew_step S R hcm htype what _ _ _
  split
  · exact .refl _ _ _ _
  split
  · cases what with
    | add => exact addParamMode_step S R cm _ s.channel s.pvar
    | del => exact delParamMode_step S cm s.channel s.pvar
  · cases what with
    | add =>
      exact ⟨.modes _ s.channel.params fun c => mem_addFlag, fun x => .inl⟩
    | del =>
      exact ⟨.modes _ s.channel.params fun c => mem_delFlag, fun x => .inl⟩

theorem letter_of_ofLetter {c : Char} {lm : ListMode}
    (h : ListMode.ofLetter c = some lm) : lm.letter = c := by
  unfold ListMode.ofLetter at h
  split at h
  · next heq => cases h; exact heq.symm
  split at h
  · next heq => cases h; exact heq.symm
  split at h
  · next heq => cases h; exact heq.symm
  · cases h

theorem setModeChar_step (what : What) (c : Char) (s : ModeState) :
    ModeStep S.table c s.channel s.pvar
      (setModeChar S R what c s).channel (setModeChar S R what c s).pvar := by
  unfold setModeChar
  split
  · exact .refl _ _ _ _
  split
  · split
    · exact .refl _ _ _ _
    · exact .refl _ _ _ _
  · next lm hlm =>
      split
      · exact .refl _ _ _ _
      · rw [← letter_of_ofLetter hlm]
        exact doModeCharListMode_step S R what lm s
  · next cm _ hcm =>
      obtain ⟨hmem, rfl⟩ := S.table.findChannelModeHandler_eq_some.mp hcm
      split
      · exact .refl _ _ _ _
      · exact doExtmodeChar_step S R hmem what s

/-- A property that every letter of a mode string keeps holds after
`set_mode`. -/
theorem setMode_rule (P : Channel → List ModeChange → Prop) {modes : List Char}
    (hstep : ∀ letter ∈ modes, ∀ ch pvar ch' pvar',
      ModeStep S.table letter ch pvar ch' pvar' → P ch pvar →
        P ch' pvar') {ch : Channel} (hch : P ch []) (args : List (List Char)) :
    P (setMode S R ch modes args).1 (setMode S R ch modes args).2 := by
  have hloop : ∀ what s, P s.channel s.pvar →
      P (setModeLoop S R what modes s).channel
        (setModeLoop S R what modes s).pvar := by
    induction modes with
    | nil => exact fun what s hs => hs
    | cons c modes ih =>
      intro what s hs
      have ih := ih fun letter hletter =>
        hstep letter (List.mem_cons_of_mem c hletter)
      rw [setModeLoop]
      split
      · exact ih .add s hs
      split
      · exact ih .del s hs
      · exact ih what _ (hstep c List.mem_cons_self _ _ _ _
          (setModeChar_step S R what c s) hs)
  exact hloop .add _ hch

end

end UnrealIrcd.Channels
