import UnrealIrcd.Watch.Consistency
import UnrealIrcd.Support.CString
import UnrealIrcd.Support.Runs

/-!
# The WATCH and MONITOR commands

Both commands keep their nicks in the one watch table and tell their links apart
by a type flag.  Removals and notifications look at the flag; `watch_add` does
not: it makes no second link for a client and a nick.  A nick that a client
already has through one command is therefore not added by the other, and the
client misses the notifications of the second command.

The commands are split into the operations on single nicks that they carry out
one after the other.
-/

namespace UnrealIrcd.Watch

open Support

/-! ## The commands -/

/-- The two users of the table. -/
inductive Kind where
  | watch
  | monitor
deriving DecidableEq, Repr

/-- `WATCH_FLAG_TYPE_WATCH` and `WATCH_FLAG_TYPE_MONITOR`. -/
def Kind.flag : Kind → Flags
  | .watch => 1
  | .monitor => 2

def Kind.other : Kind → Kind
  | .watch => .monitor
  | .monitor => .watch

/-- `WATCH_FLAG_AWAYNOTIFY`. -/
def awayNotifyFlag : Flags := 256

def maxWatch : ℤ := 128

/-- What the commands do to the table: one nick added or removed, the list
cleared, or the client gone. -/
inductive Op where
  | add (kind : Kind) (name : List Char) (awaynotify : Bool)
  | del (kind : Kind) (name : List Char)
  | clear (kind : Kind)
  | quit
deriving DecidableEq, Repr

/-- The loop of `cmd_watch` over the words of the request.  Lists and status
reports (`L`, `S`) change nothing. -/
def watchOps (awayNotification : Bool) : Bool → List (List Char) → List Op
  | _, [] => []
  | awaynotify, word :: words =>
    let s := word.takeWhile (fun c => c != '!')
    let awaynotify := awaynotify || (s = ['A'] && awayNotification)
    match s with
    | '+' :: name =>
      if name.isEmpty then watchOps awayNotification awaynotify words
      else .add .watch name awaynotify ::
        watchOps awayNotification awaynotify words
    | '-' :: name =>
      if name.isEmpty then watchOps awayNotification awaynotify words
      else .del .watch name :: watchOps awayNotification awaynotify words
    | 'C' :: _ => .clear .watch :: watchOps awayNotification awaynotify words
    | 'c' :: _ => .clear .watch :: watchOps awayNotification awaynotify words
    | _ => watchOps awayNotification awaynotify words

/-- `cmd_monitor`; `parv1` and `parv2` are the parameters that were given. -/
def monitorOps (parv1 parv2 : Option (List Char)) : List Op :=
  match parv1 with
  | none => []
  | some [] => []
  | some (cmd :: _) =>
    if cmd.toLower = 'c' then [.clear .monitor]
    else if cmd = '-' then
      (strtokens (fun c => c = ',') ((parv2.getD []).take 511)).map
        (fun s => .del .monitor s)
    else if cmd = '+' then
      (strtokens (fun c => c = ',') ((parv2.getD []).take 511)).map
        (fun s => .add .monitor s false)
    else []

inductive Command where
  | watch (request : List Char)
  | monitor (parv1 parv2 : Option (List Char))
  | quit
deriving DecidableEq, Repr

/-- `awayNotification` is `WATCH_AWAY_NOTIFICATION` of the configuration. -/
def Command.ops (awayNotification : Bool) : Command → List Op
  | .watch request =>
    watchOps awayNotification false
      (strtokens (fun c => c = ' ') (request.take 511))
  | .monitor parv1 parv2 => monitorOps parv1 parv2
  | .quit => [.quit]

/-- What the commands are given from outside: the case folding, `do_nick_name`
(the nick cut at its first bad character, none if nothing is left), and where
the allocator would put a header. -/
structure Env where
  casing : Casing
  doNickName : List Char → Option Nick
  hint : State → WatchPtr

def linkFlags (kind : Kind) (awaynotify : Bool) : Flags :=
  kind.flag ||| (if awaynotify then awayNotifyFlag else 0)

/-- One operation of a client on the table. -/
def stepOp (E : Env) (S : State) (client : ClientId) : Op → Option State
  | .add kind name awaynotify =>
    match E.doNickName name with
    | none => some S
    | some nick =>
      if maxWatch ≤ S.watches client then some S
      else some (watchAdd E.casing S (E.hint S) nick client
        (linkFlags kind awaynotify))
  | .del kind name => some (watchDel E.casing S name client kind.flag)
  | .clear kind => watchDelList E.casing S client kind.flag
  | .quit => watchDelList E.casing S client 0

/-- The operations of a run, each with its client. -/
def opsOf (awayNotification : Bool) (commands : List (ClientId × Command)) :
    List (ClientId × Op) :=
  commands.flatMap fun e => (e.2.ops awayNotification).map fun op => (e.1, op)

def runOps (E : Env) (ops : List (ClientId × Op)) : Option State :=
  ops.foldl (fun S e => S.bind fun S => stepOp E S e.1 e.2) (some State.init)

/-- `watch_check` with `watch_notification` or `monitor_notification`: the
clients that are told about the nick. -/
def notified (C : Casing) (S : State) (kind : Kind) (nick : Nick) :
    List ClientId :=
  ((watchersOf C S nick).filter
    (fun lp => lp.flags &&& kind.flag ≠ 0)).map Link.value

/-! ## What a client asked for -/

/-- The nicks, folded, that the client has added by the command of the kind and
not removed since. -/
def wantedStep (E : Env) (client : ClientId) (kind : Kind)
    (W : Set (List Char)) : ClientId × Op → Set (List Char)
  | (c, .add k name _) =>
    if c = client ∧ k = kind then
      W ∪ {key | ∃ nick, E.doNickName name = some nick ∧
        key = E.casing.key nick}
    else W
  | (c, .del k name) =>
    if c = client ∧ k = kind then W \ {E.casing.key name} else W
  | (c, .clear k) => if c = client ∧ k = kind then ∅ else W
  | (c, .quit) => if c = client then ∅ else W

def wanted (E : Env) (client : ClientId) (kind : Kind)
    (ops : List (ClientId × Op)) : Set (List Char) :=
  ops.foldl (wantedStep E client kind) ∅

/-- The client gets exactly the notifications that it asked for, from either
command. -/
def Served (E : Env) (client : ClientId) (ops : List (ClientId × Op)) : Prop :=
  ∃ S, runOps E ops = some S ∧ ∀ kind nick,
    client ∈ notified E.casing S kind nick ↔
      E.casing.key nick ∈ wanted E client kind ops

/-! ## One operation -/

variable {client : ClientId}

section Step

variable {E : Env} {S : State}

/-- The invariant of the runs: the links are those that the commands make. -/
structure OpInv (E : Env) (S : State) : Prop where
  inv : Inv E.casing S
  typed : ∀ key c f, S.Links E.casing key c f →
    ∃ kind awaynotify, f = linkFlags kind awaynotify

theorem linkFlags_and_flag (kind k : Kind) (awaynotify : Bool) :
    (linkFlags kind awaynotify &&& k.flag = k.flag ↔ kind = k) ∧
      (linkFlags kind awaynotify &&& k.flag ≠ 0 ↔ kind = k) := by
  cases kind <;> cases k <;> cases awaynotify <;> decide

/-- The client has the nick through the command of the kind. -/
def State.Has (C : Casing) (S : State) (client : ClientId) (kind : Kind)
    (key : List Char) : Prop :=
  ∃ awaynotify, S.Links C key client (linkFlags kind awaynotify)

theorem OpInv.mem_notified (hinv : OpInv E S) {kind : Kind} {nick : Nick} :
    client ∈ notified E.casing S kind nick ↔
      S.Has E.casing client kind (E.casing.key nick) := by
  simp only [notified, List.mem_map, List.mem_filter, decide_eq_true_eq]
  constructor
  · rintro ⟨⟨c, f⟩, ⟨hmem, hflag⟩, rfl⟩
    rw [mem_watchersOf hinv.inv] at hmem
    obtain ⟨k, awaynotify, rfl⟩ := hinv.typed _ _ _ hmem
    obtain rfl := (linkFlags_and_flag k kind awaynotify).2.mp hflag
    exact ⟨awaynotify, hmem⟩
  · rintro ⟨awaynotify, hlink⟩
    refine ⟨⟨client, linkFlags kind awaynotify⟩, ⟨?_, ?_⟩, rfl⟩
    · exact (mem_watchersOf hinv.inv).mpr hlink
    · exact (linkFlags_and_flag kind kind awaynotify).2.mpr rfl

theorem OpInv.has_unique (hinv : OpInv E S) {k k' : Kind} {key : List Char}
    (h : S.Has E.casing client k key) (h' : S.Has E.casing client k' key) :
    k = k' := by
  obtain ⟨a, hlink⟩ := h
  obtain ⟨a', hlink'⟩ := h'
  have hflags := hinv.inv.links_unique hlink hlink'
  have hself := (linkFlags_and_flag k k a).1.mpr rfl
  rw [hflags] at hself
  exact ((linkFlags_and_flag k' k a').1.mp hself).symm

theorem stepOp_add (hinv : OpInv E S) (c : ClientId) (k : Kind)
    (name : List Char) (a : Bool) :
    ∃ S', stepOp E S c (.add k name a) = some S' ∧ OpInv E S' ∧
      ∀ client kind key, S'.Has E.casing client kind key ↔
        S.Has E.casing client kind key ∨ (client = c ∧ kind = k ∧
          (∃ nick, E.doNickName name = some nick ∧ key = E.casing.key nick) ∧
          S.watches c < maxWatch ∧ ∀ k', ¬ S.Has E.casing client k' key) := by
  simp only [stepOp]
  cases hnick : E.doNickName name with
  | none => exact ⟨S, rfl, hinv, fun _ _ _ => by simp⟩
  | some nick =>
    by_cases hmax : maxWatch ≤ S.watches c
    · refine ⟨S, if_pos hmax, hinv, fun _ _ _ => ?_⟩
      simp [not_lt.mpr hmax]
    have hlinks := links_watchAdd hinv.inv (E.hint S) nick c (linkFlags k a)
    refine ⟨_, if_neg hmax,
      ⟨hinv.inv.watchAdd (E.hint S) nick c (linkFlags k a), ?_⟩, ?_⟩
    · intro key client f h
      rcases (hlinks key client f).mp h with h | ⟨-, -, rfl, -⟩
      · exact hinv.typed key client f h
      · exact ⟨k, a, rfl⟩
    intro client kind key
    constructor
    · rintro ⟨a', h⟩
      rcases (hlinks key client _).mp h with h | ⟨hkey, hc, hflags, hno⟩
      · exact .inl ⟨a', h⟩
      · refine .inr ⟨hc, ?_, ⟨nick, rfl, hkey⟩, not_le.mp hmax, ?_⟩
        · have hself := (linkFlags_and_flag kind kind a').1.mpr rfl
          rw [hflags] at hself
          exact ((linkFlags_and_flag k kind a).1.mp hself).symm
        · rintro k' ⟨a'', h'⟩
          exact hno _ h'
    · rintro (⟨a', h⟩ | ⟨hc, rfl, ⟨nick', hnick', hkey⟩, -, hno⟩)
      · exact ⟨a', (hlinks key client _).mpr (.inl h)⟩
      · cases hnick'
        refine ⟨a, (hlinks key client _).mpr (.inr ⟨hkey, hc, rfl, ?_⟩)⟩
        intro f' h'
        obtain ⟨k', a', rfl⟩ := hinv.typed key client f' h'
        exact hno k' ⟨a', h'⟩

/-- What is left after a removal of links: both commands' types stay apart. -/
theorem OpInv.removal (hinv : OpInv E S) {S' : State} (hinv' : Inv E.casing S')
    {gone : List Char → ClientId → Flags → Prop}
    (hlinks : ∀ key c f, S'.Links E.casing key c f ↔
      S.Links E.casing key c f ∧ ¬ gone key c f)
    {goneKind : List Char → ClientId → Kind → Prop}
    (hgone : ∀ key c kind a,
      gone key c (linkFlags kind a) ↔ goneKind key c kind) :
    OpInv E S' ∧ ∀ client kind key, S'.Has E.casing client kind key ↔
      S.Has E.casing client kind key ∧ ¬ goneKind key client kind := by
  refine ⟨⟨hinv', fun key c f h => ?_⟩, fun client kind key => ?_⟩
  · exact hinv.typed key c f ((hlinks key c f).mp h).1
  · unfold State.Has
    simp only [hlinks, hgone, exists_and_right]

/-- The nicks that a removal takes off the list of its client. -/
def Op.Removes (E : Env) (key : List Char) (kind : Kind) : Op → Prop
  | .add _ _ _ => False
  | .del k name => key = E.casing.key name ∧ kind = k
  | .clear k => kind = k
  | .quit => True

theorem stepOp_remove (hinv : OpInv E S) (c : ClientId) (op : Op)
    (hop : ∀ k name a, op ≠ .add k name a) :
    ∃ S', stepOp E S c op = some S' ∧ OpInv E S' ∧
      ∀ client kind key, S'.Has E.casing client kind key ↔
        S.Has E.casing client kind key ∧
          ¬ (client = c ∧ op.Removes E key kind) := by
  cases op with
  | add k name a => exact absurd rfl (hop k name a)
  | del k name =>
    refine ⟨_, rfl, hinv.removal (hinv.inv.watchDel name c k.flag)
      (links_watchDel hinv.inv name c k.flag) fun key client kind a => ?_⟩
    rw [(linkFlags_and_flag kind k a).1]
    exact and_left_comm
  | clear k =>
    obtain ⟨S', hS', hinv', hlinks⟩ := watchDelList_spec hinv.inv c k.flag
    exact ⟨S', hS', hinv.removal hinv' hlinks fun _ _ kind a => by
      rw [(linkFlags_and_flag kind k a).1]
      rfl⟩
  | quit =>
    obtain ⟨S', hS', hinv', hlinks⟩ := watchDelList_spec hinv.inv c 0
    exact ⟨S', hS', hinv.removal hinv' hlinks fun _ _ _ _ => by
      simp [Op.Removes]⟩

theorem stepOp_inv (hinv : OpInv E S) (c : ClientId) (op : Op) :
    ∃ S', stepOp E S c op = some S' ∧ OpInv E S' := by
  have hremove := stepOp_remove hinv c op
  cases op with
  | add k name a =>
    obtain ⟨S', hS', hinv', -⟩ := stepOp_add hinv c k name a
    exact ⟨S', hS', hinv'⟩
  | del k name | clear k | quit =>
    obtain ⟨S', hS', hinv', -⟩ := hremove nofun
    exact ⟨S', hS', hinv'⟩

/-- The client has on its list what it asked for. -/
def Agree (E : Env) (client : ClientId) (S : State)
    (W : Kind → Set (List Char)) : Prop :=
  ∀ kind nick, S.Has E.casing client kind (E.casing.key nick) ↔
    E.casing.key nick ∈ W kind

/-- The operation adds no nick that the client has through the other command,
and does not find the list full. -/
def AddsFree (E : Env) (client : ClientId) (S : State)
    (W : Kind → Set (List Char)) : ClientId × Op → Prop
  | (c, .add k name _) => c = client → ∀ nick, E.doNickName name = some nick →
      E.casing.key nick ∈ W k ∨
        (E.casing.key nick ∉ W k.other ∧ S.watches client < maxWatch)
  | _ => True

theorem Kind.eq_or_other (k kind : Kind) : kind = k ∨ kind = k.other := by
  cases k <;> cases kind <;> decide

theorem Kind.ne_other (k : Kind) : k ≠ k.other := by
  cases k <;> decide

/-- An operation keeps the agreement exactly if it adds freely. -/
theorem agree_stepOp_iff {W : Kind → Set (List Char)} (hinv : OpInv E S)
    (hagree : Agree E client S W) (e : ClientId × Op) {S' : State}
    (hS' : stepOp E S e.1 e.2 = some S') :
    Agree E client S' (fun kind => wantedStep E client kind (W kind) e) ↔
      AddsFree E client S W e := by
  obtain ⟨c, op⟩ := e
  have hremove := stepOp_remove hinv c op
  cases op with
  | add k name a =>
    obtain ⟨T, hT, -, hhas⟩ := stepOp_add hinv c k name a
    cases hT.symm.trans hS'
    constructor
    · intro hagree' hc nick hnick
      subst hc
      have hnow : E.casing.key nick ∈ wantedStep E c k (W k) (c, .add k name a) := by
        simp only [wantedStep, and_self, if_true]
        exact .inr ⟨nick, hnick, rfl⟩
      rcases (hhas c k _).mp ((hagree' k nick).mpr hnow) with h |
        ⟨-, -, -, hbelow, hno⟩
      · exact .inl ((hagree k nick).mp h)
      · exact .inr ⟨fun h => hno _ ((hagree k.other nick).mpr h), hbelow⟩
    · intro hfree kind nick
      rw [hhas]
      by_cases hown : c = client ∧ k = kind
      · obtain ⟨rfl, rfl⟩ := hown
        simp only [wantedStep, and_self, if_true, true_and]
        rw [Set.mem_union, hagree k nick]
        refine or_congr_right' fun hnot => ?_
        refine and_iff_left_of_imp ?_
        rintro ⟨n, hn, hkey⟩
        obtain hmem | ⟨hother, hbelow⟩ := hfree rfl n hn
        · exact absurd (hkey ▸ hmem) hnot
        · refine ⟨hbelow, fun k' h => ?_⟩
          have hmem := (hagree k' nick).mp h
          rcases Kind.eq_or_other k k' with rfl | rfl
          · exact hnot hmem
          · exact hother (hkey ▸ hmem)
      · simp only [wantedStep, if_neg hown]
        rw [← hagree kind nick]
        refine or_iff_left ?_
        rintro ⟨rfl, rfl, -⟩
        exact hown ⟨rfl, rfl⟩
  | del k name | clear k | quit =>
    obtain ⟨T, hT, -, hhas⟩ := hremove nofun
    cases hT.symm.trans hS'
    refine iff_of_true (fun kind nick => ?_) trivial
    rw [hhas, hagree kind nick]
    simp only [wantedStep, Op.Removes]
    split <;> grind

end Step

/-! ## Runs -/

section Runs

variable {E : Env} {client : ClientId}

/-- The run of the table beside the account of what the client asked for. -/
def pairStep (E : Env) (client : ClientId)
    (s : Option State × (Kind → Set (List Char))) (e : ClientId × Op) :
    Option State × (Kind → Set (List Char)) :=
  (s.1.bind fun S => stepOp E S e.1 e.2,
    fun kind => wantedStep E client kind (s.2 kind) e)

theorem foldl_pairStep (ops : List (ClientId × Op))
    (s : Option State × (Kind → Set (List Char))) :
    ops.foldl (pairStep E client) s =
      (ops.foldl (fun S e => S.bind fun S => stepOp E S e.1 e.2) s.1,
        fun kind => ops.foldl (wantedStep E client kind) (s.2 kind)) := by
  induction ops generalizing s with
  | nil => rfl
  | cons e ops ih => exact ih (pairStep E client s e)

theorem opInv_init : OpInv E State.init where
  inv := inv_init
  typed := by
    rintro key c f ⟨p, w, hw, -⟩
    cases hw

theorem agree_init : Agree E client State.init (fun _ => ∅) := by
  intro kind nick
  refine iff_of_false ?_ (Set.notMem_empty _)
  rintro ⟨a, p, w, hw, -⟩
  cases hw

theorem runOps_inv (ops : List (ClientId × Op)) :
    ∃ S, runOps E ops = some S ∧ OpInv E S := by
  refine foldl_invariant (I := fun s => ∃ S, s = some S ∧ OpInv E S)
    ⟨_, rfl, opInv_init⟩ ?_ ops
  rintro s e ⟨S, rfl, hinv⟩
  exact stepOp_inv hinv e.1 e.2

theorem served_iff_agree (ops : List (ClientId × Op)) :
    Served E client ops ↔ ∃ S, runOps E ops = some S ∧
      Agree E client S (fun kind => wanted E client kind ops) := by
  obtain ⟨S, hS, hinv⟩ := runOps_inv (E := E) ops
  constructor
  · rintro ⟨T, hT, hserved⟩
    cases hS.symm.trans hT
    refine ⟨S, hS, fun kind nick => ?_⟩
    rw [← hinv.mem_notified]
    exact hserved kind nick
  · rintro ⟨T, hT, hagree⟩
    cases hS.symm.trans hT
    refine ⟨S, hS, fun kind nick => ?_⟩
    rw [hinv.mem_notified]
    exact hagree kind nick

/-- The client is served after every operation exactly if every operation adds
freely. -/
theorem forall_served_iff (ops : List (ClientId × Op)) :
    (∀ done, done <+: ops → Served E client done) ↔
      ∀ done e, done ++ [e] <+: ops → ∀ S, runOps E done = some S →
        AddsFree E client S (fun kind => wanted E client kind done) e := by
  have hrun := @forall_prefix_iff _ _ (pairStep E client)
    (some State.init, fun _ => ∅)
    (fun s => ∃ S, s.1 = some S ∧ OpInv E S)
    (fun s => ∃ S, s.1 = some S ∧ Agree E client S s.2)
    (fun s e => ∀ S, s.1 = some S → AddsFree E client S s.2 e)
    ⟨_, rfl, opInv_init⟩
    (by
      rintro ⟨s, W⟩ e ⟨S, rfl, hinv⟩
      exact stepOp_inv hinv e.1 e.2)
    ⟨_, rfl, agree_init⟩
    (by
      rintro ⟨s, W⟩ e ⟨S, rfl, hinv⟩ ⟨T, hT, hagree⟩
      cases hT
      obtain ⟨S', hS', -⟩ := stepOp_inv hinv e.1 e.2
      have hiff := agree_stepOp_iff hinv hagree e hS'
      constructor
      · rintro ⟨T, hT, hagree'⟩ U hU
        cases hU
        cases hS'.symm.trans hT
        exact hiff.mp hagree'
      · intro hfree
        exact ⟨S', hS', hiff.mpr (hfree S rfl)⟩)
    ops
  simp only [foldl_pairStep] at hrun
  refine Iff.trans (forall_congr' fun done => imp_congr_right fun _ => ?_) hrun
  exact served_iff_agree done

end Runs

/-- For a client that stays below `MAXWATCH`: at every point of every
interleaving of commands it gets the MONITOR notifications for exactly the nicks
that it added by MONITOR and did not remove by MONITOR since, and likewise for
WATCH, exactly if no nick is ever added by one command while the client has it
through the other. -/
theorem served_iff_added_by_one_command (E : Env) (awayNotification : Bool)
    (client : ClientId) (commands : List (ClientId × Command))
    (hbelow : ∀ done S, done <+: opsOf awayNotification commands →
      runOps E done = some S → S.watches client < maxWatch) :
    (∀ done, done <+: opsOf awayNotification commands → Served E client done) ↔
      ∀ done kind name a nick,
        done ++ [(client, .add kind name a)] <+: opsOf awayNotification commands →
        E.doNickName name = some nick →
        E.casing.key nick ∉ wanted E client kind.other done := by
  have hrun := @forall_served_iff E client (opsOf awayNotification commands)
  constructor
  · intro hserved done kind name a nick hdone hnick hother
    obtain ⟨S, hS, hinv⟩ := runOps_inv (E := E) done
    have hbefore := (List.prefix_append _ _).trans hdone
    obtain ⟨T, hT, hagree⟩ := (served_iff_agree done).mp (hserved done hbefore)
    cases hS.symm.trans hT
    rcases hrun.mp hserved done _ hdone S hS rfl nick hnick with hown | ⟨hno, -⟩
    · exact kind.ne_other (hinv.has_unique ((hagree kind nick).mpr hown)
        ((hagree kind.other nick).mpr hother))
    · exact hno hother
  · intro hfree
    rw [hrun]
    rintro done ⟨c, op⟩ hdone S hS
    cases op with
    | add k name a =>
      rintro rfl nick hnick
      have hbefore := (List.prefix_append _ _).trans hdone
      exact .inr ⟨hfree done k name a nick hdone hnick,
        hbelow done S hbefore hS⟩
    | del k name | clear k | quit => trivial

def sampleEnv : Env where
  casing := ⟨Char.toLower, List.length⟩
  doNickName name := if name.isEmpty then none else some name
  hint _ := 0

def apartCommands : List (ClientId × Command) :=
  [(7, .watch "+bob".toList), (7, .monitor (some ['+']) (some "Carl".toList))]

def sharedCommands : List (ClientId × Command) :=
  [(7, .watch "+bob".toList), (7, .monitor (some ['+']) (some "Bob".toList))]

theorem below_of_inits {E : Env} {ops : List (ClientId × Op)}
    (h : ∀ done ∈ ops.inits,
      (runOps E done).all (fun S => S.watches client < maxWatch) = true) :
    ∀ done S, done <+: ops → runOps E done = some S →
      S.watches client < maxWatch := by
  intro done S hdone hS
  have hall := h done ((List.mem_inits done ops).mpr hdone)
  rw [hS] at hall
  simpa using hall

theorem served_apartCommands :
    (∀ done, done <+: opsOf true apartCommands → Served sampleEnv 7 done) ↔
      ∀ done kind name a nick,
        done ++ [(7, .add kind name a)] <+: opsOf true apartCommands →
        sampleEnv.doNickName name = some nick →
        sampleEnv.casing.key nick ∉ wanted sampleEnv 7 kind.other done :=
  served_iff_added_by_one_command sampleEnv true 7 apartCommands
    (below_of_inits (by decide +kernel))

/-- The second command adds nothing: nobody is told by MONITOR about Bob. -/
theorem not_served_sharedCommands :
    (∀ done S, done <+: opsOf true sharedCommands →
      runOps sampleEnv done = some S → S.watches 7 < maxWatch) ∧
    ¬ ∀ done, done <+: opsOf true sharedCommands → Served sampleEnv 7 done := by
  refine ⟨below_of_inits (by decide +kernel), fun hserved => ?_⟩
  obtain ⟨S, hS, hiff⟩ := hserved _ (List.prefix_refl _)
  have hnone : (runOps sampleEnv (opsOf true sharedCommands)).map
      (fun S => notified sampleEnv.casing S .monitor "Bob".toList) = some [] := by
    decide +kernel
  rw [hS, Option.map_some, Option.some.injEq] at hnone
  have hops : opsOf true sharedCommands =
      [(7, .add .watch "bob".toList false),
        (7, .add .monitor "Bob".toList false)] := by
    decide +kernel
  have hwanted : sampleEnv.casing.key "Bob".toList ∈
      wanted sampleEnv 7 .monitor (opsOf true sharedCommands) := by
    rw [hops]
    exact .inr ⟨"Bob".toList, rfl, rfl⟩
  have hmem := (hiff .monitor "Bob".toList).mpr hwanted
  rw [hnone] at hmem
  cases hmem

end UnrealIrcd.Watch
