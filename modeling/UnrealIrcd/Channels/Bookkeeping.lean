import Mathlib.Data.Int.Notation
import Mathlib.Data.List.Nodup

/-!
# Members of channels

A channel has a list of its members and counts them, and a user has a list of the
channels and counts these.  `add_user_to_channel` and
`remove_user_from_channel_withmb` change both lists and both counters, and
`sub1_from_channel` destroys a channel that has become empty.  The status of the
members and the list of the local ones are left out.
-/

namespace UnrealIrcd.Channels.Bookkeeping

open List

abbrev ClientId := ℕ

/-- A channel by its name, in lower case. -/
abbrev ChannelName := List Char

structure Channel where
  members : List ClientId
  users : ℤ
  deriving DecidableEq, Repr

/-- `client->user`. -/
structure User where
  channel : List ChannelName
  joined : ℤ
  deriving DecidableEq, Repr

structure State where
  channels : ChannelName → Option Channel
  user : ClientId → Option User

def State.init : State := ⟨fun _ => none, fun _ => none⟩

/-- `make_channel`: the channel with the name, or a new one. -/
def makeChannel (S : State) (name : ChannelName) : Channel :=
  (S.channels name).getD ⟨[], 0⟩

def addUserToChannel (S : State) (name : ChannelName) (channel : Channel)
    (client : ClientId) : State :=
  match S.user client with
  | none => S
  | some user =>
    ⟨Function.update S.channels name
        (some ⟨client :: channel.members, channel.users + 1⟩),
      Function.update S.user client
        (some ⟨name :: user.channel, user.joined + 1⟩)⟩

/-- `keeps` is what the hooks say about the destruction of an empty channel. -/
def sub1FromChannel (channel : Channel) (keeps : Bool) : Option Channel :=
  if 0 < channel.users - 1 then
    some { channel with users := channel.users - 1 }
  else if keeps then some { channel with users := 0 }
  else none

def removeUserFromChannelWithmb (S : State) (client : ClientId) (user : User)
    (name : ChannelName) (keeps : Bool) : State :=
  ⟨Function.update S.channels name ((S.channels name).bind fun channel =>
      sub1FromChannel { channel with members := channel.members.erase client }
        keeps),
    Function.update S.user client
      (some ⟨user.channel.erase name, user.joined - 1⟩)⟩

/-- The loop of `exit_one_client` over the channels of the client. -/
def leaveAll (client : ClientId) (keeps : ChannelName → Bool) :
    List ChannelName → State → State
  | [], S => S
  | name :: names, S =>
    match S.user client with
    | none => S
    | some user => leaveAll client keeps names
        (removeUserFromChannelWithmb S client user name (keeps name))

/-- A user is introduced, joins a channel (`do_join`), leaves it (`cmd_part`) or
quits. -/
inductive Event where
  | introduce (client : ClientId)
  | join (client : ClientId) (name : ChannelName)
  | part (client : ClientId) (name : ChannelName) (keeps : Bool)
  | quit (client : ClientId) (keeps : ChannelName → Bool)

def step (S : State) : Event → State
  | .introduce client =>
    match S.user client with
    | none => { S with user := Function.update S.user client (some ⟨[], 0⟩) }
    | some _ => S
  | .join client name =>
    match S.user client with
    | none => S
    | some user =>
      if name ∈ user.channel then S
      else addUserToChannel S name (makeChannel S name) client
  | .part client name keeps =>
    match S.user client with
    | none => S
    | some user =>
      if name ∈ user.channel then
        removeUserFromChannelWithmb S client user name keeps
      else S
  | .quit client keeps =>
    match S.user client with
    | none => S
    | some user =>
      let S := leaveAll client keeps user.channel S
      { S with user := Function.update S.user client none }

def run (events : List Event) : State := events.foldl step State.init

/-! ## The bookkeeping -/

def OnChannel (channel : Option Channel) (client : ClientId) : Prop :=
  ∃ ch, channel = some ch ∧ client ∈ ch.members

def InList (user : Option User) (name : ChannelName) : Prop :=
  ∃ u, user = some u ∧ name ∈ u.channel

/-- The counters count, no list has an entry twice, and the two kinds of lists
mirror each other. -/
structure Bookkept (S : State) : Prop where
  users : ∀ name channel, S.channels name = some channel →
    channel.users = channel.members.length ∧ channel.members.Nodup
  joined : ∀ client user, S.user client = some user →
    user.joined = user.channel.length ∧ user.channel.Nodup
  mirror : ∀ name client,
    OnChannel (S.channels name) client ↔ InList (S.user client) name

/-- The client leaves the channel, and no hook keeps an empty one. -/
def Event.Leaves (client : ClientId) (name : ChannelName) : Event → Prop
  | .part c n keeps => c = client ∧ n = name ∧ keeps = false
  | .quit c keeps => c = client ∧ keeps name = false
  | _ => False

variable {S : State} {client : ClientId} {name : ChannelName} {user : User}
  {channel : Channel}

/-- One channel and one user are changed, so that they still agree. -/
theorem Bookkept.change (hS : Bookkept S) {ch : Option Channel}
    {u : Option User}
    (hch : ∀ c, ch = some c → c.users = c.members.length ∧ c.members.Nodup)
    (hu : ∀ v, u = some v → v.joined = v.channel.length ∧ v.channel.Nodup)
    (hself : OnChannel ch client ↔ InList u name)
    (hclients : ∀ c ≠ client, OnChannel ch c ↔ OnChannel (S.channels name) c)
    (hnames : ∀ n ≠ name, InList u n ↔ InList (S.user client) n) :
    Bookkept ⟨Function.update S.channels name ch,
      Function.update S.user client u⟩ := by
  refine ⟨fun n c hn => ?_, fun c v hc => ?_, fun n c => ?_⟩
  · by_cases h : n = name
    · subst h
      exact hch c (by simpa using hn)
    · exact hS.users n c (by simpa [h] using hn)
  · by_cases h : c = client
    · subst h
      exact hu v (by simpa using hc)
    · exact hS.joined c v (by simpa [h] using hc)
  · by_cases hn : n = name
    · subst hn
      by_cases hc : c = client
      · subst hc
        simpa using hself
      · simpa [hc, hclients c hc] using hS.mirror n c
    · by_cases hc : c = client
      · subst hc
        simpa [hn, hnames n hn] using hS.mirror n c
      · simpa [hn, hc] using hS.mirror n c

theorem Bookkept.setUser (hS : Bookkept S)
    (hold : ∀ n, ¬ InList (S.user client) n) {u : Option User}
    (hu : ∀ v, u = some v → v = ⟨[], 0⟩) :
    Bookkept ⟨S.channels, Function.update S.user client u⟩ := by
  have hnew : ∀ n, ¬ InList u n := by
    rintro n ⟨v, rfl, hmem⟩
    rw [hu v rfl] at hmem
    cases hmem
  have hchange := @Bookkept.change S client [] hS (S.channels []) u
    (fun c hc => hS.users [] c hc) (fun v hv => by simp [hu v hv])
    (by rw [hS.mirror]; exact iff_of_false (hold _) (hnew _)) (fun _ _ => .rfl)
    (fun n _ => iff_of_false (hnew n) (hold n))
  rwa [Function.update_eq_self] at hchange

theorem bookkept_add (hS : Bookkept S) (huser : S.user client = some user)
    (hname : name ∉ user.channel) :
    Bookkept (addUserToChannel S name (makeChannel S name) client) := by
  have hnot : ¬ OnChannel (S.channels name) client := by
    rw [hS.mirror, huser]
    simpa [InList] using hname
  obtain ⟨hjoined, hnodup⟩ := hS.joined client user huser
  have hmake : (makeChannel S name).users = (makeChannel S name).members.length ∧
      (makeChannel S name).members.Nodup ∧
      ∀ c, c ∈ (makeChannel S name).members ↔ OnChannel (S.channels name) c := by
    unfold makeChannel OnChannel
    cases hch : S.channels name with
    | none => simp
    | some channel =>
      obtain ⟨husers, hmembers⟩ := hS.users name channel hch
      simp [husers, hmembers]
  obtain ⟨husers, hmembers, hmem⟩ := hmake
  rw [addUserToChannel, huser]
  refine hS.change ?_ ?_ ?_ ?_ ?_
  · rintro _ ⟨⟩
    exact ⟨by simp [husers], nodup_cons.mpr ⟨by rwa [hmem], hmembers⟩⟩
  · rintro _ ⟨⟩
    exact ⟨by simp [hjoined], nodup_cons.mpr ⟨hname, hnodup⟩⟩
  · simp [OnChannel, InList]
  · intro c hc
    rw [← hmem]
    simp [OnChannel, hc]
  · intro n hn
    simp [InList, huser, hn]

/-- What is left of a channel without one of its members. -/
theorem sub1FromChannel_spec
    (h : channel.users = channel.members.length ∧ channel.members.Nodup)
    (hclient : client ∈ channel.members) (keeps : Bool) {r : Option Channel}
    (hr : r = sub1FromChannel
      { channel with members := channel.members.erase client } keeps) :
    (∀ c, r = some c → c.users = c.members.length ∧ c.members.Nodup) ∧
      (∀ c, OnChannel r c ↔ c ∈ channel.members ∧ c ≠ client) ∧
      (r = none ↔ channel.members = [client] ∧ keeps = false) := by
  obtain ⟨husers, hnodup⟩ := h
  have hlen := length_erase_of_mem hclient
  have hpos := length_pos_of_mem hclient
  have hmem : ∀ c, c ∈ channel.members.erase client ↔
      c ∈ channel.members ∧ c ≠ client := fun c => by
    rw [hnodup.mem_erase_iff, and_comm]
  have hone : channel.members = [client] ↔ channel.members.length = 1 := by
    refine ⟨fun h => by rw [h]; rfl, fun h => ?_⟩
    obtain ⟨c, hc⟩ := length_eq_one_iff.mp h
    rw [hc, mem_singleton] at hclient
    rw [hc, hclient]
  rw [hone]
  simp only [sub1FromChannel, husers] at hr
  split at hr
  case isTrue hmany =>
    subst hr
    refine ⟨?_, by simp [OnChannel, hmem], iff_of_false nofun (by omega)⟩
    rintro _ ⟨⟩
    exact ⟨by dsimp only; omega, hnodup.erase client⟩
  case isFalse hlast =>
    have hnil : channel.members.erase client = [] :=
      length_eq_zero_iff.mp (by omega)
    have hnone : ∀ c, ¬ (c ∈ channel.members ∧ c ≠ client) := fun c => by
      rw [← hmem, hnil]
      exact not_mem_nil
    split at hr
    case isTrue hkeeps =>
      subst hr
      refine ⟨?_, by simp [OnChannel, hnil, hnone], by simp [hkeeps]⟩
      rintro _ ⟨⟩
      simp [hnil]
    case isFalse hkeeps =>
      subst hr
      refine ⟨nofun, fun c => iff_of_false ?_ (hnone c), ?_⟩
      · rintro ⟨_, ⟨⟩, -⟩
      · exact iff_of_true rfl ⟨by omega, by simpa using hkeeps⟩

theorem remove_spec (hS : Bookkept S) (huser : S.user client = some user)
    (hname : name ∈ user.channel) (keeps : Bool) :
    let S' := removeUserFromChannelWithmb S client user name keeps
    Bookkept S' ∧ (∀ ch, S.channels name = some ch →
      (S'.channels name = none ↔ ch.members = [client] ∧ keeps = false)) := by
  obtain ⟨channel, hch, hclient⟩ :=
    (hS.mirror name client).mpr ⟨user, huser, hname⟩
  obtain ⟨hcount, hon, hgone⟩ :=
    sub1FromChannel_spec (hS.users name channel hch) hclient keeps rfl
  obtain ⟨hjoined, hnodup⟩ := hS.joined client user huser
  have hlen := length_erase_of_mem hname
  have hpos := length_pos_of_mem hname
  simp only [removeUserFromChannelWithmb, hch, Option.bind_some]
  refine ⟨hS.change hcount ?_ ?_ ?_ ?_, ?_⟩
  · rintro _ ⟨⟩
    exact ⟨by simp only; omega, hnodup.erase name⟩
  · refine iff_of_false (by simp [hon]) ?_
    simp [InList, hnodup.mem_erase_iff]
  · intro c hc
    rw [hon]
    simp [OnChannel, hch, hc]
  · intro n hn
    simp [InList, huser, hnodup.mem_erase_iff, hn]
  · rintro ch ⟨⟩
    simpa using hgone

theorem leaveAll_channels {keeps : ChannelName → Bool} {names : List ChannelName}
    (hname : name ∉ names) (S : State) :
    (leaveAll client keeps names S).channels name = S.channels name := by
  induction names generalizing S with
  | nil => rfl
  | cons n names ih =>
    rw [mem_cons, not_or] at hname
    unfold leaveAll
    split
    case h_1 => rfl
    case h_2 user _ =>
      rw [ih hname.2]
      simp [removeUserFromChannelWithmb, hname.1]

theorem leaveAll_spec (keeps : ChannelName → Bool) {names : List ChannelName}
    (hS : Bookkept S) (huser : S.user client = some user)
    (hnames : user.channel = names) :
    let S' := leaveAll client keeps names S
    Bookkept S' ∧ (∀ n, ¬ InList (S'.user client) n) ∧
      ∀ n ch, S.channels n = some ch → (S'.channels n = none ↔
        ch.members = [client] ∧ keeps n = false) := by
  induction names generalizing S user with
  | nil =>
    have hnone : ∀ n, ¬ InList (S.user client) n := by
      simp [InList, huser, hnames]
    refine ⟨hS, hnone, fun n ch hch => iff_of_false ?_ ?_⟩
    · simp [leaveAll, hch]
    · rintro ⟨hmembers, -⟩
      refine hnone n ((hS.mirror n client).mp ⟨ch, hch, ?_⟩)
      simp [hmembers]
  | cons name names ih =>
    have hmem : name ∈ user.channel := by simp [hnames]
    have hnodup := (hS.joined client user huser).2
    rw [hnames, nodup_cons] at hnodup
    obtain ⟨hS', hgone⟩ := remove_spec hS huser hmem (keeps name)
    obtain ⟨hbook, hempty, hrest⟩ := @ih
      (removeUserFromChannelWithmb S client user name (keeps name))
      ⟨user.channel.erase name, user.joined - 1⟩ hS'
      (by simp [removeUserFromChannelWithmb]) (by simp [hnames])
    simp only [leaveAll, huser]
    refine ⟨hbook, hempty, fun n ch hch => ?_⟩
    by_cases hn : n = name
    · subst hn
      rw [leaveAll_channels hnodup.1]
      exact hgone ch hch
    · exact hrest n ch (by simpa [removeUserFromChannelWithmb, hn] using hch)

/-! ## Runs -/

theorem step_spec (hS : Bookkept S) (e : Event) :
    Bookkept (step S e) ∧ ∀ name ch, S.channels name = some ch →
      ((step S e).channels name = none ↔
        ∃ client, ch.members = [client] ∧ e.Leaves client name) := by
  have hother : ∀ {client n ch}, S.channels n = some ch →
      ch.members = [client] → InList (S.user client) n := fun hch hone =>
    (hS.mirror _ _).mp ⟨_, hch, by simp [hone]⟩
  -- an event without effect takes nobody off a channel
  have hsame : (∀ client name, e.Leaves client name →
        ¬ InList (S.user client) name) →
      Bookkept S ∧ ∀ name ch, S.channels name = some ch →
        (S.channels name = none ↔
          ∃ client, ch.members = [client] ∧ e.Leaves client name) := by
    refine fun hnot => ⟨hS, fun name ch hch => iff_of_false (by simp [hch]) ?_⟩
    rintro ⟨client, hone, hleaves⟩
    exact hnot client name hleaves (hother hch hone)
  cases e with
  | introduce client =>
    simp only [step]
    split
    case h_1 hnone =>
      refine ⟨hS.setUser (by simp [InList, hnone]) (by simp), ?_⟩
      exact fun name ch hch => by simp [Event.Leaves, hch]
    case h_2 => exact hsame nofun
  | join client name =>
    simp only [step]
    split
    case h_1 => exact hsame nofun
    case h_2 user huser =>
      split
      case isTrue => exact hsame nofun
      case isFalse hname =>
        refine ⟨bookkept_add hS huser hname, fun n ch hch => ?_⟩
        simp only [addUserToChannel, huser, Event.Leaves]
        by_cases hn : n = name <;> simp [hn, hch]
  | part client name keeps =>
    simp only [step]
    split
    case h_1 hnone =>
      refine hsame ?_
      rintro _ _ ⟨rfl, rfl, -⟩
      simp [InList, hnone]
    case h_2 user huser =>
      split
      case isFalse hname =>
        refine hsame ?_
        rintro _ _ ⟨rfl, rfl, -⟩
        simpa [InList, huser] using hname
      case isTrue hname =>
        obtain ⟨hS', hgone⟩ := remove_spec hS huser hname keeps
        refine ⟨hS', fun n ch hch => ?_⟩
        by_cases hn : n = name
        · subst hn
          simp [hgone ch hch, Event.Leaves]
        · simp [removeUserFromChannelWithmb, hn, hch, Ne.symm hn, Event.Leaves]
  | quit client keeps =>
    simp only [step]
    split
    case h_1 hnone =>
      refine hsame ?_
      rintro _ _ ⟨rfl, -⟩
      simp [InList, hnone]
    case h_2 user huser =>
      obtain ⟨hS', hempty, hgone⟩ := leaveAll_spec keeps hS huser rfl
      refine ⟨hS'.setUser hempty nofun, fun n ch hch => ?_⟩
      simp [hgone n ch hch, Event.Leaves]

/-- Over every run the counters count, the lists mirror each other without
repetition, and a channel goes away exactly when its last member leaves and no
hook keeps it. -/
theorem run_bookkept (events : List Event) (e : Event) :
    Bookkept (run events) ∧ ∀ name ch, (run events).channels name = some ch →
      ((step (run events) e).channels name = none ↔
        ∃ client, ch.members = [client] ∧ e.Leaves client name) := by
  have hrun : Bookkept (run events) := by
    refine List.foldlRecOn (motive := Bookkept) events step ?_
      fun S hS e _ => (step_spec hS e).1
    refine ⟨?_, ?_, ?_⟩ <;> simp [State.init, OnChannel, InList]
  exact ⟨hrun, (step_spec hrun e).2⟩

end UnrealIrcd.Channels.Bookkeeping
