import UnrealIrcd.Nick.Collision

/-!
# Both servers agree on who survives

The two messages and the kills are delivered in any order that the link allows.
At the end both servers know the same users, and at most one of the two
(`Meeting.survivors_agree`).
-/

namespace UnrealIrcd.Nick

open Support List
open Network (receive pop)

namespace Meeting

variable (m : Meeting)

/-! ## Notices -/

/-- A message to the server `v` that the user of `x` is gone. -/
def Notice (v x : Bool) (msg : Message) : Prop :=
  msg = .kill (m.own x).id.val ∨ x = (!v) ∧ msg = .quit (m.own x).id

/-- What a server makes of a notice about the user of `x`. -/
structure Noticed (v x : Bool) (clients : List Client) (r : Reaction) :
    Prop where
  sub : ∀ c ∈ r.1, c ∈ clients
  kept : ∀ y, y ≠ x → Known clients (m.own y).id → Known r.1 (m.own y).id
  gone : ¬ Known r.1 (m.own x).id
  notices : ∀ msg ∈ r.2, m.Notice (!v) x msg

theorem own_id_injective {x y : Bool} (h : (m.own x).id = (m.own y).id) :
    x = y := by
  by_contra hne
  rw [Bool.eq_not_of_ne hne] at h
  exact m.id_ne y h.symm

variable {v x : Bool} {clients : List Client} {client : Client}

theorem noticed_exit {out : List Message} (hid : client.id = (m.own x).id)
    (hout : ∀ msg ∈ out, m.Notice (!v) x msg) :
    m.Noticed v x clients (exitClient clients client, out) where
  sub _ hc := (mem_exitClient.mp hc).1
  kept y hy hknown := by
    refine known_exitClient.mpr ⟨hknown, fun h => hy ?_⟩
    exact m.own_id_injective (h.trans hid)
  gone h := (known_exitClient.mp h).2 hid.symm
  notices := hout

theorem noticed_ghost {out : List Message}
    (hfind : findClient clients (m.own x).id.val = none)
    (hout : ∀ msg ∈ out, m.Notice (!v) x msg) :
    m.Noticed v x clients (clients, out) where
  sub _ hc := hc
  kept _ _ hknown := hknown
  gone := by
    rintro ⟨c, hc, hid⟩
    rw [findClient_id] at hfind
    exact absurd hid (by simpa using find?_eq_none.mp hfind c hc)
  notices := hout

theorem findClient_own {x : Bool}
    (h : findClient clients (m.own x).id.val = some client) :
    client ∈ clients ∧ client.id = (m.own x).id := by
  rw [findClient_id] at h
  exact ⟨mem_of_find?_eq_some h, by simpa using find?_some h⟩

theorem noticed_kill (htame : m.Tame v clients) :
    m.Noticed v x clients (cmdKill clients (m.own x).id.val) := by
  unfold cmdKill findUser
  cases hfind : findClient clients (m.own x).id.val with
  | none =>
    refine m.noticed_ghost hfind ?_
    intro msg hmsg
    cases hmsg
  | some client =>
    obtain ⟨hmem, hid⟩ := m.findClient_own hfind
    obtain ⟨huser, hremote⟩ := htame client hmem x hid
    simp only [Option.filter_some, huser, Bool.not_false, if_true]
    refine m.noticed_exit hid ?_
    intro msg hmsg
    by_cases hx : x = v
    · subst hx
      rw [hremote, bne_self_eq_false, if_neg Bool.false_ne_true, hid] at hmsg
      exact .inr ⟨(Bool.not_not x).symm, mem_singleton.mp hmsg⟩
    · rw [hremote, bne_iff_ne.mpr hx, if_pos rfl] at hmsg
      cases hmsg

theorem noticed_quit (htame : m.Tame v clients) (hx : x = !v) :
    m.Noticed v x clients
      (withSource clients (m.own x).id (cmdQuit clients)) := by
  unfold withSource
  cases hfind : findClient clients (m.own x).id.val with
  | none =>
    refine m.noticed_ghost hfind ?_
    intro msg hmsg
    exact .inl (mem_singleton.mp hmsg)
  | some client =>
    obtain ⟨hmem, hid⟩ := m.findClient_own hfind
    have hremote := (htame client hmem x hid).2
    rw [hx, bne_iff_ne.mpr (Bool.not_ne_self v)] at hremote
    simp only [hremote, if_true]
    refine m.noticed_exit hid ?_
    intro msg hmsg
    rw [hremote] at hmsg
    cases hmsg

/-! ## What every delivery keeps -/

/-- Only notices about doomed users. -/
def Notices (v : Bool) (msgs : List Message) : Prop :=
  ∀ msg ∈ msgs, ∃ x, m.Doomed x ∧ m.Notice v x msg

variable (s : Network Bool (List Client) Message)

/-- The server `v` has not heard of the other user yet. -/
def Pending (v : Bool) : Prop :=
  s.state v = m.table v ∧
    ∃ rest, s.queue (!v) v = m.intro (!v) :: rest ∧ m.Notices v rest

/-- The server `v` has heard of the other user. -/
def Heard (v : Bool) : Prop :=
  m.Tame v (s.state v) ∧ m.Notices v (s.queue (!v) v) ∧
    (Known (s.state v) (m.own !v).id ↔ ¬ m.Doomed !v)

/-- What holds of every network that a run reaches. -/
structure Inv : Prop where
  no_loop : ∀ v, s.queue v v = []
  phase : ∀ v, m.Pending s v ∨ m.Heard s v
  safe : ∀ v, ¬ m.Doomed v → Known (s.state v) (m.own v).id
  told : ∀ v, m.Doomed v → Known (s.state v) (m.own v).id →
    m.Pending s (!v) ∨ .kill (m.own v).id.val ∈ s.queue (!v) v

theorem inv_start : m.Inv m.start where
  no_loop v := by simp [start]
  phase v := by
    refine .inl ⟨rfl, [], by simp [start], ?_⟩
    intro msg hmsg
    cases hmsg
  safe v _ := m.known_own v
  told v _ _ := by
    refine .inl ⟨rfl, [], by simp [start], ?_⟩
    intro msg hmsg
    cases hmsg

variable {m s}

/-! ## One delivery -/

section Receive

variable {v : Bool} {msg : Message} {rest : List Message}

theorem queue_from (hqueue : s.queue (!v) v = msg :: rest) :
    (s.receive (handleNick m.cfg) (!v) v msg).queue (!v) v = rest := by
  simp [receive, pop, hqueue]

theorem queue_to :
    (s.receive (handleNick m.cfg) (!v) v msg).queue v (!v) =
      s.queue v (!v) ++ (handleMessage (m.cfg v) (s.state v) msg).2 := by
  simp [receive, pop, handleNick]

theorem queue_loop (x : Bool) :
    (s.receive (handleNick m.cfg) (!v) v msg).queue x x = s.queue x x := by
  by_cases hx : x = v
  · subst hx
    simp [receive, pop, handleNick]
  · simp [receive, pop, hx]

theorem state_other :
    (s.receive (handleNick m.cfg) (!v) v msg).state (!v) = s.state (!v) :=
  state_receive_of_ne (Bool.not_ne_self v) msg

theorem Notices.append {msgs msgs' : List Message} (h : m.Notices v msgs)
    (h' : m.Notices v msgs') : m.Notices v (msgs ++ msgs') :=
  forall_mem_append.mpr ⟨h, h'⟩

theorem Pending.receive (h : m.Pending s (!v))
    (hout : m.Notices (!v) (handleMessage (m.cfg v) (s.state v) msg).2) :
    m.Pending (s.receive (handleNick m.cfg) (!v) v msg) (!v) := by
  obtain ⟨hstate, rest', hqueue, hnotices⟩ := h
  refine ⟨state_other.trans hstate, rest' ++ _, ?_, hnotices.append hout⟩
  rw [Bool.not_not] at hqueue ⊢
  rw [queue_to, hqueue, cons_append]

theorem Heard.receive (h : m.Heard s (!v))
    (hout : m.Notices (!v) (handleMessage (m.cfg v) (s.state v) msg).2) :
    m.Heard (s.receive (handleNick m.cfg) (!v) v msg) (!v) := by
  obtain ⟨htame, hnotices, hknown⟩ := h
  unfold Heard
  rw [Bool.not_not] at hnotices hknown ⊢
  rw [state_other, queue_to]
  exact ⟨htame, hnotices.append hout, hknown⟩

theorem notice_ne_intro {x y : Bool} (h : m.Notice v x msg) :
    msg ≠ m.intro y := by
  unfold intro
  rcases h with rfl | ⟨-, rfl⟩
  · split
    · exact Message.noConfusion
    · exact Message.noConfusion
  · split
    · exact Message.noConfusion
    · exact Message.noConfusion

section Receive

variable (hs : m.Inv s) (hqueue : s.queue (!v) v = msg :: rest)

include hs hqueue

/-- What has to be shown of a message: the server has heard of the other user
afterwards, keeps its own unless it is doomed, and tells what it has to. -/
theorem Inv.receive_of {r : Reaction}
    (hr : handleMessage (m.cfg v) (s.state v) msg = r)
    (hout : m.Notices (!v) r.2) (htame : m.Tame v r.1) (hrest : m.Notices v rest)
    (hother : Known r.1 (m.own !v).id ↔ ¬ m.Doomed !v)
    (hsafe : ¬ m.Doomed v → Known r.1 (m.own v).id)
    (htold : m.Doomed v → Known r.1 (m.own v).id →
      Known (s.state v) (m.own v).id ∧ msg ≠ .kill (m.own v).id.val)
    (hnews : m.Doomed (!v) → Known (s.state !v) (m.own !v).id →
      .kill (m.own !v).id.val ∈ s.queue v (!v) ++ r.2) :
    m.Inv (s.receive (handleNick m.cfg) (!v) v msg) := by
  subst hr
  have hself : (s.receive (handleNick m.cfg) (!v) v msg).state v =
      (handleMessage (m.cfg v) (s.state v) msg).1 := state_receive_self ..
  refine ⟨fun x => (queue_loop x).trans (hs.no_loop x), fun x => ?_,
    fun x hx => ?_, fun x hx hknown => ?_⟩ <;>
      rcases Bool.eq_or_eq_not x v with rfl | rfl
  · unfold Heard
    rw [hself, queue_from hqueue]
    exact .inr ⟨htame, hrest, hother⟩
  · exact (hs.phase !v).imp (·.receive hout) (·.receive hout)
  · rw [hself]
    exact hsafe hx
  · rw [state_other]
    exact hs.safe _ hx
  · rw [hself] at hknown
    obtain ⟨hold, hmsg⟩ := htold hx hknown
    refine (hs.told x hx hold).imp (·.receive hout) fun hkill => ?_
    rw [hqueue] at hkill
    rw [queue_from hqueue]
    exact (mem_cons.mp hkill).resolve_left hmsg.symm
  · rw [state_other] at hknown
    rw [Bool.not_not, queue_to]
    exact .inr (hnews hx hknown)

theorem Inv.receive_pending (hpending : m.Pending s v) :
    m.Inv (s.receive (handleNick m.cfg) (!v) v msg) := by
  obtain ⟨hstate, rest', hintro, hrest⟩ := hpending
  rw [hqueue] at hintro
  obtain ⟨rfl, rfl⟩ := List.cons.inj hintro
  have hsettled := m.settled_intro v
  rw [← hstate] at hsettled
  refine hs.receive_of hqueue rfl ?_ hsettled.tame hrest ?_ hsettled.kept ?_ ?_
  · intro msg hmsg
    obtain ⟨x, hx, rfl⟩ := hsettled.notices msg hmsg
    exact ⟨x, hx, .inl rfl⟩
  · exact ⟨fun hknown hdoomed => hsettled.gone hdoomed hknown, hsettled.there⟩
  · intro _ _
    rw [hstate]
    have hkill : m.Notice v v (.kill (m.own v).id.val) := .inl rfl
    exact ⟨m.known_own v, (notice_ne_intro hkill).symm⟩
  · exact fun hdoomed _ => mem_append_right _ (hsettled.told hdoomed)

theorem Inv.receive_heard (hheard : m.Heard s v) :
    m.Inv (s.receive (handleNick m.cfg) (!v) v msg) := by
  obtain ⟨htame, hnotices, hknown⟩ := hheard
  rw [hqueue] at hnotices
  obtain ⟨x, hx, hmsg⟩ := hnotices msg mem_cons_self
  have hnoticed : m.Noticed v x (s.state v)
      (handleMessage (m.cfg v) (s.state v) msg) := by
    rcases hmsg with rfl | ⟨hx, rfl⟩
    · exact m.noticed_kill htame
    · exact m.noticed_quit htame hx
  have hold : ∀ {id}, Known (handleMessage (m.cfg v) (s.state v) msg).1 id →
      Known (s.state v) id := by
    rintro id ⟨c, hc, hid⟩
    exact ⟨c, hnoticed.sub c hc, hid⟩
  have hkept : ∀ {y}, ¬ m.Doomed y → Known (s.state v) (m.own y).id →
      Known (handleMessage (m.cfg v) (s.state v) msg).1 (m.own y).id := by
    intro y hy
    refine hnoticed.kept y ?_
    rintro rfl
    exact hy hx
  refine hs.receive_of hqueue rfl
    (fun msg' hmsg' => ⟨x, hx, hnoticed.notices msg' hmsg'⟩)
    (htame.mono m hnoticed.sub)
    (fun msg' hmsg' => hnotices msg' (mem_cons_of_mem _ hmsg'))
    ⟨fun h => hknown.mp (hold h), fun hsafe => hkept hsafe (hknown.mpr hsafe)⟩
    (fun hsafe => hkept hsafe (hs.safe v hsafe)) ?_ ?_
  · refine fun _ hyknown => ⟨hold hyknown, ?_⟩
    -- the notice that was handled was about another user
    rintro rfl
    rcases hmsg with hmsg | ⟨-, hmsg⟩
    · obtain rfl := m.own_id_injective (Subtype.ext (Message.kill.inj hmsg))
      exact hnoticed.gone hyknown
    · cases hmsg
  · intro hy hyknown
    rcases hs.told _ hy hyknown with ⟨-, rest', hintro, -⟩ | hkill
    · simp only [Bool.not_not, hqueue] at hintro
      exact absurd (List.cons.inj hintro).1 (notice_ne_intro hmsg)
    · rw [Bool.not_not] at hkill
      exact mem_append_left _ hkill

end Receive

theorem Inv.receive {u : Bool} (hs : m.Inv s)
    (hqueue : s.queue u v = msg :: rest) :
    m.Inv (s.receive (handleNick m.cfg) u v msg) := by
  have hu : u = !v := by
    by_contra hne
    have huv : u = v := by
      cases u <;> cases v <;> simp_all
    rw [huv, hs.no_loop] at hqueue
    cases hqueue
  subst hu
  rcases hs.phase v with hpending | hheard
  · exact hs.receive_pending hqueue hpending
  · exact hs.receive_heard hqueue hheard

end Receive

/-! ## The deliveries end -/

/-- What a message is worth.  A quit that nobody expects is answered with a kill,
and a kill of a client of the server becomes a quit. -/
def messageWeight : Message → ℕ
  | .uid _ => 10
  | .nick _ _ _ => 10
  | .kill _ => 1
  | .quit _ => 2

def cost (r : Reaction) : ℕ := 2 * r.1.length + (r.2.map messageWeight).sum

theorem length_exitClient_le (clients : List Client) (client : Client) :
    (exitClient clients client).length ≤ clients.length :=
  length_filter_le ..

section

variable (cfg : Config) (clients : List Client)

theorem cost_killNew_le (newid : List Char) (new : Option Client) :
    cost (killNew clients newid new) ≤ 2 * clients.length + 1 := by
  cases new with
  | none => exact le_refl _
  | some new =>
    have hle := length_exitClient_le clients new
    simp only [killNew, cost, sendtoServer, if_true, map_cons,
      map_nil, sum_cons, sum_nil, messageWeight]
    omega

theorem cost_killExisting_le (existing : Client) :
    cost (killExisting clients existing) ≤ 2 * clients.length + 1 := by
  have hle := length_exitClient_le clients existing
  have hcost : cost (killExisting clients existing) =
      2 * (exitClient clients existing).length + 1 := rfl
  omega

theorem cost_nickCollision_le (newid : List Char)
    (new : Option Client) (existing : Client) (type : NickCol) :
    cost (nickCollision clients newid new existing type) ≤
      2 * clients.length + 2 := by
  have hnew := cost_killNew_le clients newid new
  cases type with
  | existingWon => exact hnew.trans (Nat.le_succ _)
  | newWon =>
    exact (cost_killExisting_le clients existing).trans (Nat.le_succ _)
  | equal =>
    have hboth := cost_killExisting_le
      (killNew clients newid new).1 existing
    simp only [nickCollision, cost, map_append, sum_append] at hnew hboth ⊢
    omega

theorem cost_cmdUid_lt (p : UidParams) :
    cost (cmdUid cfg clients p) < 2 * clients.length + 10 := by
  have hkill : ∀ target, cost (clients, [.kill target]) <
      2 * clients.length + 10 := fun target => by
    simp [cost, messageWeight]
  have hintroduce : ∀ new nick, cost (uidIntroduce clients p new nick) <
      2 * clients.length + 10 := by
    intro new nick
    unfold uidIntroduce
    cases hfind : findClient clients nick with
    | none =>
      simp only [cost, length_cons, map_nil, sum_nil]
      omega
    | some acptr =>
      have hle := length_exitClient_le clients acptr
      have hcollision := cost_nickCollision_le clients p.uid none acptr
      simp only
      split_ifs
      · simp only [cost, length_cons, map_nil, sum_nil]
        omega
      · have := hcollision .equal
        omega
      · have := hcollision .newWon
        simp only [cost, length_cons] at this ⊢
        omega
      · have := hcollision .existingWon
        omega
  unfold cmdUid
  split_ifs
  · exact hkill _
  · exact hintroduce _ _
  · exact hkill _
  · exact hkill _

theorem cost_cmdNickRemote_lt (client : Client) (nick : List Char)
    (stamp : Option (List Char)) :
    cost (cmdNickRemote cfg clients client nick stamp) <
      2 * clients.length + 10 := by
  have hrename : ∀ (clients : List Client) nick lastnick,
      (rename clients client nick lastnick).length = clients.length :=
    fun clients nick lastnick => length_map ..
  unfold cmdNickRemote
  split
  · unfold nickChange
    generalize (⟨nick.take nickLen, _⟩ : NickName) = nick
    cases hfind : findClient clients nick.val with
    | none => simp [cost, hrename, sendtoServer]
    | some acptr =>
      have hle := length_exitClient_le clients acptr
      have hcollision := cost_nickCollision_le clients client.id.val
        (some client) acptr
      simp only [sendtoServer, if_true, append_nil]
      generalize (if stamp.elim 0 strtol = 0 then cfg.now
        else stamp.elim 0 strtol) = time
      split_ifs
      · simp only [cost, hrename, map_nil, sum_nil]
        omega
      · simp [cost]
      · simp [cost, hrename]
      · have := hcollision .equal
        omega
      · have := hcollision .newWon
        simp only [cost, hrename] at this ⊢
        omega
      · have := hcollision .existingWon
        omega
  · have hle := length_exitClient_le clients client
    simp only [cost, map_cons, map_nil, sum_cons, sum_nil, messageWeight]
    omega

theorem cost_cmdKill_lt (target : List Char) :
    cost (cmdKill clients target) < 2 * clients.length + 1 := by
  unfold cmdKill
  cases hfind : findUser clients target with
  | none => simp [cost]
  | some client =>
    have hmem : client ∈ clients := by
      obtain ⟨hfound, -⟩ := Option.filter_eq_some_iff.mp hfind
      rcases Option.or_eq_some_iff.mp hfound with h | ⟨-, h⟩
      · exact mem_of_find?_eq_some h
      · exact mem_of_find?_eq_some h
    have hlt : (exitClient clients client).length < clients.length :=
      length_filter_lt_length_iff_exists.mpr ⟨client, hmem, by simp⟩
    cases hremote : client.remote with
    | true =>
      simp only [hremote, sendtoServer, if_true, cost, map_nil, sum_nil]
      omega
    | false =>
      simp only [hremote, sendtoServer, Bool.false_eq_true, if_false, cost,
        map_cons, map_nil, sum_cons, sum_nil, messageWeight]
      omega

theorem cost_cmdQuit_lt (source : Uid) :
    cost (withSource clients source (cmdQuit clients)) <
      2 * clients.length + 2 := by
  unfold withSource
  cases hfind : findClient clients source.val with
  | none => simp [cost, messageWeight]
  | some client =>
    have hle := length_exitClient_le clients client
    cases hremote : client.remote with
    | true =>
      simp only [hremote, if_true, cmdQuit, sendtoServer, cost,
        map_nil, sum_nil]
      omega
    | false => simp [hremote, cost]

theorem cost_handleMessage_lt (msg : Message) :
    cost (handleMessage cfg clients msg) <
      2 * clients.length + messageWeight msg := by
  cases msg with
  | uid p => exact cost_cmdUid_lt cfg clients p
  | nick source nick stamp =>
    unfold handleMessage withSource
    cases hfind : findClient clients source.val with
    | none => simp [cost, messageWeight, hfind]
    | some client =>
      cases hremote : client.remote with
      | true =>
        simp only [hfind, hremote, if_true]
        exact cost_cmdNickRemote_lt cfg clients client nick stamp
      | false => simp [hfind, hremote, cost, messageWeight]
  | kill target => exact cost_cmdKill_lt clients target
  | quit source => exact cost_cmdQuit_lt clients source

end

theorem lowers_handleNick (cfg : Bool → Config)
    (I : Network Bool (List Client) Message → Prop) :
    Lowers (handleNick cfg) (fun _ _ => messageWeight)
      (fun _ clients => 2 * clients.length) I := by
  intro s u v msg rest _ _
  have hlt := cost_handleMessage_lt (cfg v) (s.state v) msg
  have hsum : ∑ y, (((handleNick cfg v (s.state v) u msg).2 y).map
      messageWeight).sum =
        ((handleMessage (cfg v) (s.state v) msg).2.map messageWeight).sum := by
    rw [Fintype.sum_bool]
    cases v <;> simp [handleNick]
  unfold LowersAt
  rw [hsum]
  exact hlt

/-! ## Agreement -/

variable (m)

/-- The server `v` still has the user of `x`. -/
def Survives (s : Network Bool (List Client) Message) (v x : Bool) : Prop :=
  Known (s.state v) (m.own x).id

/-- When no message is left, whoever is not doomed is there and nobody else. -/
theorem Inv.survives_iff {m : Meeting} {s : Network Bool (List Client) Message}
    (hs : m.Inv s) (hquiet : s.Quiet) (v x : Bool) :
    m.Survives s v x ↔ ¬ m.Doomed x := by
  have hpending : ∀ v, ¬ m.Pending s v := by
    rintro v ⟨-, rest, hqueue, -⟩
    rw [hquiet] at hqueue
    cases hqueue
  by_cases hx : x = v
  · subst hx
    refine ⟨fun hknown hdoomed => ?_, hs.safe x⟩
    rcases hs.told x hdoomed hknown with h | h
    · exact hpending _ h
    · rw [hquiet] at h
      cases h
  · obtain ⟨-, -, hknown⟩ := (hs.phase v).resolve_left (hpending v)
    rw [Bool.eq_not_of_ne hx]
    exact hknown

/-- The deliveries come to an end, and then both servers have the same of the two
users, and at most one of them. -/
theorem survivors_agree :
    (∃ bound, ∀ links s,
      m.start.run (handleNick m.cfg) links = some s →
        links.length ≤ bound) ∧
    (∀ links s, m.start.run (handleNick m.cfg) links = some s →
      ∃ more s', s.run (handleNick m.cfg) more = some s' ∧ s'.Quiet) ∧
    ∀ links s, m.start.run (handleNick m.cfg) links = some s → s.Quiet →
      (∀ x, m.Survives s true x ↔ m.Survives s false x) ∧
        ∀ v, ¬ (m.Survives s v true ∧ m.Survives s v false) := by
  have hstep : ∀ (s : Network Bool (List Client) Message) (u v : Bool)
      (msg : Message) (rest : List Message), m.Inv s →
        s.queue u v = msg :: rest →
          m.Inv (s.receive (handleNick m.cfg) u v msg) :=
    fun s u v msg rest hs hqueue => hs.receive hqueue
  have hlowers := lowers_handleNick m.cfg m.Inv
  refine ⟨⟨m.start.weight (fun _ _ => messageWeight)
    fun _ clients => 2 * clients.length, fun links s hrun => ?_⟩,
    fun links s hrun => ?_, ?_⟩
  · exact (Nat.le_add_right _ _).trans
      (length_run_add_le hstep hlowers m.inv_start hrun)
  · exact exists_quiet hstep hlowers (run_invariant hstep m.inv_start hrun)
  · intro links s hrun hquiet
    have hs := run_invariant hstep m.inv_start hrun
    refine ⟨fun x => ?_, fun v => ?_⟩
    · rw [hs.survives_iff hquiet, hs.survives_iff hquiet]
    · rw [hs.survives_iff hquiet, hs.survives_iff hquiet]
      rintro ⟨htrue, hfalse⟩
      have hwins : ∀ x, ¬ m.Doomed x → m.Wins x := fun x hx =>
        by_contra fun hloses => hx (.inl hloses)
      exact m.wins_not (hwins true htrue) (hwins false hfalse)

end Meeting

/-! ## Two new users -/

def sampleClient (v : Bool) : Client where
  id := ⟨if v then "001AAAAAA".toList else "002AAAAAA".toList, by
    cases v <;> decide⟩
  name := ⟨"alice".toList, by
    refine ⟨by decide, ?_⟩
    rintro c ⟨⟩
    decide⟩
  lastnick := if v then 1700000000 else 1700000005
  username := "alice".toList
  realhost := "host.example.net".toList
  remote := false
  unknown := false

/-- Both servers have just introduced their user. -/
def sampleMeeting : Meeting where
  cfg v := ⟨0, if v then "002".toList else "001".toList, fun _ => true,
    fun _ => true, false⟩
  table v := [sampleClient v]
  own := sampleClient
  byUid _ := true
  umodes _ := ['+']
  virthost _ := ['*']
  ip _ := ['*']
  own_mem v := List.mem_singleton_self _
  own_local _ := rfl
  own_user _ := rfl
  own_legal v := by cases v <;> decide
  own_stamp v := by cases v <;> decide
  same_nick v := by cases v <;> decide
  nodup v := List.nodup_singleton _
  only v c hc _ := List.mem_singleton.mp hc
  new_user v _ := by
    rintro ⟨c, hc, hid⟩
    rw [List.mem_singleton.mp hc] at hid
    cases v <;> exact absurd hid (by decide)
  old_user v h := by cases h

/-- The same user logged in twice: the one with the later time stamp survives, and
the other one is doomed. -/
theorem survivors_agree_sample :
    (sampleMeeting.Doomed true ∧ ¬ sampleMeeting.Doomed false) ∧
      ∀ links s,
        sampleMeeting.start.run (handleNick sampleMeeting.cfg) links = some s →
          s.Quiet → ∀ x,
            sampleMeeting.Survives s true x ↔
              sampleMeeting.Survives s false x := by
  refine ⟨?_, fun links s hrun hquiet =>
    (sampleMeeting.survivors_agree.2.2 links s hrun hquiet).1⟩
  unfold Meeting.Doomed Meeting.Wins Meeting.Refused
  decide

end UnrealIrcd.Nick
