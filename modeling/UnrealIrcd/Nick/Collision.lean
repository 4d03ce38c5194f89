import UnrealIrcd.Nick.Lookup

/-!
# Two servers with the same nick

Each of two servers has a user of its own under the same nick, and has told the
other one with `UID` or `NICK`.  Both messages are on their way.

The time stamps and the user names decide who wins, and both servers come to the
same result because the comparison is symmetric (`Meeting.wins_not`).  A user that
loses, or that is refused, is doomed.  Whoever handles the message about a doomed
user kills it (`Meeting.settled_intro`), and after that only notices about doomed
users are on their way (`Meeting.Inv`).
-/

namespace UnrealIrcd.Nick

open Support List

/-- Two servers that each have a user of their own under the same nick. -/
structure Meeting where
  cfg : Bool → Config
  table : Bool → List Client
  own : Bool → Client
  /-- The user came to the nick with `UID`, and not with `NICK`. -/
  byUid : Bool → Bool
  umodes : Bool → List Char
  virthost : Bool → List Char
  ip : Bool → List Char
  own_mem : ∀ v, own v ∈ table v
  own_local : ∀ v, (own v).remote = false
  own_user : ∀ v, (own v).unknown = false
  /-- `cmd_nick_local` lets no other nick in. -/
  own_legal : ∀ v, legalNick (own v).name.val = true
  own_stamp : ∀ v, -2 ^ 63 ≤ (own v).lastnick ∧ (own v).lastnick < 2 ^ 63
  same_nick : ∀ v, sameName (own v).name.val (own !v).name.val = true
  nodup : ∀ v, ((table v).map Client.id).Nodup
  /-- Within a server no two clients have the same nick. -/
  only : ∀ v, ∀ c ∈ table v,
    sameName (own v).name.val c.name.val = true → c = own v
  /-- A new user is not known to the other server. -/
  new_user : ∀ v, byUid v = true → ¬ Known (table !v) (own v).id
  /-- Whoever changes the nick is known with the same user name and host. -/
  old_user : ∀ v, byUid v = false → ∃ c ∈ table !v, c.id = (own v).id ∧
    c.username = (own v).username ∧ c.realhost = (own v).realhost ∧
    c.remote = true ∧ c.unknown = false

namespace Meeting

variable (m : Meeting)

def params (v : Bool) : UidParams where
  nick := (m.own v).name.val
  stamp := decimal (m.own v).lastnick
  username := (m.own v).username
  hostname := (m.own v).realhost
  uid := (m.own v).id.val
  umodes := m.umodes v
  virthost := m.virthost v
  ip := m.ip v

/-- What a server has told the other one about its user. -/
def intro (v : Bool) : Message :=
  if m.byUid v then .uid (m.params v)
  else .nick (m.own v).id (m.own v).name.val
    (some (decimal (m.own v).lastnick))

/-- Both messages are on their way. -/
def start : Network Bool (List Client) Message where
  state := m.table
  queue x y := if y = !x then [m.intro x] else []

/-! ## Who wins -/

def differ : Bool :=
  userDiffers (m.own true) (m.own false).username (m.own false).realhost

def Wins (v : Bool) : Prop :=
  (m.own !v).lastnick ≠ (m.own v).lastnick ∧
    newWins m.differ (m.own !v).lastnick (m.own v).lastnick = true

def Refused (v : Bool) : Prop :=
  m.byUid v = true ∧ refuses (m.cfg !v) (m.params v) = true

def Doomed (v : Bool) : Prop := ¬ m.Wins v ∨ m.Refused v

theorem userDiffers_own (v : Bool) :
    userDiffers (m.own v) (m.own !v).username (m.own !v).realhost =
      m.differ := by
  cases v with
  | true => rfl
  | false =>
    simp only [differ, userDiffers, Bool.not_false]
    rw [sameName_comm, sameName_comm (m.own false).realhost]

theorem newWins_swap {differ : Bool} {s t : ℤ} (h : s ≠ t) :
    newWins differ s t = !newWins differ t s := by
  rw [Bool.eq_iff_iff]
  cases differ <;> simp [newWins] <;> omega

variable {v : Bool}

theorem wins_not (h : m.Wins v) : ¬ m.Wins !v := by
  rintro ⟨-, hother⟩
  rw [Bool.not_not, newWins_swap h.1.symm, h.2] at hother
  cases hother

theorem wins_of_not (hne : (m.own v).lastnick ≠ (m.own !v).lastnick)
    (h : newWins m.differ (m.own v).lastnick (m.own !v).lastnick = false) :
    m.Wins v := by
  refine ⟨hne.symm, ?_⟩
  rw [newWins_swap hne.symm, h]
  rfl

theorem wins_other (hne : (m.own v).lastnick ≠ (m.own !v).lastnick)
    (h : newWins m.differ (m.own v).lastnick (m.own !v).lastnick = true) :
    m.Wins !v := by
  unfold Wins
  rw [Bool.not_not]
  exact ⟨hne, h⟩

/-! ## What the servers know -/

theorem eq_of_id_eq {c d : Client} (hc : c ∈ m.table v) (hd : d ∈ m.table v)
    (h : c.id = d.id) : c = d :=
  inj_on_of_nodup_map (m.nodup v) hc hd h

theorem strtol_stamp (v : Bool) :
    strtol (decimal (m.own v).lastnick) = (m.own v).lastnick := by
  have h := strtol_decimal_append (m.own_stamp v).1 (m.own_stamp v).2
    noDigit_nil
  rwa [append_nil] at h

theorem take_name (v : Bool) :
    (m.own v).name.val.take nickLen = (m.own v).name.val :=
  take_of_length_le (m.own v).name.property.1

theorem findClient_other (v : Bool) :
    findClient (m.table v) (m.own !v).name.val = some (m.own v) := by
  have hname := m.same_nick v
  refine findClient_eq_some (m.own !v).name.property (m.own_mem v) ?_ ?_
  · rw [sameName_comm]
    exact hname
  · intro c hc hsame
    refine m.only v c hc ?_
    rw [sameName_iff] at hname hsame ⊢
    exact hname.trans hsame

theorem id_ne (v : Bool) : (m.own v).id ≠ (m.own !v).id := by
  intro h
  cases hby : m.byUid v with
  | true =>
    exact m.new_user v hby ⟨m.own !v, m.own_mem !v, h.symm⟩
  | false =>
    obtain ⟨c, hc, hid, -, -, hremote, -⟩ := m.old_user v hby
    rw [m.eq_of_id_eq hc (m.own_mem !v) (hid.trans h), m.own_local] at hremote
    cases hremote

/-- The tables hold the two users as they are: registered, and remote unless they
are the server's own. -/
def Tame (v : Bool) (clients : List Client) : Prop :=
  ∀ c ∈ clients, ∀ x, c.id = (m.own x).id →
    c.unknown = false ∧ c.remote = (x != v)

theorem tame_table (v : Bool) : m.Tame v (m.table v) := by
  intro c hc x hid
  by_cases hx : x = v
  · subst hx
    rw [m.eq_of_id_eq hc (m.own_mem x) hid]
    exact ⟨m.own_user x, by simp [m.own_local]⟩
  · obtain rfl : x = !v := Bool.eq_not_of_ne hx
    cases hby : m.byUid !v with
    | true =>
      refine absurd ⟨c, ?_, hid⟩ (m.new_user (!v) hby)
      rwa [Bool.not_not]
    | false =>
      obtain ⟨d, hd, hdid, -, -, hremote, hunknown⟩ := m.old_user (!v) hby
      rw [Bool.not_not] at hd
      rw [m.eq_of_id_eq hc hd (hid.trans hdid.symm)]
      exact ⟨hunknown, by simp [hremote]⟩

theorem Tame.mono {clients clients' : List Client} (h : m.Tame v clients)
    (hsub : ∀ c ∈ clients', c ∈ clients) : m.Tame v clients' :=
  fun c hc => h c (hsub c hc)

variable {clients : List Client}

theorem Tame.exitClient (client : Client) (h : m.Tame v clients) :
    m.Tame v (exitClient clients client) :=
  h.mono m fun _ hc => (mem_exitClient.mp hc).1

theorem Tame.rename (client : Client) (nick : NickName) (lastnick : ℤ)
    (h : m.Tame v clients) :
    m.Tame v (rename clients client nick lastnick) := by
  intro d hd x hx
  obtain ⟨c, hc, rfl⟩ := mem_map.mp hd
  have hold := h c hc x
  split at hx
  · next hid =>
      rw [if_pos hid]
      exact hold hx
  · next hid =>
      rw [if_neg hid]
      exact hold hx

/-! ## The first message -/

/-- What the server `v` makes of the message about the other user: only doomed
users are killed, the other user is killed and gone if it is doomed and there if it
is not, and the own user stays unless it is doomed. -/
structure Settled (v : Bool) (r : Reaction) : Prop where
  tame : m.Tame v r.1
  notices : ∀ msg ∈ r.2, ∃ x, m.Doomed x ∧ msg = .kill (m.own x).id.val
  told : m.Doomed (!v) → .kill (m.own !v).id.val ∈ r.2
  gone : m.Doomed (!v) → ¬ Known r.1 (m.own !v).id
  there : ¬ m.Doomed (!v) → Known r.1 (m.own !v).id
  kept : ¬ m.Doomed v → Known r.1 (m.own v).id

theorem known_own (v : Bool) : Known (m.table v) (m.own v).id :=
  ⟨m.own v, m.own_mem v, rfl⟩

theorem settled_killNew (htame : m.Tame v clients) (hdoomed : m.Doomed !v)
    (hgone : ¬ Known clients (m.own !v).id)
    (hkept : Known clients (m.own v).id) :
    m.Settled v (clients, [.kill (m.own !v).id.val]) where
  tame := htame
  notices := by
    intro msg hmsg
    exact ⟨!v, hdoomed, mem_singleton.mp hmsg⟩
  told _ := mem_singleton_self _
  gone _ := hgone
  there h := absurd hdoomed h
  kept _ := hkept

theorem settled_equal (htame : m.Tame v clients) (hdoomed : ∀ x, m.Doomed x)
    (hgone : ¬ Known clients (m.own !v).id) :
    m.Settled v (clients,
      [.kill (m.own !v).id.val, .kill (m.own v).id.val]) where
  tame := htame
  notices := by
    intro msg hmsg
    rcases mem_pair.mp hmsg with rfl | rfl
    · exact ⟨!v, hdoomed _, rfl⟩
    · exact ⟨v, hdoomed _, rfl⟩
  told _ := mem_cons_self
  gone _ := hgone
  there h := absurd (hdoomed _) h
  kept h := absurd (hdoomed _) h

theorem settled_newWon (htame : m.Tame v clients) (hdoomed : m.Doomed v)
    (hsafe : ¬ m.Doomed !v) (hthere : Known clients (m.own !v).id) :
    m.Settled v (clients, [.kill (m.own v).id.val]) where
  tame := htame
  notices := by
    intro msg hmsg
    exact ⟨v, hdoomed, mem_singleton.mp hmsg⟩
  told h := absurd h hsafe
  gone h := absurd h hsafe
  there _ := hthere
  kept h := absurd hdoomed h

theorem doomed_of_eq (h : (m.own v).lastnick = (m.own !v).lastnick) (x : Bool) :
    m.Doomed x := by
  refine .inl fun hwins => hwins.1 ?_
  by_cases hx : x = v
  · rw [hx]
    exact h.symm
  · rw [Bool.eq_not_of_ne hx, Bool.not_not]
    exact h

theorem settled_uidIntroduce {new : Client} (hid : new.id = (m.own !v).id)
    (hremote : new.remote = true) (huser : new.unknown = false)
    (hgone : ¬ Known (m.table v) (m.own !v).id) (haccepted : ¬ m.Refused !v) :
    m.Settled v (uidIntroduce (m.table v) (m.params !v) new
      (m.own !v).name.val) := by
  have hstamp : strtol (m.params !v).stamp = (m.own !v).lastnick :=
    m.strtol_stamp !v
  have hdiffer : userDiffers (m.own v) (m.params !v).username
      (m.params !v).hostname = m.differ := m.userDiffers_own v
  rw [uidIntroduce, m.findClient_other v]
  simp only [m.own_user, m.own_local, Bool.and_false, Bool.false_eq_true,
    if_false, hstamp, hdiffer, Bool.or_false]
  by_cases heq : (m.own v).lastnick = (m.own !v).lastnick
  · rw [if_pos heq]
    refine m.settled_equal ((m.tame_table v).exitClient m _)
      (m.doomed_of_eq heq) ?_
    exact fun h => hgone (known_exitClient.mp h).1
  · rw [if_neg heq]
    cases hwins : newWins m.differ (m.own v).lastnick (m.own !v).lastnick with
    | true =>
      have hwon := m.wins_other heq hwins
      have hsafe : ¬ m.Doomed !v := fun h => h.elim (· hwon) haccepted
      rw [if_pos rfl]
      refine m.settled_newWon ?_ (.inl fun h => m.wins_not h hwon) hsafe
        ⟨_, mem_cons_self, hid⟩
      intro c hc x hx
      rcases mem_cons.mp hc with rfl | hc
      · refine ⟨huser, ?_⟩
        have hne : x ≠ v := by
          rintro rfl
          exact m.id_ne x (hx.symm.trans hid)
        simp [hremote, hne]
      · exact (m.tame_table v).exitClient m _ c hc x hx
    | false =>
      have hwon := m.wins_of_not heq hwins
      rw [if_neg Bool.false_ne_true]
      exact m.settled_killNew (m.tame_table v) (.inl (m.wins_not hwon))
        hgone (m.known_own v)

theorem settled_uid (hby : m.byUid (!v) = true) :
    m.Settled v (cmdUid (m.cfg v) (m.table v) (m.params !v)) := by
  have hgone : ¬ Known (m.table v) (m.own !v).id := by
    have hnew := m.new_user (!v) hby
    rwa [Bool.not_not] at hnew
  have htake : (m.params !v).nick.take nickLen = (m.own !v).name.val :=
    m.take_name !v
  have hlegal : legalNick ((m.params !v).nick.take nickLen) = true := by
    rw [htake]
    exact m.own_legal !v
  have hid : validUid (m.params !v).uid = true := (m.own !v).id.property
  rw [cmdUid, dif_pos hlegal, dif_pos hid]
  cases hrefused : refuses (m.cfg v) (m.params !v) with
  | true =>
    rw [if_pos rfl]
    refine m.settled_killNew (m.tame_table v) (.inr ⟨hby, ?_⟩) hgone
      (m.known_own v)
    rwa [Bool.not_not]
  | false =>
    rw [if_neg Bool.false_ne_true]
    generalize hnew : uidClient (m.params !v) ⟨(m.params !v).uid, hid⟩
      ⟨_, nickText_take hlegal⟩ = new
    rw [htake]
    subst hnew
    refine m.settled_uidIntroduce rfl rfl rfl hgone ?_
    rintro ⟨-, href⟩
    rw [Bool.not_not, hrefused] at href
    cases href

theorem settled_nickChange {client : Client} {nick : NickName}
    (hnick : nick = (m.own !v).name) (hmem : client ∈ m.table v)
    (hid : client.id = (m.own !v).id)
    (husername : client.username = (m.own !v).username)
    (hrealhost : client.realhost = (m.own !v).realhost)
    (haccepted : ¬ m.Refused !v) :
    m.Settled v (nickChange (m.cfg v) (m.table v) client nick
      (some (decimal (m.own !v).lastnick))) := by
  subst hnick
  have hne : (m.own v).id ≠ client.id := hid ▸ m.id_ne v
  have hgone : ¬ Known (exitClient (m.table v) client) (m.own !v).id := by
    rw [known_exitClient]
    exact fun h => h.2 hid.symm
  simp only [nickChange, m.findClient_other v, m.own_user, m.own_local,
    Bool.and_false, Bool.false_eq_true, if_false, hid, m.id_ne v,
    reduceCtorEq, false_or, Option.elim_some, m.strtol_stamp, husername,
    hrealhost, m.userDiffers_own v]
  by_cases heq : (m.own !v).lastnick = (m.own v).lastnick
  · rw [if_pos heq]
    refine m.settled_equal
      (((m.tame_table v).exitClient m _).exitClient m _)
      (m.doomed_of_eq heq.symm) ?_
    exact fun h => hgone (known_exitClient.mp h).1
  · rw [if_neg heq]
    cases hwins : newWins m.differ (m.own v).lastnick (m.own !v).lastnick with
    | true =>
      have hwon := m.wins_other (Ne.symm heq) hwins
      have hsafe : ¬ m.Doomed !v := fun h => h.elim (· hwon) haccepted
      rw [if_pos rfl]
      refine m.settled_newWon ?_ (.inl fun h => m.wins_not h hwon) hsafe ?_
      · exact ((m.tame_table v).exitClient m _).rename m _ _ _
      · exact known_rename.mpr (known_exitClient.mpr
          ⟨⟨client, hmem, hid⟩, (m.id_ne v).symm⟩)
    | false =>
      have hwon := m.wins_of_not (Ne.symm heq) hwins
      rw [if_neg Bool.false_ne_true]
      refine m.settled_killNew ((m.tame_table v).exitClient m _)
        (.inl (m.wins_not hwon)) hgone ?_
      rw [known_exitClient]
      exact ⟨m.known_own v, hne⟩

theorem settled_nick (hby : m.byUid (!v) = false) :
    m.Settled v (handleMessage (m.cfg v) (m.table v)
      (.nick (m.own !v).id (m.own !v).name.val
        (some (decimal (m.own !v).lastnick)))) := by
  obtain ⟨client, hmem, hid, husername, hrealhost, hremote, -⟩ :=
    m.old_user (!v) hby
  rw [Bool.not_not] at hmem
  have hfind : findClient (m.table v) (m.own !v).id.val = some client := by
    rw [findClient_id]
    cases hfind : (m.table v).find? fun c => c.id = (m.own !v).id with
    | none =>
      exact absurd hid (by simpa using find?_eq_none.mp hfind client hmem)
    | some c =>
      have hc : c.id = (m.own !v).id := by
        simpa using find?_some hfind
      rw [m.eq_of_id_eq (mem_of_find?_eq_some hfind) hmem (hc.trans hid.symm)]
  have htake : (m.own !v).name.val.take nickLen = (m.own !v).name.val :=
    m.take_name !v
  have hlegal : legalNick ((m.own !v).name.val.take nickLen) = true := by
    rw [htake]
    exact m.own_legal !v
  rw [handleMessage, withSource, hfind]
  simp only [hremote, if_true]
  rw [cmdNickRemote, dif_pos hlegal]
  refine m.settled_nickChange (Subtype.ext htake) hmem hid husername hrealhost ?_
  rintro ⟨huid, -⟩
  rw [hby] at huid
  cases huid

/-- Both servers follow the same rule, whatever the message was. -/
theorem settled_intro (v : Bool) :
    m.Settled v (handleMessage (m.cfg v) (m.table v) (m.intro !v)) := by
  unfold intro
  cases hby : m.byUid !v with
  | true => exact m.settled_uid hby
  | false => exact m.settled_nick hby

end Meeting

end UnrealIrcd.Nick
