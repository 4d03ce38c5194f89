import UnrealIrcd.MaxPerIp.Tally
import UnrealIrcd.Support.Runs

/-!
# The accounting of connections

When the buckets agree with the clients.  Local connects and disconnects keep the
agreement.  A remote user counts as an IPv6 user if its server is linked over
IPv6, which is wrong for an IPv4 address.  A reload counts the clients of
`client_list` and once more those of `unknown_list`, so it keeps the agreement
exactly if no client of the latter is counted; and `WEBIRC` moves a client to another address without a change of the
buckets.  `accounted_run_iff` says this for whole runs.
-/

namespace UnrealIrcd.MaxPerIp

open Support

/-! ## The invariant -/

/-- The client is counted, and its address falls in a bucket. -/
def Client.countedIn (cloneMask : ℤ) (k : BucketKey) (client : Client) : Bool :=
  client.bumped && client.ip.map (makeIpusersRawip cloneMask) = some k

/-- The global count of a bucket; that of no bucket is zero. -/
def State.globalClients (S : State) (k : BucketKey) : ℤ :=
  (S.findIpusersBucket k).elim 0 IpUsersBucket.globalClients

def State.localClients (S : State) (k : BucketKey) : ℤ :=
  (S.findIpusersBucket k).elim 0 IpUsersBucket.localClients

/-- Every bucket has the number of its clients, and none is empty. -/
structure Accounted (S : State) : Prop where
  globalClients : ∀ k, S.globalClients k =
    S.clientList.countP fun id => (S.clients id).countedIn S.cloneMask k
  localClients : ∀ k, S.localClients k =
    S.clientList.countP fun id =>
      (S.clients id).myConnect && (S.clients id).countedIn S.cloneMask k
  nonempty : ∀ isIPv6 i, ∀ b ∈ S.ipUsersHash isIPv6 i, b.globalClients ≠ 0

/-- The flag says of which family the address is, and a counted client has an
address. -/
structure Client.Ok (client : Client) : Prop where
  family : client.readIp = client.ip
  address : client.bumped = true → client.ip.isSome

/-- The clients, the lists and the tables are in order. -/
structure State.WellFormed (S : State) : Prop where
  lists : Listed S.clientList S.unknownList
  clients : ∀ id, (S.clients id).Ok
  tables : S.TablesOk

/-- What an event must not do: introduce an IPv4 user from a server that is linked
over IPv6, reload the module while a client of `unknown_list` is counted, or move
a counted client to another bucket. -/
def Keeps (S : State) : Event → Prop
  | .webirc id a =>
    id ∈ S.unknownList → (S.clients id).bumped = true →
      (S.clients id).ip.map (makeIpusersRawip S.cloneMask) =
        some (makeIpusersRawip S.cloneMask a)
  | .remoteConnect id ip uplinkIPv6 =>
    id ∉ S.clientList → ∀ a ∈ ip, uplinkIPv6 = true → a.isIPv6 = true
  | .reload _ _ => ∀ id ∈ S.unknownList, (S.clients id).bumped = false
  | _ => True

/-! ## The tally of a list of clients -/

def State.tally (S : State) (ids : List ClientId) : Tally :=
  total (Client.share S.cloneMask) S.clients ids

/-- The share of a client in the bucket of its own address. -/
def Client.owed (cloneMask : ℤ) (client : Client) : Tally :=
  client.shareAt cloneMask client.ip

/-- What the buckets of some clients should have. -/
def State.owed (S : State) (ids : List ClientId) : Tally :=
  total (Client.owed S.cloneMask) S.clients ids

/-- The buckets agree with the clients, in terms of tallies. -/
structure Balanced (S : State) : Prop where
  wellFormed : S.WellFormed
  tallied : Tallied S (S.tally S.clientList)

variable {ids : List ClientId}

section Tally

variable {S : State}

theorem owed_apply (cloneMask : ℤ) (client : Client) (k : BucketKey) :
    client.owed cloneMask k =
      if client.countedIn cloneMask k then
        (1, if client.myConnect then 1 else 0)
      else 0 := by
  unfold Client.owed Client.shareAt Client.countedIn
  cases client.bumped with
  | false => rfl
  | true =>
    cases client.ip with
    | none => rfl
    | some a =>
      simp only [unit, Pi.single_apply, Option.map_some, Option.some.injEq,
        Bool.true_and, decide_eq_true_eq, @eq_comm _ k]

theorem owed_eq_share {client : Client} (hclient : client.Ok) (cloneMask : ℤ) :
    client.owed cloneMask = client.share cloneMask := by
  rw [Client.owed, Client.share, hclient.family]

theorem owed_tally (hclients : ∀ id, (S.clients id).Ok) (ids : List ClientId) :
    S.owed ids = S.tally ids := by
  refine congrArg List.sum (List.map_congr_left fun id _ => ?_)
  exact owed_eq_share (hclients id) S.cloneMask

theorem owed_proper (S : State) (ids : List ClientId) : Proper (S.owed ids) :=
  total_proper (fun c => shareAt_proper c c.ip) S.clients ids

theorem owed_tally_apply (ids : List ClientId) (k : BucketKey) :
    S.owed ids k =
      (((ids.countP fun id => (S.clients id).countedIn S.cloneMask k : ℕ) : ℤ),
        ((ids.countP fun id => (S.clients id).myConnect &&
          (S.clients id).countedIn S.cloneMask k : ℕ) : ℤ)) := by
  induction ids with
  | nil => rfl
  | cons id ids ih =>
    rw [State.owed, total_cons, Pi.add_apply, ← State.owed, ih, owed_apply,
      List.countP_cons, List.countP_cons]
    by_cases hin : (S.clients id).countedIn S.cloneMask k = true
    · simp only [hin, if_true, Bool.and_true, Prod.mk_add_mk, Nat.cast_add,
        Nat.cast_one, Nat.cast_ite, Nat.cast_zero, add_comm]
    · simp only [hin, Bool.and_false, Bool.false_eq_true, if_false, zero_add,
        add_zero]

theorem tally_eq_zero (hclients : ∀ id, (S.clients id).Ok) :
    S.tally ids = 0 ↔ ∀ id ∈ ids, (S.clients id).bumped = false := by
  constructor
  · intro hzero id hid
    by_contra hbumped
    rw [Bool.not_eq_false] at hbumped
    obtain ⟨a, ha⟩ := Option.isSome_iff_exists.mp ((hclients id).address
      hbumped)
    have hcount := congrFun hzero (makeIpusersRawip S.cloneMask a)
    rw [← owed_tally hclients, owed_tally_apply] at hcount
    have hzero := congrArg Prod.fst hcount
    have hnone := List.countP_eq_zero.mp (Int.ofNat_eq_zero.mp hzero) id hid
    simp [Client.countedIn, hbumped, ha] at hnone
  · intro hnone
    apply List.sum_eq_zero
    intro f hf
    obtain ⟨id, hid, rfl⟩ := List.mem_map.mp hf
    exact share_of_not_bumped (hnone id hid)

end Tally

theorem accounted_iff {S : State} (htables : S.TablesOk) :
    Accounted S ↔ Tallied S (S.owed S.clientList) := by
  have hcounts : ∀ k, (S.findIpusersBucket k).elim 0 IpUsersBucket.counts =
      (S.globalClients k, S.localClients k) := by
    intro k
    unfold State.globalClients State.localClients
    cases S.findIpusersBucket k <;> rfl
  rw [Tallied, holds_iff]
  constructor
  · intro h
    refine ⟨fun k => ?_, fun k b hb hzero => ?_⟩
    · rw [hcounts, owed_tally_apply, h.globalClients, h.localClients]
    · exact h.nonempty k.1 _ b (List.mem_of_find?_eq_some hb)
        (congrArg Prod.fst hzero)
  · rintro ⟨h, hne⟩
    have hsplit := h
    simp only [hcounts, owed_tally_apply, Prod.mk.injEq] at hsplit
    refine ⟨fun k => (hsplit k).1, fun k => (hsplit k).2, ?_⟩
    intro isIPv6 i b hb hzero
    have hfind : S.findIpusersBucket (isIPv6, b.rawip) = some b :=
      (htables isIPv6).find_of_mem hb
    -- without clients there are no local clients
    have hk := h (isIPv6, b.rawip)
    have hproper := owed_proper S S.clientList (isIPv6, b.rawip)
    rw [hfind] at hk
    rw [← hk] at hproper
    apply hne _ b hfind
    simp only [Option.elim_some, IpUsersBucket.counts] at hproper
    rw [← empty_iff]
    omega

theorem accounted_iff_tallied {S : State} (hS : S.WellFormed) :
    Accounted S ↔ Tallied S (S.tally S.clientList) := by
  rw [accounted_iff hS.tables, owed_tally hS.clients]

/-! ## Changes of the clients -/

section Steps

variable {S S' : State} {id : ClientId} {c : Client}

theorem ok_update (h : ∀ x, (S.clients x).Ok) (hc : c.Ok) :
    ∀ x, (Function.update S.clients id c x).Ok :=
  (Function.forall_update_iff S.clients fun _ c => c.Ok).mpr
    ⟨hc, fun x _ => h x⟩

theorem Moves.wellFormed (h : Moves S id c S') (hS : S.WellFormed)
    (hc : c.Ok) : S'.WellFormed := by
  refine ⟨?_, ?_, h.tables hS.tables⟩
  · rw [h.clientList, h.unknownList]
    exact hS.lists
  · rw [h.clients]
    exact ok_update hS.clients hc

theorem exceedsMaxperip_balanced (hS : Balanced S) (hid : id ∈ S.clientList)
    (aconf : Option Allow) (exempt : Bool) :
    Balanced (exceedsMaxperip S id aconf exempt).1 := by
  have h := exceedsMaxperip_moves S id aconf exempt
  obtain ⟨hfamily, haddress⟩ := hS.wellFormed.clients id
  refine ⟨h.wellFormed hS.wellFormed ⟨hfamily, fun hbumped => ?_⟩, ?_⟩
  · rcases Bool.or_eq_true_iff.mp hbumped with hold | hip
    · exact haddress hold
    · exact hfamily ▸ hip
  · have htallied := hS.tallied
    rw [State.tally, total_erase hid] at htallied
    rw [State.tally, h.clientList, h.clients, h.cloneMask,
      total_update hS.wellFormed.lists.nodup hid]
    exact h.tallied _ (total_share_proper _ _) htallied

theorem removeClientFromList_balanced (hS : Balanced S)
    (hid : id ∈ S.clientList) : Balanced (removeClientFromList S id) := by
  obtain ⟨hlists, hclients, htables⟩ := hS.wellFormed
  obtain ⟨hfamily, haddress⟩ := hclients id
  let T : State :=
    { S with
      clientList := S.clientList.erase id
      unknownList := S.unknownList.erase id }
  have h : Moves T id { S.clients id with bumped := false }
      (removeClientFromList S id) :=
    decreaseIpusersBucket_moves (S := T) (hfamily.symm ▸ haddress)
  refine ⟨h.wellFormed ⟨hlists.exit id, hclients, htables⟩
    ⟨hfamily, nofun⟩, ?_⟩
  have htallied := hS.tallied
  rw [State.tally, total_erase hid] at htallied
  have hrest := h.tallied _ (total_share_proper _ _) htallied
  rw [share_of_not_bumped rfl, zero_add] at hrest
  rw [State.tally, h.clientList, h.clients, h.cloneMask,
    total_update_of_not_mem hlists.nodup.not_mem_erase]
  exact hrest

theorem newClient_balanced (hS : Balanced S) (hc : c.Ok)
    (hbumped : c.bumped = false) (hid : id ∉ S.clientList)
    {unknown : List ClientId} (hlists : Listed (id :: S.clientList) unknown) :
    Balanced
      { S.setClient id c with
        clientList := id :: S.clientList
        unknownList := unknown } := by
  refine ⟨⟨hlists, ok_update hS.wellFormed.clients hc, hS.wellFormed.tables⟩,
    ?_⟩
  change Tallied S (total (Client.share S.cloneMask)
    (Function.update S.clients id c) (id :: S.clientList))
  rw [total_cons, Function.update_self, share_of_not_bumped hbumped, zero_add,
    total_update_of_not_mem hid]
  exact hS.tallied

theorem registerUser_balanced (hS : Balanced S) (hid : id ∈ S.clientList)
    (aconf : Allow) (exempt : Bool) (outcome : Outcome) :
    Balanced (registerUser S id aconf exempt outcome) := by
  have hcounted := exceedsMaxperip_balanced hS hid (some aconf) exempt
  have hlisted : id ∈ (exceedsMaxperip S id (some aconf) exempt).1.clientList :=
    (exceedsMaxperip_moves S id (some aconf) exempt).clientList ▸ hid
  unfold registerUser
  dsimp only
  split
  · exact removeClientFromList_balanced hcounted hlisted
  · cases outcome with
    | held => exact hcounted
    | killed => exact removeClientFromList_balanced hcounted hlisted
    | registered =>
      exact ⟨⟨hcounted.wellFormed.lists.register id,
        hcounted.wellFormed.clients, hcounted.wellFormed.tables⟩,
        hcounted.tallied⟩

end Steps

/-! ## A reload and `WEBIRC` -/

def State.cleared (S : State) (cloneMask : ℤ) (siphash : List UInt8 → ℕ) :
    State :=
  { S with
    ipUsersHash := fun _ _ => []
    cloneMask := cloneMask
    siphash := siphash }

section Events

variable {S : State} {client : Client}

theorem reload_wellFormed (hS : S.WellFormed) (cloneMask : ℤ)
    (siphash : List UInt8 → ℕ) :
    (rebuildIpusersBuckets (S.cleared cloneMask siphash)).WellFormed := by
  have h := rebuildIpusersBuckets_restores (S.cleared cloneMask siphash)
  refine ⟨?_, ?_, h.tables fun _ => Chains.wellFormed_empty⟩
  · rw [h.clientList, h.unknownList]
    exact hS.lists
  · rw [h.clients]
    exact hS.clients

/-- After a reload the clients of `unknown_list` are counted once more. -/
theorem reload_tallied_iff (hS : S.WellFormed) (cloneMask : ℤ)
    (siphash : List UInt8 → ℕ) :
    let S' := rebuildIpusersBuckets (S.cleared cloneMask siphash)
    Tallied S' (S'.tally S'.clientList) ↔
      ∀ id ∈ S.unknownList, (S.clients id).bumped = false := by
  intro S'
  have h := rebuildIpusersBuckets_restores (S.cleared cloneMask siphash)
  have htallied := h.tallied 0 proper_zero fun _ => rfl
  rw [add_zero, total, List.map_append, List.sum_append] at htallied
  rw [State.tally, h.clientList, h.clients, h.cloneMask]
  have hzero : (S.cleared cloneMask siphash).tally S.unknownList = 0 ↔
      ∀ id ∈ S.unknownList, (S.clients id).bumped = false :=
    tally_eq_zero hS.clients
  rw [← hzero, ← @left_eq_add _ _ _ (total _ _ S.clientList)]
  exact Holds.iff_eq htallied

theorem single_unit_inj (my : Bool) {k k' : BucketKey} :
    (Pi.single k (unit my) : Tally) = Pi.single k' (unit my) ↔ k = k' := by
  constructor
  · intro heq
    by_contra hne
    have hat := congrFun heq k
    rw [Pi.single_eq_same, Pi.single_eq_of_ne hne] at hat
    exact absurd (congrArg Prod.fst hat) Int.one_ne_zero
  · rintro rfl
    rfl

theorem share_eq_iff {cloneMask : ℤ} (a : Address) (hclient : client.Ok) :
    (client.setClientIp a).share cloneMask = client.share cloneMask ↔
      (client.bumped = true → client.ip.map (makeIpusersRawip cloneMask) =
        some (makeIpusersRawip cloneMask a)) := by
  cases hbumped : client.bumped with
  | false =>
    rw [share_of_not_bumped hbumped, share_of_not_bumped (by exact hbumped)]
    exact iff_of_true rfl nofun
  | true =>
    obtain ⟨old, hold⟩ := Option.isSome_iff_exists.mp (hclient.address hbumped)
    rw [share_of_bumped hbumped (hclient.family.trans hold),
      @share_of_bumped _ (client.setClientIp a) a hbumped rfl, hold]
    simp only [Option.map_some, Option.some.injEq, true_imp_iff]
    exact (single_unit_inj client.myConnect).trans eq_comm

theorem webirc_wellFormed (hS : S.WellFormed) (id : ClientId) (a : Address) :
    (S.setClient id ((S.clients id).setClientIp a)).WellFormed :=
  ⟨hS.lists, ok_update hS.clients ⟨rfl, fun _ => rfl⟩, hS.tables⟩

theorem webirc_tallied_iff (hS : Balanced S) {id : ClientId}
    (hid : id ∈ S.clientList) (a : Address) :
    let S' := S.setClient id ((S.clients id).setClientIp a)
    Tallied S' (S'.tally S'.clientList) ↔
      ((S.clients id).bumped = true →
        (S.clients id).ip.map (makeIpusersRawip S.cloneMask) =
          some (makeIpusersRawip S.cloneMask a)) := by
  rw [← share_eq_iff a (hS.wellFormed.clients id),
    ← total_update_eq_iff hS.wellFormed.lists.nodup hid]
  exact Holds.iff_eq hS.tallied

/-- A remote user whose flag is not that of its address is counted in a bucket
of no address. -/
theorem family_of_accounted (hS : Balanced S) {id : ClientId}
    (hid : id ∉ S.clientList) {ip : Option Address} {uplinkIPv6 : Bool}
    (hA : Accounted (step S (.remoteConnect id ip uplinkIPv6))) :
    flagged ip (inheritedFlag ip uplinkIPv6) = ip := by
  cases ip with
  | none => rfl
  | some a =>
    let S₀ : State :=
      { S.setClient id (remoteClient (some a) uplinkIPv6) with
        clientList := id :: S.clientList }
    have hstep : step S (.remoteConnect id (some a) uplinkIPv6) =
        (exceedsMaxperip S₀ id none false).1 := if_neg hid
    have hnew : S₀.clients id = remoteClient (some a) uplinkIPv6 :=
      Function.update_self id _ S.clients
    have h := exceedsMaxperip_moves S₀ id none false
    rw [hnew] at h
    have hbefore : Tallied S₀ ((S₀.clients id).share S.cloneMask +
        S.tally S.clientList) := by
      rw [hnew, share_of_not_bumped rfl, zero_add]
      exact hS.tallied
    have htallied := h.tallied _ (total_share_proper S.clients S.clientList)
      hbefore
    rw [hstep, accounted_iff (h.tables hS.wellFormed.tables), State.owed,
      h.clientList, h.clients, h.cloneMask, total_cons, Function.update_self,
      total_update_of_not_mem hid] at hA
    have heq := Holds.unique hA htallied
    have howed : total (Client.owed S.cloneMask) S₀.clients S.clientList =
        S.tally S.clientList :=
      (total_update_of_not_mem hid _).trans
        (owed_tally hS.wellFormed.clients S.clientList)
    have hkey := (single_unit_inj false).mp
      (add_right_cancel (heq.trans (congrArg _ howed.symm)))
    have hfamily := congrArg Prod.fst hkey
    rw [fst_makeIpusersRawip, fst_makeIpusersRawip] at hfamily
    exact congrArg (fun isIPv6 => some { a with isIPv6 := isIPv6 }) hfamily.symm

/-- An event keeps the accounting unless it is one of the three that do not. -/
theorem step_balanced (hS : Balanced S) {e : Event} (hkeeps : Keeps S e) :
    Balanced (step S e) := by
  cases e with
  | addConnection id a =>
    dsimp only [step]
    split
    · exact hS
    · next hid =>
        exact newClient_balanced hS (c := localClient a) ⟨rfl, nofun⟩ rfl hid
          (hS.wellFormed.lists.connect hid)
  | webirc id a =>
    dsimp only [step]
    split
    · next hid =>
        exact ⟨webirc_wellFormed hS.wellFormed id a, (webirc_tallied_iff hS
          (hS.wellFormed.lists.subset hid) a).mpr (hkeeps hid)⟩
    · exact hS
  | registerUser id aconf exempt outcome =>
    dsimp only [step]
    split
    · next hid =>
        exact registerUser_balanced hS (hS.wellFormed.lists.subset hid) _ _ _
    · exact hS
  | remoteConnect id ip uplinkIPv6 =>
    dsimp only [step]
    split
    · exact hS
    · next hid =>
        have hfamily := flagged_inheritedFlag.mpr (hkeeps hid)
        have hok : (remoteClient ip uplinkIPv6).Ok := ⟨hfamily, nofun⟩
        exact exceedsMaxperip_balanced (newClient_balanced hS hok rfl hid
          (hS.wellFormed.lists.introduce hid)) List.mem_cons_self _ _
  | exitClient id =>
    dsimp only [step]
    split
    · next hid => exact removeClientFromList_balanced hS hid
    · exact hS
  | reload cloneMask siphash =>
    exact ⟨reload_wellFormed hS.wellFormed cloneMask siphash,
      (reload_tallied_iff hS.wellFormed cloneMask siphash).mpr hkeeps⟩

theorem keeps_of_accounted (hS : Balanced S) {e : Event}
    (hA : Accounted (step S e)) : Keeps S e := by
  cases e with
  | webirc id a =>
    intro hid
    dsimp only [step] at hA
    rw [if_pos hid] at hA
    have hwf := webirc_wellFormed hS.wellFormed id a
    replace hA := (accounted_iff_tallied hwf).mp hA
    exact (webirc_tallied_iff hS (hS.wellFormed.lists.subset hid) a).mp hA
  | reload cloneMask siphash =>
    have hwf := reload_wellFormed hS.wellFormed cloneMask siphash
    exact (reload_tallied_iff hS.wellFormed cloneMask siphash).mp
      ((accounted_iff_tallied hwf).mp hA)
  | remoteConnect id ip uplinkIPv6 =>
    intro hid
    exact flagged_inheritedFlag.mp (family_of_accounted hS hid hA)
  | addConnection | registerUser | exitClient => trivial

end Events

/-! ## Runs -/

theorem start_balanced (cloneMask : ℤ) (siphash : List UInt8 → ℕ) :
    Balanced (start cloneMask siphash) :=
  ⟨⟨.nil, fun _ => ⟨rfl, nofun⟩, fun _ => Chains.wellFormed_empty⟩,
    fun _ => rfl⟩

/-- The buckets agree with the clients in every state of a run, exactly if no
IPv4 user is introduced from a server that is linked over IPv6, no reload meets a
counted client in `unknown_list` and no counted client is moved to another
bucket. -/
theorem accounted_run_iff (cloneMask : ℤ) (siphash : List UInt8 → ℕ)
    (events : List Event) :
    (∀ done, done <+: events →
        Accounted (run (start cloneMask siphash) done)) ↔
      ∀ done e, done ++ [e] <+: events →
        Keeps (run (start cloneMask siphash) done) e := by
  refine forall_prefix_iff_of_mem (start_balanced cloneMask siphash)
    (fun S hS => (accounted_iff_tallied hS.wellFormed).mpr hS.tallied) ?_ ?_
  · exact fun S e _ hS hkeeps => step_balanced hS hkeeps
  · exact fun S e _ hS hA => keeps_of_accounted hS hA

/-- 192.0.2.1. -/
def sampleAddress : Address := ⟨false, .ofBytes [192, 0, 2, 1]⟩

/-- A client from 192.0.2.1 is held, the module is reloaded, and the client
leaves. -/
def heldEvents : List Event :=
  [.addConnection 0 sampleAddress, .registerUser 0 ⟨3, 4⟩ false .held,
    .reload 64 fun _ => 0, .exitClient 0]

/-- The held client is counted twice after the reload, and its bucket stays when
it has left. -/
theorem not_accounted_heldEvents :
    (run (start 64 fun _ => 0) (heldEvents.take 3)).globalClients
        (false, [192, 0, 2, 1]) = 2 ∧
      (run (start 64 fun _ => 0) (heldEvents.take 3)).clientList = [0] ∧
      ¬ Accounted (run (start 64 fun _ => 0) (heldEvents.take 3)) ∧
      (run (start 64 fun _ => 0) heldEvents).globalClients
        (false, [192, 0, 2, 1]) = 1 ∧
      (run (start 64 fun _ => 0) heldEvents).clientList = [] := by
  refine ⟨by decide, by decide, fun h => ?_, by decide, by decide⟩
  have hcount := h.globalClients (false, [192, 0, 2, 1])
  revert hcount
  decide

/-! ## The limits -/

/-- Two local users and a remote user from 192.0.2.1, and a client that
registers. -/
def sharedEvents : List Event :=
  [.addConnection 0 sampleAddress, .registerUser 0 ⟨3, 4⟩ false .registered,
    .addConnection 1 sampleAddress, .registerUser 1 ⟨3, 4⟩ false .registered,
    .remoteConnect 2 (some sampleAddress) false, .addConnection 3 sampleAddress]

end UnrealIrcd.MaxPerIp
