import UnrealIrcd.ConnThrottle.Tally
import UnrealIrcd.Support.Runs

/-!
# The accounting of prefixes

When the buckets agree with the stored categories of the clients.  The hooks keep
the agreement for the clients of this server.  A remote user counts as an IPv6 user
if its server is linked over IPv6, which is wrong for an IPv4 address.  A reload
forgets the clients that have a category but are not yet users, since only users
are counted then and the category stays with the client; and `WEBIRC` moves a
client to another prefix without a change of the buckets.
`accounted_throttle_iff` says this for whole runs.
-/

namespace UnrealIrcd.ConnThrottle

open Matching Support List Function
open MaxPerIp (Address ClientId)

/-! ## The invariant -/

/-- The IPv6 address of a client, whatever its flag is. -/
def Client.address (client : Client) : Option RawIp := ipv6Of client.ip

def prefixKey (ipv6 : Option RawIp) (tier : Tier) : Option BucketKey :=
  ipv6.map fun rawip => ctMakeRawip rawip tier

/-- The client is counted in a bucket under a category. -/
def Client.countedIn (category : Category) (k : BucketKey) (client : Client) :
    Bool :=
  client.category = category && prefixKey client.address k.1 = some k

/-- A count of a bucket; that of no bucket is zero. -/
def State.counter (S : State) (field : Bucket → ℤ) (k : BucketKey) : ℤ :=
  (S.ctFindBucket k).elim 0 field

def State.members (S : State) (category : Category) (k : BucketKey) : ℕ :=
  S.clientList.countP fun id => (S.clients id).countedIn category k

/-- Every bucket has the numbers of its clients, none is negative, and no bucket is
empty. -/
structure Accounted (S : State) : Prop where
  knownUsers : ∀ k, S.counter Bucket.knownUsers k = S.members .knownUsers k
  exceptedUnknowns : ∀ k,
    S.counter Bucket.exceptedUnknowns k = S.members .exceptedUnknowns k
  unknownUsers : ∀ k,
    S.counter Bucket.unknownUsers k = S.members .unknownUsers k
  nonneg : ∀ tier i, ∀ b ∈ S.ctBucketHash tier i,
    0 ≤ b.knownUsers ∧ 0 ≤ b.exceptedUnknowns ∧ 0 ≤ b.unknownUsers
  nonempty : ∀ tier i, ∀ b ∈ S.ctBucketHash tier i, b.isEmpty = false

/-- The clients that a reload counts. -/
def Client.isRegular (client : Client) : Bool :=
  client.isUser && !client.isULine

theorem isRegular_iff {client : Client} :
    client.isRegular = true ↔
      client.isUser = true ∧ client.isULine = false := by
  simp [Client.isRegular]

/-- What an event must not do: introduce an IPv4 user from a server that is linked
over IPv6, reload the module while a client is counted that is not a regular user,
or move a counted client to another bucket. -/
def Keeps (S : State) : Event → Prop
  | .webirc id a =>
    id ∈ S.unknownList → (S.clients id).category ≠ .none →
      ∀ tier, prefixKey (ipv6Of (some a)) tier =
        prefixKey (S.clients id).address tier
  | .remoteConnect id ip uplinkIPv6 isULine _ _ =>
    id ∉ S.clientList → isULine = false →
      ∀ a ∈ ip, uplinkIPv6 = true → a.isIPv6 = true
  | .reload _ _ => ∀ id ∈ S.clientList, (S.clients id).isRegular = false →
      (S.clients id).category = .none ∨ (S.clients id).ipv6 = none
  | _ => True

/-- The flag says of which family the address is, unless the client is never
counted. -/
def Client.Ok (client : Client) : Prop :=
  client.isULine = false ∨ client.category ≠ .none →
    client.ipv6 = client.address

/-- A client of `unknown_list`. -/
def Client.Unregistered (client : Client) : Prop :=
  client.isUser = false ∧ client.isULine = false

structure State.WellFormed (S : State) : Prop where
  lists : Listed S.clientList S.unknownList
  unknown : ∀ id ∈ S.unknownList, (S.clients id).Unregistered
  clients : ∀ id, (S.clients id).Ok
  tables : S.TablesOk

/-! ## The tally of a list of clients -/

/-- The shares of some clients. -/
def State.tally (S : State) (ids : List ClientId) : Tally :=
  total Client.share S.clients ids

/-- The share of a client in the buckets of its own address. -/
def Client.owed (client : Client) : Tally :=
  shareAt client.address client.category.unit

/-- What the buckets of some clients should have. -/
def State.owed (S : State) (ids : List ClientId) : Tally :=
  total Client.owed S.clients ids

/-- The buckets agree with the clients, in terms of tallies. -/
structure Balanced (S : State) : Prop where
  wellFormed : S.WellFormed
  tallied : Tallied S (S.tally S.clientList)

section Tally

variable {S : State} (client : Client) (k : BucketKey) (ipv6 : Option RawIp)

/-- Each occurrence of the tier counts. -/
theorem prefixes_apply (rawip : RawIp) (c : Counts) (ts : List Tier) :
    prefixes rawip c ts k =
      if ctMakeRawip rawip k.1 = k then ts.count k.1 • c else 0 := by
  induction ts with
  | nil =>
    rw [count_nil, zero_nsmul, ite_self]
    rfl
  | cons tier ts ih =>
    rw [prefixes_cons, Pi.add_apply, ih, Pi.single_apply]
    by_cases htier : tier = k.1
    · subst htier
      rw [count_cons_self, succ_nsmul']
      by_cases hk : ctMakeRawip rawip k.1 = k
      · rw [if_pos hk, if_pos hk, if_pos hk.symm]
      · rw [if_neg hk, if_neg hk, if_neg (Ne.symm hk), add_zero]
    · have hne : k ≠ ctMakeRawip rawip tier := fun heq =>
        htier (congrArg Prod.fst heq).symm
      rw [if_neg hne, zero_add, count_cons_of_ne htier]

theorem count_tiers : ∀ tier, tiers.count tier = 1 := by decide

theorem shareAt_apply (c : Counts) :
    shareAt ipv6 c k = if prefixKey ipv6 k.1 = some k then c else 0 := by
  unfold shareAt prefixKey
  cases ipv6 with
  | none => rfl
  | some rawip =>
    dsimp only
    rw [prefixes_apply, count_tiers, one_nsmul]
    simp only [Option.map_some, Option.some.injEq]

theorem shareAt_zero : shareAt ipv6 0 = 0 := by
  funext k
  rw [shareAt_apply, ite_self]
  rfl

/-- Counts are in the same buckets exactly if the addresses have the same
prefixes. -/
theorem shareAt_inj {ipv6 ipv6' : Option RawIp} {c : Counts} (hc : c ≠ 0) :
    shareAt ipv6 c = shareAt ipv6' c ↔
      ∀ tier, prefixKey ipv6 tier = prefixKey ipv6' tier := by
  constructor
  · intro heq tier
    -- whichever of the two is in a bucket, so is the other
    have hkey : ∀ {x y : Option RawIp} {k}, shareAt x c = shareAt y c →
        prefixKey x tier = some k → prefixKey y tier = some k := by
      intro x y k hshare hk
      obtain ⟨rawip, -, hrawip⟩ := Option.map_eq_some_iff.mp hk
      have htier : k.1 = tier := (congrArg Prod.fst hrawip).symm
      have hat := congrFun hshare k
      rw [shareAt_apply, shareAt_apply, htier, if_pos hk] at hat
      by_contra hnot
      rw [if_neg hnot] at hat
      exact hc hat
    apply Option.ext
    exact fun k => ⟨hkey heq, hkey heq.symm⟩
  · intro h
    funext k
    rw [shareAt_apply, shareAt_apply, h]

theorem share_nonneg : 0 ≤ client.share := by
  intro k
  rw [Client.share, shareAt_apply]
  split_ifs
  · exact unit_nonneg _
  · exact le_refl 0

theorem owed_eq_share {client : Client} (hclient : client.Ok) :
    client.owed = client.share := by
  unfold Client.owed Client.share
  by_cases hcategory : client.category = .none
  · have hzero : client.category.unit = 0 := by rw [hcategory]; rfl
    rw [hzero, shareAt_zero, shareAt_zero]
  · rw [hclient (.inr hcategory)]

theorem owed_eq_tally (hclients : ∀ id, (S.clients id).Ok)
    (ids : List ClientId) : S.owed ids = S.tally ids := by
  refine congrArg List.sum (map_congr_left fun id _ => ?_)
  exact owed_eq_share (hclients id)

theorem owed_apply (ids : List ClientId) :
    S.owed ids k =
      (((ids.countP fun id =>
          (S.clients id).countedIn .knownUsers k : ℕ) : ℤ),
        ((ids.countP fun id =>
          (S.clients id).countedIn .exceptedUnknowns k : ℕ) : ℤ),
        ((ids.countP fun id =>
          (S.clients id).countedIn .unknownUsers k : ℕ) : ℤ)) := by
  induction ids with
  | nil => rfl
  | cons id ids ih =>
    rw [State.owed, total_cons, Pi.add_apply, ← State.owed, ih, Client.owed,
      shareAt_apply, countP_cons, countP_cons, countP_cons]
    by_cases hin : prefixKey (S.clients id).address k.1 = some k
    · cases hcategory : (S.clients id).category <;>
        simp [Client.countedIn, hin, hcategory, Category.unit, add_comm]
    · simp [Client.countedIn, hin]

theorem share_eq_zero_iff :
    client.share = 0 ↔ client.category = .none ∨ client.ipv6 = none := by
  constructor
  · intro hzero
    by_contra hnot
    obtain ⟨hcategory, hipv6⟩ := not_or.mp hnot
    obtain ⟨rawip, hrawip⟩ := Option.ne_none_iff_exists'.mp hipv6
    have hat := congrFun hzero (ctMakeRawip rawip 0)
    have hkey : prefixKey (some rawip) (ctMakeRawip rawip 0).1 =
        some (ctMakeRawip rawip 0) := rfl
    rw [Client.share, shareAt_apply, hrawip, if_pos hkey] at hat
    exact unit_ne_zero hcategory hat
  · rintro (h | h)
    · rw [Client.share, h]
      exact shareAt_zero client.ipv6
    · rw [Client.share, h]
      rfl

end Tally

theorem accounted_iff {S : State} (htables : S.TablesOk) :
    Accounted S ↔ Tallied S (S.owed S.clientList) := by
  have hcounts : ∀ k, (S.ctFindBucket k).elim 0 Bucket.counts =
      (S.counter Bucket.knownUsers k, S.counter Bucket.exceptedUnknowns k,
        S.counter Bucket.unknownUsers k) := by
    intro k
    unfold State.counter
    cases S.ctFindBucket k <;> rfl
  have hfind : ∀ {tier i b}, b ∈ S.ctBucketHash tier i →
      S.ctFindBucket (tier, b.rawip) = some b :=
    fun hb => (htables _).find_of_mem hb
  rw [Tallied, holds_iff]
  simp only [hcounts, owed_apply, Prod.mk.injEq]
  constructor
  · intro h
    refine ⟨fun k => ⟨h.knownUsers k, h.exceptedUnknowns k, h.unknownUsers k⟩,
      fun k b hb hzero => ?_⟩
    have hne := h.nonempty k.1 _ b (mem_of_find?_eq_some hb)
    rw [(isEmpty_iff b).mpr hzero] at hne
    cases hne
  · rintro ⟨h, hne⟩
    refine ⟨fun k => (h k).1, fun k => (h k).2.1, fun k => (h k).2.2, ?_, ?_⟩
    · intro tier i b hb
      have hk := h (tier, b.rawip)
      simp only [State.counter, hfind hb, Option.elim_some] at hk
      omega
    · intro tier i b hb
      rw [Bool.eq_false_iff]
      exact fun hempty => hne _ b (hfind hb) ((isEmpty_iff b).mp hempty)

theorem accounted_iff_tallied {S : State} (hS : S.WellFormed) :
    Accounted S ↔ Tallied S (S.tally S.clientList) := by
  rw [accounted_iff hS.tables, owed_eq_tally hS.clients]

/-! ## Hooks -/

/-- What the hooks keep of a client. -/
structure Becomes (client client' : Client) : Prop where
  unregistered : client.Unregistered → client'.Unregistered
  ok : client.Ok → client'.Ok

/-- A client becomes `c`, and the buckets change with it. -/
structure Moves (S : State) (id : ClientId) (c : Client) (S' : State) :
    Prop where
  clients : S'.clients = Function.update S.clients id c
  becomes : Becomes (S.clients id) c
  clientList : S'.clientList = S.clientList
  unknownList : S'.unknownList = S.unknownList
  tables : S.TablesOk → S'.TablesOk
  tallied : ∀ f, 0 ≤ f → Tallied S ((S.clients id).share + f) →
    Tallied S' (c.share + f)

variable {client : Client}

section Hooks

variable {S S' S'' : State} {id : ClientId}

theorem Moves.refl (S : State) (id : ClientId) : Moves S id (S.clients id) S :=
  ⟨(update_eq_self id S.clients).symm, ⟨fun h => h, fun h => h⟩, rfl, rfl,
    fun h => h, fun _ _ h => h⟩

theorem Moves.trans {c c' : Client} (h : Moves S id c S')
    (h' : Moves S' id c' S'') : Moves S id c' S'' := by
  have hc : S'.clients id = c := by rw [h.clients, update_self]
  refine ⟨?_, ?_, h'.clientList.trans h.clientList,
    h'.unknownList.trans h.unknownList, fun hS => h'.tables (h.tables hS), ?_⟩
  · rw [h'.clients, h.clients, update_idem]
  · have hbecomes := h'.becomes
    rw [hc] at hbecomes
    exact ⟨fun hold => hbecomes.unregistered (h.becomes.unregistered hold),
      fun hold => hbecomes.ok (h.becomes.ok hold)⟩
  · intro f hf hS
    apply h'.tallied f hf
    rw [hc]
    exact h.tallied f hf hS

/-- Only the tables and the category of a client change. -/
theorem OnlyTables.moves {category : Category} (h : OnlyTables S S')
    (hfamily : (S.clients id).Ok → category ≠ .none →
      (S.clients id).ipv6 = (S.clients id).address)
    (htallied : ∀ f, 0 ≤ f → Tallied S ((S.clients id).share + f) →
      Tallied S' (({ S.clients id with category := category } : Client).share +
        f)) :
    Moves S id { S.clients id with category := category }
      (S'.setCategory id category) := by
  refine ⟨?_, ⟨fun hold => hold, fun hok => ?_⟩, h.clientList, h.unknownList,
    h.tables, htallied⟩
  · change update S'.clients id { S'.clients id with category := _ } = _
    rw [h.clients]
  · rintro (hregular | hcategory)
    · exact hok (.inl hregular)
    · exact hfamily hok hcategory

theorem share_of_none (hcategory : client.category = .none) :
    client.share = 0 :=
  (share_eq_zero_iff client).mpr (.inl hcategory)

section

variable (S : State) (client : Client) (category : Category)

theorem ctBucketBumpClient_onlyTables :
    OnlyTables S (ctBucketBumpClient S client category) := by
  unfold ctBucketBumpClient
  cases client.ipv6 with
  | none => exact .refl S
  | some rawip => exact .foldl bumpTier_onlyTables tiers S

theorem ctBucketUnbumpClient_onlyTables :
    OnlyTables S (ctBucketUnbumpClient S client category) := by
  unfold ctBucketUnbumpClient
  cases client.ipv6 with
  | none => exact .refl S
  | some rawip => exact .foldl unbumpTier_onlyTables tiers S

end

theorem ctBucketBumpClient_tallied {f : Tally} {category : Category}
    (hcategory : category ≠ .none) (hf : 0 ≤ f) (h : Tallied S f) :
    Tallied (ctBucketBumpClient S client category)
      (({ client with category := category } : Client).share + f) := by
  rw [← zero_add f, ← shareAt_zero client.ipv6] at h
  change Tallied _ (shareAt client.ipv6 category.unit + f)
  unfold ctBucketBumpClient
  unfold shareAt at h ⊢
  cases hipv6 : client.ipv6 with
  | none =>
    rw [hipv6] at h
    exact h
  | some rawip =>
    rw [hipv6] at h
    exact foldl_tiers_tallied le_rfl (unit_nonneg category)
      (fun hf => bumpTier_tallied hf hcategory) tiers hf h

theorem ctBucketUnbumpClient_tallied {f : Tally}
    (hcategory : client.category ≠ .none) (hf : 0 ≤ f)
    (h : Tallied S (client.share + f)) :
    Tallied (ctBucketUnbumpClient S client client.category) f := by
  rw [Client.share] at h
  rw [← zero_add f, ← shareAt_zero client.ipv6]
  unfold ctBucketUnbumpClient
  unfold shareAt at h ⊢
  cases hipv6 : client.ipv6 with
  | none =>
    rw [hipv6] at h
    exact h
  | some rawip =>
    rw [hipv6] at h
    exact foldl_tiers_tallied (unit_nonneg _) le_rfl
      (fun hf => unbumpTier_tallied hf hcategory) tiers hf h

theorem ctClassify_ne_none (client : Client) (excepted : Bool) :
    ctClassify client excepted ≠ .none := by
  unfold ctClassify
  split_ifs <;> exact nofun

/-- The client with the category of `ct_classify`. -/
def Client.classified (client : Client) (excepted : Bool) : Client :=
  { client with category := ctClassify client excepted }

/-- Classification counts the client, which must not be counted yet. -/
theorem classify_tallied {f : Tally} (hf : 0 ≤ f) (h : Tallied S f)
    (excepted : Bool) :
    Tallied (classify S id excepted)
      (((S.clients id).classified excepted).share + f) :=
  ctBucketBumpClient_tallied (ctClassify_ne_none _ excepted) hf h

theorem classify_onlyTables (S : State) (id : ClientId) (excepted : Bool) :
    OnlyTables (S.setClient id ((S.clients id).classified excepted))
      (classify S id excepted) :=
  ctBucketBumpClient_onlyTables _ _ _

theorem classify_moves (hregular : (S.clients id).isULine = false)
    (hzero : (S.clients id).category = .none) (excepted : Bool) :
    Moves S id ((S.clients id).classified excepted)
      (classify S id excepted) := by
  have honly := classify_onlyTables S id excepted
  refine ⟨honly.clients, ⟨fun h => h, fun hok _ => hok (.inl hregular)⟩,
    honly.clientList, honly.unknownList, honly.tables, ?_⟩
  intro f hf h
  rw [share_of_none hzero, zero_add] at h
  exact classify_tallied hf h excepted

section

variable (S : State) (id : ClientId) (excepted : Bool)

theorem ctQuit_moves :
    Moves S id { S.clients id with category := .none } (ctQuit S id) := by
  unfold ctQuit
  dsimp only
  split_ifs with hcategory
  · rw [← hcategory]
    exact .refl S id
  · refine (ctBucketUnbumpClient_onlyTables S _ _).moves
      (fun _ hnone => absurd rfl hnone) fun f hf h => ?_
    rw [share_of_none rfl, zero_add]
    exact ctBucketUnbumpClient_tallied hcategory hf h

theorem ctKnownUserCacheChange_moves :
    ∃ c, Moves S id c (ctKnownUserCacheChange S id excepted) := by
  unfold ctKnownUserCacheChange
  cases hipv6 : (S.clients id).ipv6 with
  | none => exact ⟨_, .refl S id⟩
  | some rawip =>
    dsimp only
    split_ifs with hsame
    · exact ⟨_, .refl S id⟩
    · refine ⟨_, OnlyTables.moves (.foldl changeTier_onlyTables tiers S)
        (fun hok _ => hok (.inr (not_or.mp hsame).1)) ?_⟩
      intro f hf h
      change Tallied _ (shareAt (S.clients id).ipv6 _ + f)
      rw [Client.share] at h
      unfold shareAt at h ⊢
      rw [hipv6] at h ⊢
      exact foldl_tiers_tallied (unit_nonneg _) (unit_nonneg _)
        (fun hf => changeTier_tallied hf (not_or.mp hsame).1
          (ctClassify_ne_none _ excepted)) tiers hf h

theorem updateKnownUserCache_moves (known excepted : Bool) :
    ∃ c, Moves S id c (updateKnownUserCache S id known excepted) := by
  have hset : Moves S id { S.clients id with knownUserCached := known }
      (S.setClient id { S.clients id with knownUserCached := known }) :=
    ⟨rfl, ⟨fun h => h, fun h => h⟩, rfl, rfl, fun h => h, fun _ _ h => h⟩
  unfold updateKnownUserCache
  split_ifs
  · exact ⟨_, hset⟩
  · obtain ⟨c, hc⟩ := ctKnownUserCacheChange_moves _ id excepted
    exact ⟨c, hset.trans hc⟩

theorem ctAllowClient_moves (hregular : (S.clients id).isULine = false)
    (limits : Limits) (excepted : Bool) :
    ∃ c, Moves S id c (ctAllowClient S id limits excepted).1 := by
  unfold ctAllowClient
  cases (S.clients id).ipv6 with
  | none => exact ⟨_, .refl S id⟩
  | some rawip =>
    split_ifs with hcategory
    · exact ⟨_, .refl S id⟩
    · exact ⟨_, classify_moves hregular (not_not.mp hcategory) excepted⟩
    · exact ⟨_, classify_moves hregular (not_not.mp hcategory) excepted⟩

theorem ctRemoteConnectBuckets_moves :
    ∃ c, Moves S id c (ctRemoteConnectBuckets S id excepted) := by
  unfold ctRemoteConnectBuckets
  split_ifs with hregular _ hcategory
  · exact ⟨_, .refl S id⟩
  · exact ⟨_, .refl S id⟩
  · exact ⟨_, .refl S id⟩
  · exact ⟨_, classify_moves (Bool.eq_false_iff.mpr hregular)
      (not_not.mp hcategory) excepted⟩

end

end Hooks

/-! ## Changes of the lists -/

section Steps

variable {S S' : State} {id : ClientId}

theorem unknown_update {unknown : List ClientId}
    (h : ∀ x ∈ unknown, x ≠ id → (S.clients x).Unregistered)
    (hid : id ∈ unknown → client.Unregistered) :
    ∀ x ∈ unknown, (update S.clients id client x).Unregistered :=
  (forall_update_iff S.clients fun x c =>
    x ∈ unknown → c.Unregistered).mpr ⟨hid, fun x hne hx => h x hx hne⟩

theorem ok_update (h : ∀ x, (S.clients x).Ok) (hclient : client.Ok) :
    ∀ x, (update S.clients id client x).Ok :=
  (forall_update_iff S.clients fun _ c => c.Ok).mpr ⟨hclient, fun x _ => h x⟩

theorem Moves.balanced (h : Moves S id client S') (hS : Balanced S)
    (hid : id ∈ S.clientList) : Balanced S' := by
  obtain ⟨hlists, hunknown, hclients, htables⟩ := hS.wellFormed
  refine ⟨⟨?_, ?_, ?_, h.tables htables⟩, ?_⟩
  · rw [h.clientList, h.unknownList]
    exact hlists
  · rw [h.clients, h.unknownList]
    exact unknown_update (fun x hx _ => hunknown x hx)
      fun hmem => h.becomes.unregistered (hunknown id hmem)
  · rw [h.clients]
    exact ok_update hclients (h.becomes.ok (hclients id))
  · have htallied := hS.tallied
    rw [State.tally, total_erase hid] at htallied
    rw [State.tally, h.clientList, h.clients, total_update hlists.nodup hid]
    exact h.tallied _ (total_nonneg share_nonneg) htallied

theorem exitClient_balanced (hS : Balanced S) (hid : id ∈ S.clientList) :
    Balanced (exitClient S id) := by
  have hmoves := ctQuit_moves S id
  have hquit := hmoves.balanced hS hid
  have hlists := hquit.wellFormed.lists
  have htallied := hquit.tallied
  -- the client that leaves is no longer counted
  rw [State.tally, total_erase (hmoves.clientList ▸ hid), hmoves.clients,
    update_self, share_of_none rfl, zero_add, ← hmoves.clients]
    at htallied
  exact ⟨⟨hlists.exit id, fun x hx => hquit.wellFormed.unknown x
    (mem_of_mem_erase hx), hquit.wellFormed.clients, hquit.wellFormed.tables⟩,
    htallied⟩

theorem newClient_balanced (hS : Balanced S) (hid : id ∉ S.clientList)
    {unknown : List ClientId} (hlists : Listed (id :: S.clientList) unknown)
    (huser : ∀ x ∈ unknown, x ≠ id → x ∈ S.unknownList)
    (hclient : id ∈ unknown → client.Unregistered) (hok : client.Ok)
    (hcategory : client.category = .none) :
    Balanced
      { S.setClient id client with
        clientList := id :: S.clientList
        unknownList := unknown } := by
  refine ⟨⟨hlists, ?_, ok_update hS.wellFormed.clients hok,
    hS.wellFormed.tables⟩, ?_⟩
  · exact unknown_update (fun x hx hne =>
      hS.wellFormed.unknown x (huser x hx hne)) hclient
  · change Tallied S (total Client.share (update S.clients id client)
      (id :: S.clientList))
    rw [total_cons, update_self, share_of_none hcategory, zero_add,
      total_update_of_not_mem hid]
    exact hS.tallied

/-- A share does not depend on whether the client is a user. -/
theorem registered_balanced (hS : Balanced S) (hid : id ∈ S.clientList) :
    Balanced
      { S.setClient id { S.clients id with isUser := true } with
        unknownList := S.unknownList.erase id } := by
  obtain ⟨hlists, hunknown, hclients, htables⟩ := hS.wellFormed
  refine ⟨⟨hlists.register id, ?_, ok_update hclients (hclients id), htables⟩,
    ?_⟩
  · exact unknown_update
      (fun x hx _ => hunknown x (mem_of_mem_erase hx))
      fun hmem => absurd hmem hlists.unknown_nodup.not_mem_erase
  · change Tallied S (total Client.share (update S.clients id _) S.clientList)
    rw [total_update hlists.nodup hid]
    have htallied := hS.tallied
    rwa [State.tally, total_erase hid] at htallied

end Steps

/-! ## A reload -/

/-- What a reload counts of a client. -/
def Client.recounted (client : Client) : Tally :=
  if client.isRegular then client.share else 0

/-- What a reload leaves out. -/
def Client.forgotten (client : Client) : Tally :=
  if client.isRegular then 0 else client.share

open Client (recounted forgotten)

/-- Clients have been counted once each. -/
structure Rebuilds (S : State) (ids : List ClientId) (S' : State) : Prop where
  becomes : ∀ x, Becomes (S.clients x) (S'.clients x)
  forgotten : ∀ x, (S'.clients x).forgotten = (S.clients x).forgotten
  clientList : S'.clientList = S.clientList
  unknownList : S'.unknownList = S.unknownList
  tables : S.TablesOk → S'.TablesOk
  tallied : Tallied S' (total Client.recounted S'.clients ids)

section Reload

variable {S S' : State} {id : ClientId} {excepted : ClientId → Bool}
  {ids : List ClientId} (client)

theorem recounted_nonneg : 0 ≤ client.recounted := by
  unfold recounted
  split_ifs
  · exact share_nonneg _
  · exact le_refl 0

theorem forgotten_nonneg : 0 ≤ client.forgotten := by
  unfold forgotten
  split_ifs
  · exact le_refl 0
  · exact share_nonneg _

theorem recounted_add_forgotten :
    client.recounted + client.forgotten = client.share := by
  unfold recounted forgotten
  split_ifs
  · exact add_zero _
  · exact zero_add _

theorem rebuildClient_eq (excepted : ClientId → Bool) (S : State)
    (id : ClientId) :
    rebuildClient excepted S id =
      if (S.clients id).isRegular ∧ (S.clients id).ipv6 ≠ none then
        classify S id (excepted id)
      else S := by
  unfold rebuildClient Client.isRegular
  cases (S.clients id).isUser <;> cases (S.clients id).isULine <;>
    by_cases hipv6 : (S.clients id).ipv6 = none <;> simp [hipv6]

theorem Rebuilds.rebuildClient (h : Rebuilds S ids S') (hid : id ∉ ids) :
    Rebuilds S (ids ++ [id]) (rebuildClient excepted S' id) := by
  have hsum : ∀ clients, total recounted clients (ids ++ [id]) =
      (clients id).recounted + total recounted clients ids := by
    intro clients
    rw [total, map_append, sum_append, add_comm]
    exact congrArg (· + _) (total_singleton id)
  rw [rebuildClient_eq]
  split_ifs with hcounted
  · have honly := classify_onlyTables S' id (excepted id)
    have hclients : (classify S' id (excepted id)).clients =
        update S'.clients id
          ((S'.clients id).classified (excepted id)) := honly.clients
    have hregular : ((S'.clients id).classified (excepted id)).isRegular :=
      hcounted.1
    refine ⟨fun x => ?_, fun x => ?_, honly.clientList.trans h.clientList,
      honly.unknownList.trans h.unknownList,
      fun hS => honly.tables (h.tables hS), ?_⟩
    · rw [hclients]
      by_cases hx : x = id
      · subst hx
        have hold := h.becomes x
        rw [update_self]
        refine ⟨hold.unregistered, fun hok _ => hold.ok hok (.inl ?_)⟩
        exact (isRegular_iff.mp hcounted.1).2
      · rw [update_of_ne hx]
        exact h.becomes x
    · rw [hclients, ← h.forgotten, apply_update
        (fun _ client => Client.forgotten client),
        update_eq_self_iff.mpr]
      unfold Client.forgotten
      rw [if_pos hregular, if_pos hcounted.1]
    · rw [hsum, hclients, update_self, total_update_of_not_mem hid,
        recounted, if_pos hregular]
      exact classify_tallied (total_nonneg recounted_nonneg) h.tallied _
  · have hzero : (S'.clients id).recounted = 0 := by
      unfold recounted
      split_ifs with hregular
      · rw [share_eq_zero_iff]
        exact .inr (not_not.mp fun hne => hcounted ⟨hregular, hne⟩)
      · rfl
    refine { h with tallied := ?_ }
    rw [hsum, hzero, zero_add]
    exact h.tallied

theorem foldl_rebuildClient (h : Tallied S 0) (hnodup : ids.Nodup) :
    Rebuilds S ids (ids.foldl (rebuildClient excepted) S) := by
  induction ids using List.reverseRecOn with
  | nil =>
    exact ⟨fun _ => ⟨fun h => h, fun h => h⟩, fun _ => rfl, rfl, rfl,
      fun h => h, h⟩
  | append_singleton ids id ih =>
    obtain ⟨hids, -, hdisjoint⟩ := nodup_append.mp hnodup
    rw [foldl_append]
    refine (ih hids).rebuildClient fun hid => ?_
    exact hdisjoint id hid id (mem_singleton_self id) rfl

/-- The second walk finds no user. -/
theorem foldl_rebuildClient_unknown
    (huser : ∀ x ∈ ids, (S.clients x).Unregistered) :
    ids.foldl (rebuildClient excepted) S = S := by
  induction ids with
  | nil => rfl
  | cons id ids ih =>
    have hstay : rebuildClient excepted S id = S := by
      unfold rebuildClient
      rw [(huser id mem_cons_self).1]
      rfl
    rw [foldl_cons, hstay]
    exact ih fun x hx => huser x (mem_cons_of_mem id hx)

/-- The module is loaded anew: the tables are empty. -/
def State.cleared (S : State) (siphash : List UInt8 → ℕ) : State :=
  { S with ctBucketHash := fun _ _ => [], siphash := siphash }

section

variable (hS : S.WellFormed) (siphash : List UInt8 → ℕ)
  (excepted : ClientId → Bool)

include hS

theorem reload_rebuilds :
    Rebuilds (S.cleared siphash) S.clientList
      (ctBucketsRebuild (S.cleared siphash) excepted) := by
  have hfirst := @foldl_rebuildClient (S.cleared siphash) excepted S.clientList
    (fun _ => rfl) hS.lists.nodup
  unfold ctBucketsRebuild
  rw [foldl_rebuildClient_unknown]
  · exact hfirst
  · change ∀ x ∈ (S.clientList.foldl _ (S.cleared siphash)).unknownList, _
    rw [hfirst.unknownList]
    intro x hx
    exact (hfirst.becomes x).unregistered (hS.unknown x hx)

theorem reload_wellFormed :
    (ctBucketsRebuild (S.cleared siphash) excepted).WellFormed := by
  have h := reload_rebuilds hS siphash excepted
  refine ⟨?_, ?_, fun x => (h.becomes x).ok (hS.clients x),
    h.tables fun _ => Chains.wellFormed_empty⟩
  · rw [h.clientList, h.unknownList]
    exact hS.lists
  · rw [h.unknownList]
    exact fun x hx => (h.becomes x).unregistered (hS.unknown x hx)

theorem reload_tallied_iff :
    let S' := ctBucketsRebuild (S.cleared siphash) excepted
    Tallied S' (S'.tally S'.clientList) ↔
      ∀ id ∈ S.clientList, (S.clients id).isRegular = false →
        (S.clients id).category = .none ∨ (S.clients id).ipv6 = none := by
  intro S'
  have h := reload_rebuilds hS siphash excepted
  -- the clients have what was counted and what was forgotten
  have hsplit : S'.tally S'.clientList =
      total recounted S'.clients S.clientList +
        total forgotten S.clients S.clientList := by
    rw [State.tally, h.clientList]
    unfold total
    rw [← sum_map_add]
    refine congrArg List.sum (map_congr_left fun id _ => ?_)
    rw [← recounted_add_forgotten]
    exact congrArg _ (h.forgotten id)
  have hnone : ∀ id, (S.clients id).forgotten = 0 ↔
      ((S.clients id).isRegular = false →
        (S.clients id).category = .none ∨ (S.clients id).ipv6 = none) := by
    intro id
    rw [← share_eq_zero_iff, forgotten]
    cases (S.clients id).isRegular with
    | true => exact iff_of_true rfl nofun
    | false => exact ⟨fun h _ => h, fun h => h rfl⟩
  rw [hsplit, Tallied, Holds.iff_eq h.tallied, add_eq_left,
    total_eq_zero_iff forgotten_nonneg]
  exact forall₂_congr fun id _ => hnone id

end

end Reload

/-! ## Events -/

section Events

variable {S : State}

theorem share_eq_iff (a : Address) {client : Client} (hclient : client.Ok) :
    (client.setClientIp a).share = client.share ↔
      (client.category ≠ .none → ∀ tier,
        prefixKey (ipv6Of (some a)) tier = prefixKey client.address tier) := by
  by_cases hcategory : client.category = .none
  · rw [share_of_none hcategory, share_of_none (by exact hcategory)]
    exact iff_of_true rfl fun hne => absurd hcategory hne
  · rw [Client.share, Client.share, hclient (.inr hcategory)]
    exact (shareAt_inj (unit_ne_zero hcategory)).trans
      ⟨fun h _ => h, fun h => h hcategory⟩

theorem webirc_wellFormed (hS : S.WellFormed) (id : ClientId) (a : Address) :
    (S.setClient id ((S.clients id).setClientIp a)).WellFormed :=
  ⟨hS.lists, unknown_update (fun x hx _ => hS.unknown x hx) (hS.unknown id),
    ok_update hS.clients fun _ => rfl, hS.tables⟩

theorem webirc_tallied_iff (hS : Balanced S) {id : ClientId}
    (hid : id ∈ S.clientList) (a : Address) :
    let S' := S.setClient id ((S.clients id).setClientIp a)
    Tallied S' (S'.tally S'.clientList) ↔
      ((S.clients id).category ≠ .none → ∀ tier,
        prefixKey (ipv6Of (some a)) tier =
          prefixKey (S.clients id).address tier) := by
  rw [← share_eq_iff a (hS.wellFormed.clients id),
    ← total_update_eq_iff hS.wellFormed.lists.nodup hid]
  exact Holds.iff_eq hS.tallied

/-- A remote user whose flag is not that of its address is counted in buckets of
no address. -/
theorem family_of_accounted (hS : Balanced S) {id : ClientId}
    (hid : id ∉ S.clientList) {ip : Option Address}
    {uplinkIPv6 known excepted : Bool}
    (hA : Accounted
      (step S (.remoteConnect id ip uplinkIPv6 false known excepted))) :
    (remoteClient ip uplinkIPv6 false known).ipv6 =
      (remoteClient ip uplinkIPv6 false known).address := by
  obtain hnone | hsame := @ipv6Of_none_or_eq ip uplinkIPv6
  · by_contra hne
    have hipv6 : (remoteClient ip uplinkIPv6 false known).ipv6 ≠ none :=
      fun h => hne (h.trans hnone.symm)
    let S₀ : State :=
      { S.setClient id (remoteClient ip uplinkIPv6 false known) with
        clientList := id :: S.clientList }
    have hnew : S₀.clients id = remoteClient ip uplinkIPv6 false known :=
      update_self id _ S.clients
    have hstep : step S (.remoteConnect id ip uplinkIPv6 false known excepted) =
        classify S₀ id excepted := by
      dsimp only [step]
      rw [if_neg hid]
      change ctRemoteConnectBuckets S₀ id excepted = _
      unfold ctRemoteConnectBuckets
      rw [hnew, if_neg (by exact Bool.false_ne_true), if_neg hipv6,
        if_neg (by exact not_not.mpr rfl)]
    have h := @classify_moves S₀ id (hnew ▸ rfl) (hnew ▸ rfl) excepted
    have hbefore : Tallied S₀ ((S₀.clients id).share + S.tally S.clientList) := by
      rw [hnew, share_of_none rfl, zero_add]
      exact hS.tallied
    have htallied := h.tallied _ (total_nonneg share_nonneg) hbefore
    rw [hnew] at h htallied
    rw [hstep, accounted_iff (h.tables hS.wellFormed.tables), State.owed,
      h.clientList, h.clients, total_cons, update_self,
      total_update_of_not_mem hid] at hA
    have heq := Holds.unique hA htallied
    have howed : total Client.owed S₀.clients S.clientList =
        S.tally S.clientList :=
      (total_update_of_not_mem hid _).trans
        (owed_eq_tally hS.wellFormed.clients S.clientList)
    have hkey := (shareAt_inj (unit_ne_zero (ctClassify_ne_none _ excepted))).mp
      (add_right_cancel (heq.trans (congrArg _ howed.symm))) 0
    -- the client is in a bucket, and its address is in none
    have haddress : prefixKey (ipv6Of ip) 0 = none := by
      rw [hnone]
      rfl
    exact hipv6 (Option.map_eq_none_iff.mp (hkey.symm.trans haddress))
  · exact hsame.symm

/-- An event keeps the accounting unless it is one of the three that do not. -/
theorem step_balanced (hS : Balanced S) {e : Event} (hkeeps : Keeps S e) :
    Balanced (step S e) := by
  have hlists := hS.wellFormed.lists
  cases e with
  | addConnection id a =>
    dsimp only [step]
    split
    · exact hS
    · next hid =>
        refine newClient_balanced hS hid (hlists.connect hid) ?_
          (fun _ => ⟨rfl, rfl⟩) (fun _ => rfl) rfl
        exact fun x hx hne => (mem_cons.mp hx).resolve_left hne
  | webirc id a =>
    dsimp only [step]
    split
    · next hid =>
        exact ⟨webirc_wellFormed hS.wellFormed id a,
          (webirc_tallied_iff hS (hlists.subset hid) a).mpr (hkeeps hid)⟩
    · exact hS
  | allowClient id known excepted limits =>
    dsimp only [step]
    split
    · next hid =>
        obtain ⟨c, hknown⟩ := updateKnownUserCache_moves S id known excepted
        have hregular : ((updateKnownUserCache S id known excepted).clients
            id).isULine = false := by
          rw [hknown.clients, update_self]
          exact (hknown.becomes.unregistered (hS.wellFormed.unknown id hid)).2
        obtain ⟨c', hallow⟩ := ctAllowClient_moves _ id hregular limits excepted
        have hmoves := hknown.trans hallow
        have hallowed := hmoves.balanced hS (hlists.subset hid)
        split
        · exact exitClient_balanced hallowed
            (hmoves.clientList ▸ hlists.subset hid)
        · exact hallowed
    · exact hS
  | registered id =>
    dsimp only [step]
    split
    · next hid => exact registered_balanced hS (hlists.subset hid)
    · exact hS
  | remoteConnect id ip uplinkIPv6 isULine known excepted =>
    dsimp only [step]
    split
    · exact hS
    · next hid =>
        obtain ⟨c, hmoves⟩ := ctRemoteConnectBuckets_moves _ id excepted
        refine hmoves.balanced (newClient_balanced hS hid
          (hlists.introduce hid) (fun x hx _ => hx) ?_ ?_ rfl) mem_cons_self
        · exact fun hmem => absurd (hlists.subset hmem) hid
        · rintro (hregular | hcategory)
          · exact ipv6Of_inheritedFlag.mpr (hkeeps hid hregular)
          · exact absurd rfl hcategory
  | knownUserChange id known excepted =>
    dsimp only [step]
    split
    · next hid =>
        obtain ⟨c, hmoves⟩ := updateKnownUserCache_moves S id known excepted
        exact hmoves.balanced hS hid
    · exact hS
  | exit id =>
    dsimp only [step]
    split
    · next hid => exact exitClient_balanced hS hid
    · exact hS
  | reload siphash excepted =>
    exact ⟨reload_wellFormed hS.wellFormed siphash excepted,
      (reload_tallied_iff hS.wellFormed siphash excepted).mpr hkeeps⟩

theorem keeps_of_accounted (hS : Balanced S) {e : Event}
    (hA : Accounted (step S e)) : Keeps S e := by
  cases e with
  | webirc id a =>
    intro hid
    dsimp only [step] at hA
    rw [if_pos hid] at hA
    have hwf := webirc_wellFormed hS.wellFormed id a
    replace hA := (accounted_iff_tallied hwf).mp hA
    exact (webirc_tallied_iff hS (hS.wellFormed.lists.subset hid) a).mp hA
  | reload siphash excepted =>
    have hwf := reload_wellFormed hS.wellFormed siphash excepted
    exact (reload_tallied_iff hS.wellFormed siphash excepted).mp
      ((accounted_iff_tallied hwf).mp hA)
  | remoteConnect id ip uplinkIPv6 isULine known excepted =>
    rintro hid rfl
    exact ipv6Of_inheritedFlag.mp (family_of_accounted hS hid hA)
  | addConnection | allowClient | registered | knownUserChange | exit => trivial

end Events

/-! ## Runs -/

theorem start_balanced (siphash : List UInt8 → ℕ) : Balanced (start siphash) :=
  ⟨⟨.nil, nofun, fun _ _ => rfl, fun _ => Chains.wellFormed_empty⟩,
    fun _ => rfl⟩

/-- The buckets agree with the clients in every state of a run, exactly if no
IPv4 user is introduced from a server that is linked over IPv6, no reload meets a
counted client that is not a regular user and no counted client is moved to
another bucket. -/
theorem accounted_throttle_iff (siphash : List UInt8 → ℕ)
    (events : List Event) :
    (∀ done, done <+: events → Accounted (run (start siphash) done)) ↔
      ∀ done e, done ++ [e] <+: events →
        Keeps (run (start siphash) done) e := by
  refine forall_prefix_iff_of_mem (start_balanced siphash)
    (fun S hS => (accounted_iff_tallied hS.wellFormed).mpr hS.tallied) ?_ ?_
  · exact fun S e _ hS hkeeps => step_balanced hS hkeeps
  · exact fun S e _ hS hA => keeps_of_accounted hS hA

/-- 2001:db8::1. -/
def heldAddress : RawIp :=
  .ofBytes [0x20, 0x01, 0x0d, 0xb8, 0, 0, 0, 0, 0, 0, 0, 0, 0, 0, 0, 1]

/-- A client from 2001:db8::1 is classified and held, and the module is
reloaded. -/
def heldEvents : List Event :=
  [.addConnection 0 ⟨true, heldAddress⟩,
    .allowClient 0 false false ⟨fun _ => 0, none, false, false⟩,
    .reload (fun _ => 0) fun _ => false]

/-- The held client is counted before the reload.  After it the client still has
its category, and there is no bucket. -/
theorem not_accounted_throttleEvents :
    (run (start fun _ => 0) (heldEvents.take 2)).counter Bucket.unknownUsers
        (ctMakeRawip heldAddress 0) = 1 ∧
      (run (start fun _ => 0) heldEvents).clientList = [0] ∧
      ((run (start fun _ => 0) heldEvents).clients 0).category =
        .unknownUsers ∧
      ((run (start fun _ => 0) heldEvents).ctFindBucket
        (ctMakeRawip heldAddress 0)).isNone ∧
      ¬ Accounted (run (start fun _ => 0) heldEvents) := by
  refine ⟨by decide, by decide, by decide, by decide, fun h => ?_⟩
  have hcount := h.unknownUsers (ctMakeRawip heldAddress 0)
  revert hcount
  decide

end UnrealIrcd.ConnThrottle
