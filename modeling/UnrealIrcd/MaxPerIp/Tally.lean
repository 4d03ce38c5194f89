import Mathlib.Algebra.Group.Prod
import Mathlib.Algebra.Order.Ring.Int
import UnrealIrcd.MaxPerIp.Model
import UnrealIrcd.Support.Ledger

/-!
# The tally of the buckets

What the tables hold, as a function from addresses to counts.  Letting a client
in adds its share to the tally and freeing it takes the share away; both are
stated for the tally as a whole, so that the lists of clients are not
mentioned.
-/

namespace UnrealIrcd.MaxPerIp

open Support

abbrev Tally := BucketKey → ℤ × ℤ

def IpUsersBucket.counts (b : IpUsersBucket) : ℤ × ℤ :=
  (b.globalClients, b.localClients)

def unit (myConnect : Bool) : ℤ × ℤ :=
  (1, if myConnect then 1 else 0)

/-- What a client has in the bucket of an address, if it is counted. -/
def Client.shareAt (cloneMask : ℤ) (client : Client) (ip : Option Address) :
    Tally :=
  match client.bumped, ip with
  | true, some a =>
    Pi.single (makeIpusersRawip cloneMask a) (unit client.myConnect)
  | _, _ => 0

/-- The share of a client in the buckets that the module looks up for it. -/
def Client.share (cloneMask : ℤ) (client : Client) : Tally :=
  client.shareAt cloneMask client.readIp

def Tallied (S : State) (f : Tally) : Prop :=
  Holds IpUsersBucket.counts S.findIpusersBucket f

/-- There are at most as many local clients as clients. -/
def Proper (f : Tally) : Prop :=
  ∀ k, 0 ≤ (f k).2 ∧ (f k).2 ≤ (f k).1

def State.TablesOk (S : State) : Prop :=
  ∀ isIPv6, Chains.WellFormed IpUsersBucket.rawip S.hashIpusers
    (S.ipUsersHash isIPv6)

/-! ## Counts -/

theorem empty_iff (b : IpUsersBucket) :
    b.globalClients = 0 ∧ b.localClients = 0 ↔ b.counts = 0 := by
  simp [IpUsersBucket.counts]

theorem unit_add_ne_zero {f : Tally} (hf : Proper f) (my : Bool)
    (k : BucketKey) : unit my + f k ≠ 0 := by
  intro h
  have hfst := congrArg Prod.fst h
  have hk := hf k
  simp only [unit, Prod.fst_add, Prod.fst_zero] at hfst
  omega

section Share

variable {cloneMask : ℤ} {client : Client}

theorem share_of_not_bumped (hbumped : client.bumped = false) :
    client.share cloneMask = 0 := by
  simp [Client.share, Client.shareAt, hbumped]

theorem share_of_bumped {a : Address} (hbumped : client.bumped = true)
    (hip : client.readIp = some a) :
    client.share cloneMask =
      Pi.single (makeIpusersRawip cloneMask a) (unit client.myConnect) := by
  simp [Client.share, Client.shareAt, hbumped, hip]

theorem proper_zero : Proper 0 :=
  fun _ => ⟨le_rfl, le_rfl⟩

theorem shareAt_proper (client : Client) (ip : Option Address) :
    Proper (client.shareAt cloneMask ip) := by
  unfold Client.shareAt
  split
  · next a _ =>
      intro k
      rw [Pi.single_apply]
      split_ifs
      · cases client.myConnect <;> decide
      · exact proper_zero k
  · exact proper_zero

theorem Proper.add {f g : Tally} (hf : Proper f) (hg : Proper g) :
    Proper (f + g) := by
  intro k
  have hf := hf k
  have hg := hg k
  rw [Pi.add_apply, Prod.fst_add, Prod.snd_add]
  omega

theorem total_proper {share : Client → Tally} (hshare : ∀ c, Proper (share c))
    (clients : ClientId → Client) (ids : List ClientId) :
    Proper (total share clients ids) := by
  induction ids with
  | nil => exact proper_zero
  | cons id ids ih =>
    rw [total_cons]
    exact (hshare (clients id)).add ih

theorem total_share_proper (clients : ClientId → Client)
    (ids : List ClientId) :
    Proper (total (Client.share cloneMask) clients ids) :=
  total_proper (fun c => shareAt_proper c c.readIp) clients ids

end Share

/-! ## Lookups -/

section Lookup

variable {S : State} {k k' : BucketKey}

@[simp] theorem rawip_increase (my : Bool) (b : IpUsersBucket) :
    (b.increase my).rawip = b.rawip :=
  rfl

@[simp] theorem rawip_decrease (my : Bool) (b : IpUsersBucket) :
    (b.decrease my).rawip = b.rawip :=
  rfl

theorem find_addIpusersBucket (l g : ℤ) :
    (S.addIpusersBucket k l g).findIpusersBucket k' =
      if k' = k then some ⟨k.2, l, g⟩ else S.findIpusersBucket k' := by
  exact Chains.find_update (Chains.find_insert _) k'

theorem find_modifyIpusersBucket {f : IpUsersBucket → IpUsersBucket}
    (hf : ∀ b, (f b).rawip = b.rawip) :
    (S.modifyIpusersBucket k f).findIpusersBucket k' =
      if k' = k then (S.findIpusersBucket k).map f
      else S.findIpusersBucket k' := by
  exact Chains.find_update (Chains.find_modify hf k.2) k'

theorem State.TablesOk.addIpusersBucket (h : S.TablesOk)
    (hnew : S.findIpusersBucket k = none) (l g : ℤ) :
    (S.addIpusersBucket k l g).TablesOk :=
  Chains.wellFormed_update h
    (@Chains.WellFormed.insert _ _ _ _ _ _ (h k.1) ⟨k.2, l, g⟩ hnew) k.1

theorem State.TablesOk.modifyIpusersBucket (h : S.TablesOk)
    {f : IpUsersBucket → IpUsersBucket} (hf : ∀ b, (f b).rawip = b.rawip) :
    (S.modifyIpusersBucket k f).TablesOk :=
  Chains.wellFormed_update h ((h k.1).modify hf k.2) k.1

theorem State.TablesOk.delIpusersBucket (h : S.TablesOk) :
    (S.delIpusersBucket k).TablesOk :=
  Chains.wellFormed_update h ((h k.1).remove k.2) k.1

end Lookup

/-! ## Letting in and freeing -/

/-- A client becomes `c`, and the buckets change with it. -/
structure Moves (S : State) (id : ClientId) (c : Client) (S' : State) :
    Prop where
  clients : S'.clients = Function.update S.clients id c
  clientList : S'.clientList = S.clientList
  unknownList : S'.unknownList = S.unknownList
  cloneMask : S'.cloneMask = S.cloneMask
  tables : S.TablesOk → S'.TablesOk
  tallied : ∀ f, Proper f →
    Tallied S ((S.clients id).share S.cloneMask + f) →
      Tallied S' (c.share S.cloneMask + f)

section Moves

variable {S : State} {id : ClientId}

theorem Moves.of_eq {c : Client} (hc : c = S.clients id) : Moves S id c S := by
  subst hc
  exact ⟨(Function.update_eq_self id S.clients).symm, rfl, rfl, rfl,
    fun h => h, fun _ _ h => h⟩

theorem Tallied.increase {S' : State} {f : Tally} {k : BucketKey} {my : Bool}
    (hf : Proper f) (h : Tallied S f)
    (hfind : ∀ k', S'.findIpusersBucket k' =
      if k' = k then
        some (((S.findIpusersBucket k).getD ⟨k.2, 0, 0⟩).increase my)
      else S.findIpusersBucket k') :
    Tallied S' (Pi.single k (unit my) + f) := by
  refine Holds.add h hfind rfl (fun b => ?_) (unit_add_ne_zero hf my k)
  cases my <;>
    simp [IpUsersBucket.increase, IpUsersBucket.counts, unit, add_comm]

theorem exceedsMaxperip_moves (S : State) (id : ClientId)
    (aconf : Option Allow) (exempt : Bool) :
    Moves S id { S.clients id with
        bumped := (S.clients id).bumped || (S.clients id).readIp.isSome }
      (exceedsMaxperip S id aconf exempt).1 := by
  unfold exceedsMaxperip
  dsimp only
  split
  · next hip =>
      apply Moves.of_eq
      rw [hip, Option.isSome_none, Bool.or_false]
  · next a hip =>
      have hshare : ({ S.clients id with bumped := true } : Client).share
          S.cloneMask = Pi.single (makeIpusersRawip S.cloneMask a)
            (unit (S.clients id).myConnect) := share_of_bumped rfl hip
      rw [hip, Option.isSome_some, Bool.or_true]
      split
      · next hfind =>
          refine ⟨rfl, rfl, rfl, rfl,
            fun h => State.TablesOk.addIpusersBucket h hfind _ _, ?_⟩
          intro f hf h
          -- a client without a bucket was not counted
          have hbumped : (S.clients id).bumped = false := by
            by_contra hne
            rw [Bool.not_eq_false] at hne
            rw [share_of_bumped hne hip] at h
            have hk := h (makeIpusersRawip S.cloneMask a)
            rw [hfind, Pi.add_apply, Pi.single_eq_same] at hk
            exact unit_add_ne_zero hf _ _ hk
          rw [share_of_not_bumped hbumped, zero_add] at h
          rw [hshare]
          refine h.increase hf fun k' => ?_
          refine (find_addIpusersBucket _ _).trans ?_
          rw [hfind]
          cases (S.clients id).myConnect <;> rfl
      · next b hfind =>
          have hmoves : Moves S id { S.clients id with bumped := true }
              (if (S.clients id).bumped then S else
                (S.modifyIpusersBucket (makeIpusersRawip S.cloneMask a)
                  (IpUsersBucket.increase (S.clients id).myConnect)).setClient
                    id { S.clients id with bumped := true }) := by
            split
            · next hbumped =>
                apply Moves.of_eq
                rw [← hbumped]
            · next hbumped =>
                refine ⟨rfl, rfl, rfl, rfl, fun h =>
                  State.TablesOk.modifyIpusersBucket h (rawip_increase _), ?_⟩
                intro f hf h
                rw [share_of_not_bumped (Bool.eq_false_iff.mpr hbumped),
                  zero_add] at h
                rw [hshare]
                refine h.increase hf fun k' => ?_
                refine (find_modifyIpusersBucket (rawip_increase _)).trans ?_
                rw [hfind]
                rfl
          -- the limits only decide about the answer
          split
          · exact hmoves
          · split
            · exact hmoves
            · exact hmoves

theorem decreaseIpusersBucket_moves
    (haddress : (S.clients id).bumped = true → (S.clients id).readIp.isSome) :
    Moves S id { S.clients id with bumped := false }
      (decreaseIpusersBucket S id) := by
  unfold decreaseIpusersBucket
  dsimp only
  split
  · next hbumped =>
      obtain ⟨a, hip⟩ := Option.isSome_iff_exists.mp (haddress hbumped)
      have hshare := @share_of_bumped S.cloneMask _ a hbumped hip
      rw [hip]
      dsimp only
      split
      · next hfind =>
          have hfind : S.findIpusersBucket (makeIpusersRawip S.cloneMask a) =
            none := hfind
          refine ⟨rfl, rfl, rfl, rfl, fun h => h, fun f hf h => ?_⟩
          -- a counted client has a bucket
          have hk := h (makeIpusersRawip S.cloneMask a)
          rw [hshare, hfind, Pi.add_apply, Pi.single_eq_same] at hk
          exact absurd hk (unit_add_ne_zero hf _ _)
      · next b hfind =>
          have hfind : S.findIpusersBucket (makeIpusersRawip S.cloneMask a) =
            some b := hfind
          have htallied : ∀ S' : State, (∀ k', S'.findIpusersBucket k' =
              if k' = makeIpusersRawip S.cloneMask a then
                if (b.decrease (S.clients id).myConnect).globalClients = 0 ∧
                  (b.decrease (S.clients id).myConnect).localClients = 0
                then none else some (b.decrease (S.clients id).myConnect)
              else S.findIpusersBucket k') →
              ∀ f, Proper f →
              Tallied S ((S.clients id).share S.cloneMask + f) →
              Tallied S' (({ S.clients id with bumped := false } :
                Client).share S.cloneMask + f) := by
            intro S' hfind' f hf h
            rw [hshare] at h
            rw [share_of_not_bumped rfl, zero_add]
            refine Holds.sub h hfind ?_ (empty_iff _) hfind'
            cases (S.clients id).myConnect <;>
              simp [IpUsersBucket.decrease, IpUsersBucket.counts, unit]
          split
          · next hempty =>
              refine ⟨rfl, rfl, rfl, rfl,
                fun h => State.TablesOk.delIpusersBucket h, htallied _ ?_⟩
              intro k'
              rw [if_pos hempty]
              exact Chains.find_update (Chains.find_remove _) k'
          · next hmore =>
              refine ⟨rfl, rfl, rfl, rfl, fun h =>
                State.TablesOk.modifyIpusersBucket h (rawip_decrease _),
                htallied _ ?_⟩
              intro k'
              rw [if_neg hmore]
              refine (find_modifyIpusersBucket (rawip_decrease _)).trans ?_
              change (if k' = makeIpusersRawip S.cloneMask a then
                (S.findIpusersBucket (makeIpusersRawip S.cloneMask a)).map _
                else _) = _
              rw [hfind]
              rfl
  · next hbumped =>
      apply Moves.of_eq
      rw [← Bool.eq_false_iff.mpr hbumped]

end Moves

/-! ## Rebuilding -/

/-- The buckets of a list are restored: only the tables change, and the shares
are put to the tally. -/
structure Restores (S : State) (ids : List ClientId) (S' : State) : Prop where
  clients : S'.clients = S.clients
  clientList : S'.clientList = S.clientList
  unknownList : S'.unknownList = S.unknownList
  cloneMask : S'.cloneMask = S.cloneMask
  tables : S.TablesOk → S'.TablesOk
  tallied : ∀ f, Proper f → Tallied S f →
    Tallied S' (total (Client.share S.cloneMask) S.clients ids + f)

theorem restoreBucket_restores (S : State) (id : ClientId) :
    Restores S [id] (restoreBucket S id) := by
  have hsum := @total_singleton _ _ _ _ (Client.share S.cloneMask) S.clients id
  have hsame : (S.clients id).share S.cloneMask = 0 → Restores S [id] S := by
    intro hzero
    refine ⟨rfl, rfl, rfl, rfl, fun h => h, fun f _ hf => ?_⟩
    rwa [hsum, hzero, zero_add]
  unfold restoreBucket
  dsimp only
  split
  · next hbumped =>
      split
      · next hip => exact hsame (by simp [Client.share, Client.shareAt, hip])
      · next a hip =>
          have hshare := @share_of_bumped S.cloneMask _ a hbumped hip
          split
          · next hfind =>
              refine ⟨rfl, rfl, rfl, rfl, fun h => (h.addIpusersBucket hfind 0
                0).modifyIpusersBucket (rawip_increase _), fun f hf h => ?_⟩
              rw [hsum, hshare]
              refine h.increase hf fun k' => ?_
              rw [find_modifyIpusersBucket (rawip_increase _),
                find_addIpusersBucket, find_addIpusersBucket, if_pos rfl, hfind]
              split
              · rfl
              · rfl
          · next b hfind =>
              refine ⟨rfl, rfl, rfl, rfl,
                fun h => h.modifyIpusersBucket (rawip_increase _),
                fun f hf h => ?_⟩
              rw [hsum, hshare]
              refine h.increase hf fun k' => ?_
              rw [find_modifyIpusersBucket (rawip_increase _), hfind]
              rfl
  · next hbumped =>
      exact hsame (share_of_not_bumped (Bool.eq_false_iff.mpr hbumped))

theorem foldl_restoreBucket_restores (S : State) (ids : List ClientId) :
    Restores S ids (ids.foldl restoreBucket S) := by
  induction ids generalizing S with
  | nil =>
    refine ⟨rfl, rfl, rfl, rfl, fun h => h, fun f _ hf => ?_⟩
    rwa [total, List.map_nil, List.sum_nil, zero_add]
  | cons id ids ih =>
    have hone := restoreBucket_restores S id
    have hrest := ih (restoreBucket S id)
    refine ⟨hrest.clients.trans hone.clients,
      hrest.clientList.trans hone.clientList,
      hrest.unknownList.trans hone.unknownList,
      hrest.cloneMask.trans hone.cloneMask,
      fun h => hrest.tables (hone.tables h), fun f hf h => ?_⟩
    have hboth := hrest.tallied _ ((total_share_proper _ _).add hf)
      (hone.tallied f hf h)
    rw [hone.clients, hone.cloneMask, total_singleton, add_left_comm,
      ← add_assoc, ← total_cons] at hboth
    exact hboth

/-- A client of both lists is counted twice. -/
theorem rebuildIpusersBuckets_restores (S : State) :
    Restores S (S.clientList ++ S.unknownList) (rebuildIpusersBuckets S) := by
  have h := foldl_restoreBucket_restores S (S.clientList ++ S.unknownList)
  rw [List.foldl_append] at h
  unfold rebuildIpusersBuckets
  dsimp only
  rw [(foldl_restoreBucket_restores S S.clientList).unknownList]
  exact h

end UnrealIrcd.MaxPerIp
