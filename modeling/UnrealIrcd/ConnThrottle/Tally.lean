import Mathlib.Algebra.Order.Monoid.Prod
import Mathlib.Algebra.Order.Pi
import Mathlib.Algebra.Order.Ring.Int
import UnrealIrcd.ConnThrottle.Model
import UnrealIrcd.Support.Ledger

/-!
# The tally of the buckets

What the tables hold, as a function from prefixes to counts.  Counting a client
adds its share, which has one unit in each tier, and a quit takes the share away;
both are stated for the tally as a whole, so that the lists of clients are not
mentioned.
-/

namespace UnrealIrcd.ConnThrottle

open Matching Support
open MaxPerIp (Address ClientId)

abbrev Counts := ℤ × ℤ × ℤ

abbrev Tally := BucketKey → Counts

def Bucket.counts (b : Bucket) : Counts :=
  (b.knownUsers, b.exceptedUnknowns, b.unknownUsers)

def Category.unit : Category → Counts
  | .none => 0
  | .knownUsers => (1, 0, 0)
  | .exceptedUnknowns => (0, 1, 0)
  | .unknownUsers => (0, 0, 1)

def prefixes (rawip : RawIp) (c : Counts) (ts : List Tier) : Tally :=
  (ts.map fun tier => Pi.single (ctMakeRawip rawip tier) c).sum

/-- Counts in the buckets of an address, if there is one. -/
def shareAt (ipv6 : Option RawIp) (c : Counts) : Tally :=
  match ipv6 with
  | none => 0
  | some rawip => prefixes rawip c tiers

/-- The share of a client in the buckets that the module looks up for it. -/
def Client.share (client : Client) : Tally :=
  shareAt client.ipv6 client.category.unit

def Tallied (S : State) (f : Tally) : Prop :=
  Holds Bucket.counts S.ctFindBucket f

def State.TablesOk (S : State) : Prop :=
  ∀ tier, Chains.WellFormed Bucket.rawip S.ctHashBucket (S.ctBucketHash tier)

/-! ## Counts -/

section

variable (category : Category)

theorem rawip_change (n : ℤ) (b : Bucket) :
    (b.change category n).rawip = b.rawip := by
  cases category <;> rfl

@[simp] theorem rawip_increment (b : Bucket) :
    (ctBucketIncrement category b).rawip = b.rawip := rawip_change category 1 b

@[simp] theorem rawip_decrement (b : Bucket) :
    (ctBucketDecrement category b).rawip = b.rawip :=
  rawip_change category (-1) b

theorem counts_increment (b : Bucket) :
    (ctBucketIncrement category b).counts = category.unit + b.counts := by
  cases category <;>
    simp [ctBucketIncrement, Bucket.change, Bucket.counts, Category.unit,
      add_comm]

theorem counts_decrement (b : Bucket) :
    category.unit + (ctBucketDecrement category b).counts = b.counts := by
  cases category <;>
    simp [ctBucketDecrement, Bucket.change, Bucket.counts, Category.unit]

end

theorem isEmpty_iff (b : Bucket) : b.isEmpty = true ↔ b.counts = 0 := by
  simp [Bucket.isEmpty, Bucket.counts, Prod.ext_iff, and_assoc]

theorem unit_nonneg (category : Category) : 0 ≤ category.unit := by
  cases category <;> decide

section

variable {category : Category} (hcategory : category ≠ .none)

include hcategory

theorem unit_ne_zero : category.unit ≠ 0 := by
  cases category with
  | none => exact absurd rfl hcategory
  | knownUsers | exceptedUnknowns | unknownUsers => decide

theorem unit_add_ne_zero {c : Counts} (hc : 0 ≤ c) : category.unit + c ≠ 0 := by
  have hpos := (unit_nonneg category).lt_of_ne' (unit_ne_zero hcategory)
  exact (add_pos_of_pos_of_nonneg hpos hc).ne'

end

@[simp] theorem prefixes_cons (rawip : RawIp) (c : Counts) (tier : Tier)
    (ts : List Tier) :
    prefixes rawip c (tier :: ts) =
      Pi.single (ctMakeRawip rawip tier) c + prefixes rawip c ts := by
  simp only [prefixes, List.map_cons, List.sum_cons]

theorem prefixes_nonneg (rawip : RawIp) {c : Counts} (hc : 0 ≤ c)
    (ts : List Tier) : 0 ≤ prefixes rawip c ts := by
  induction ts with
  | nil => exact le_refl 0
  | cons tier ts ih =>
    rw [prefixes_cons]
    exact add_nonneg (Pi.single_nonneg.mpr hc) ih

/-! ## Lookups -/

section Lookup

variable {S : State} {k k' : BucketKey}

theorem find_ctAddBucket :
    (S.ctAddBucket k).ctFindBucket k' =
      if k' = k then some ⟨k.2, 0, 0, 0⟩ else S.ctFindBucket k' := by
  exact Chains.find_update (Chains.find_insert _) k'

theorem find_modifyBucket {f : Bucket → Bucket}
    (hf : ∀ b, (f b).rawip = b.rawip) :
    (S.modifyBucket k f).ctFindBucket k' =
      if k' = k then (S.ctFindBucket k).map f else S.ctFindBucket k' := by
  exact Chains.find_update (Chains.find_modify hf k.2) k'

end Lookup

/-! ## One tier -/

section Tier

variable {S : State} {f : Tally} {category old new : Category}
  {rawip : RawIp} {tier : Tier}

theorem bumpTier_tallied (hf : 0 ≤ f) (hcategory : category ≠ .none)
    (h : Tallied S (Pi.single (ctMakeRawip rawip tier) 0 + f)) :
    Tallied (bumpTier category rawip S tier)
      (Pi.single (ctMakeRawip rawip tier) category.unit + f) := by
  rw [Pi.single_zero, zero_add] at h
  refine Holds.add (b := ⟨(ctMakeRawip rawip tier).2, 0, 0, 0⟩) h
    (fun k' => ?_) rfl (counts_increment category)
    (unit_add_ne_zero hcategory (hf _))
  unfold bumpTier
  dsimp only
  cases hb : S.ctFindBucket (ctMakeRawip rawip tier) with
  | some b =>
    rw [find_modifyBucket (rawip_increment category), hb]
    rfl
  | none =>
    rw [find_modifyBucket (rawip_increment category), find_ctAddBucket,
      if_pos rfl, find_ctAddBucket]
    by_cases hk : k' = ctMakeRawip rawip tier
    · rw [if_pos hk, if_pos hk]
      rfl
    · rw [if_neg hk, if_neg hk, if_neg hk]

theorem exists_bucket {k : BucketKey} (hf : 0 ≤ f) (hcategory : category ≠ .none)
    (h : Tallied S (Pi.single k category.unit + f)) :
    ∃ b, S.ctFindBucket k = some b ∧ b.counts = category.unit + f k := by
  have hat : (Pi.single k category.unit + f : Tally) k =
      category.unit + f k := by
    rw [Pi.add_apply, Pi.single_eq_same]
  obtain ⟨b, hb, hcounts⟩ := Holds.exists_entry h
    (hat ▸ unit_add_ne_zero hcategory (hf k))
  exact ⟨b, hb, hcounts.trans hat⟩

theorem unbumpTier_tallied (hf : 0 ≤ f) (hcategory : category ≠ .none)
    (h : Tallied S (Pi.single (ctMakeRawip rawip tier) category.unit + f)) :
    Tallied (unbumpTier category rawip S tier)
      (Pi.single (ctMakeRawip rawip tier) 0 + f) := by
  obtain ⟨b, hb, -⟩ := exists_bucket hf hcategory h
  rw [Pi.single_zero, zero_add]
  refine Holds.sub h hb (counts_decrement category b) (isEmpty_iff _) ?_
  intro k'
  unfold unbumpTier
  dsimp only
  rw [hb]
  dsimp only
  by_cases hempty : (ctBucketDecrement category b).isEmpty = true
  · rw [if_pos hempty, if_pos hempty]
    exact Chains.find_update (Chains.find_remove _) k'
  · rw [if_neg hempty, if_neg hempty,
      find_modifyBucket (rawip_decrement category), hb]
    rfl

theorem changeTier_tallied (hf : 0 ≤ f) (hold : old ≠ .none)
    (hnew : new ≠ .none)
    (h : Tallied S (Pi.single (ctMakeRawip rawip tier) old.unit + f)) :
    Tallied (changeTier old new rawip S tier)
      (Pi.single (ctMakeRawip rawip tier) new.unit + f) := by
  obtain ⟨b, hb, hcounts⟩ := exists_bucket hf hold h
  have hsum : (ctBucketIncrement new (ctBucketDecrement old b)).counts =
      new.unit + f (ctMakeRawip rawip tier) := by
    rw [counts_increment]
    exact congrArg _ (add_left_cancel ((counts_decrement old b).trans hcounts))
  have hentry : EntryOk Bucket.counts (new.unit + f (ctMakeRawip rawip tier))
      (some (ctBucketIncrement new (ctBucketDecrement old b))) :=
    ⟨hsum.symm, hsum ▸ unit_add_ne_zero hnew (hf _)⟩
  refine Holds.set h ?_ hentry
  intro k'
  unfold changeTier
  dsimp only
  rw [hb, find_modifyBucket fun b => by rw [rawip_increment, rawip_decrement],
    hb]
  rfl

end Tier

/-! ## All tiers -/

/-- In every tier the part `c` of a client's count is replaced by `c'`. -/
theorem foldl_tiers_tallied {op : State → Tier → State} {c c' : Counts}
    {rawip : RawIp} (hc : 0 ≤ c) (hc' : 0 ≤ c')
    (hop : ∀ {S : State} {f : Tally} {tier : Tier}, 0 ≤ f →
      Tallied S (Pi.single (ctMakeRawip rawip tier) c + f) →
        Tallied (op S tier) (Pi.single (ctMakeRawip rawip tier) c' + f))
    (ts : List Tier) {S : State} {f : Tally} (hf : 0 ≤ f)
    (h : Tallied S (prefixes rawip c ts + f)) :
    Tallied (ts.foldl op S) (prefixes rawip c' ts + f) := by
  induction ts generalizing S f with
  | nil => exact h
  | cons tier ts ih =>
    rw [prefixes_cons, add_assoc] at h
    have hstep := hop (add_nonneg (prefixes_nonneg rawip hc ts) hf) h
    -- the tiers that are still to come are changed after this one
    rw [add_left_comm] at hstep
    rw [prefixes_cons, add_assoc, add_left_comm]
    exact ih (add_nonneg (Pi.single_nonneg.mpr hc') hf) hstep

/-! ## What stays the same -/

/-- Only the tables are changed, and they stay well formed. -/
structure OnlyTables (S S' : State) : Prop where
  clients : S'.clients = S.clients
  clientList : S'.clientList = S.clientList
  unknownList : S'.unknownList = S.unknownList
  tables : S.TablesOk → S'.TablesOk

section OnlyTables

variable {S S' S'' : State} {category old new : Category} {rawip : RawIp}

theorem OnlyTables.refl (S : State) : OnlyTables S S := ⟨rfl, rfl, rfl, id⟩

theorem OnlyTables.trans (h : OnlyTables S S') (h' : OnlyTables S' S'') :
    OnlyTables S S'' :=
  ⟨h'.clients.trans h.clients, h'.clientList.trans h.clientList,
    h'.unknownList.trans h.unknownList, fun hS => h'.tables (h.tables hS)⟩

theorem OnlyTables.foldl {op : State → Tier → State}
    (hop : ∀ S tier, OnlyTables S (op S tier)) (ts : List Tier) (S : State) :
    OnlyTables S (ts.foldl op S) := by
  induction ts generalizing S with
  | nil => exact .refl S
  | cons tier ts ih => exact (hop S tier).trans (ih (op S tier))

theorem modifyBucket_onlyTables (k : BucketKey) {f : Bucket → Bucket}
    (hf : ∀ b, (f b).rawip = b.rawip) : OnlyTables S (S.modifyBucket k f) :=
  ⟨rfl, rfl, rfl, fun h =>
    Chains.wellFormed_update h ((h k.1).modify hf k.2) k.1⟩

theorem bumpTier_onlyTables (S : State) (tier : Tier) :
    OnlyTables S (bumpTier category rawip S tier) := by
  unfold bumpTier
  dsimp only
  cases hb : S.ctFindBucket (ctMakeRawip rawip tier) with
  | some b => exact modifyBucket_onlyTables _ (rawip_increment category)
  | none =>
    have hadd : OnlyTables S (S.ctAddBucket (ctMakeRawip rawip tier)) :=
      ⟨rfl, rfl, rfl, fun h => Chains.wellFormed_update h
        (@Chains.WellFormed.insert _ _ _ _ _ _ (h _) ⟨_, 0, 0, 0⟩ hb) _⟩
    exact hadd.trans (modifyBucket_onlyTables _ (rawip_increment category))

theorem unbumpTier_onlyTables (S : State) (tier : Tier) :
    OnlyTables S (unbumpTier category rawip S tier) := by
  unfold unbumpTier
  dsimp only
  cases S.ctFindBucket (ctMakeRawip rawip tier) with
  | none => exact .refl S
  | some b =>
    dsimp only
    split_ifs
    · exact ⟨rfl, rfl, rfl, fun h =>
        Chains.wellFormed_update h ((h _).remove _) _⟩
    · exact modifyBucket_onlyTables _ (rawip_decrement category)

theorem changeTier_onlyTables (S : State) (tier : Tier) :
    OnlyTables S (changeTier old new rawip S tier) := by
  unfold changeTier
  dsimp only
  cases S.ctFindBucket (ctMakeRawip rawip tier) with
  | none => exact .refl S
  | some b =>
    refine modifyBucket_onlyTables _ fun b => ?_
    rw [rawip_increment, rawip_decrement]

end OnlyTables

end UnrealIrcd.ConnThrottle
