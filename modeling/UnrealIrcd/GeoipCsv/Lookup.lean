import Mathlib.Logic.Function.Iterate
import UnrealIrcd.GeoipCsv.Lines

/-!
# GeoIP from CSV files

The tables of `geoip_csv.c` and the lookups in them, which compare the masked
address with the address of a range as it was written.  The IPv4 table has a list
for every first octet, and a range is entered only in that of its own address.
-/

namespace UnrealIrcd.GeoipCsv

open Support Function BitVec

/-! ## Ranges -/

section Ranges

variable {Addr : Type} {w : ℕ}

/-- The address has the prefix of the range. -/
def Range.Contains (bit : Addr → ℕ → Bool) (r : Range Addr w) (a : Addr) :
    Prop :=
  ∀ i < r.cidr, bit r.addr i = bit a i

instance (bit : Addr → ℕ → Bool) (r : Range Addr w) (a : Addr) :
    Decidable (r.Contains bit a) :=
  inferInstanceAs (Decidable (∀ i < r.cidr, _))

/-- No bit behind the prefix is set. -/
def Range.Aligned (bit : Addr → ℕ → Bool) (r : Range Addr w) : Prop :=
  ∀ i < w, r.cidr ≤ i → bit r.addr i = false

instance (bit : Addr → ℕ → Bool) (r : Range Addr w) : Decidable (r.Aligned bit) :=
  inferInstanceAs (Decidable (∀ i < w, _))

/-- The id of the first range with an id that contains the address. -/
def firstId (bit : Addr → ℕ → Bool) (file : List (Range Addr w × Option ℤ))
    (a : Addr) : Option ℤ :=
  file.findSome? fun l => if l.1.Contains bit a then l.2 else none

variable {bit : Addr → ℕ → Bool} {r : Range Addr w} {a masked : Addr}

theorem masked_eq_iff (hext : ∀ x y, (∀ i < w, bit x i = bit y i) → x = y)
    (hmasked : ∀ i < w, bit masked i = (bit a i && decide (i < r.cidr))) :
    masked = r.addr ↔ r.Contains bit a ∧ r.Aligned bit := by
  have hle := r.le
  constructor
  · rintro rfl
    refine ⟨fun i hi => ?_, fun i hi hge => ?_⟩
    · rw [hmasked i (by omega), decide_eq_true hi, Bool.and_true]
    · rw [hmasked i hi, decide_eq_false (by omega), Bool.and_false]
  · rintro ⟨hin, hbehind⟩
    refine hext _ _ fun i hi => ?_
    rw [hmasked i hi]
    by_cases hlt : i < r.cidr
    · rw [decide_eq_true hlt, Bool.and_true, hin i hlt]
    · rw [decide_eq_false hlt, Bool.and_false, hbehind i hi (by omega)]

theorem findSome?_congr {L : Type} {f g : L → Option ℤ} {file : List L}
    (h : ∀ l ∈ file, f l = g l) : file.findSome? f = file.findSome? g := by
  rw [← id_comp f, ← List.findSome?_map, List.map_congr_left h, List.findSome?_map,
    id_comp]

/-- Lines that each add their own id to the lookups. -/
theorem find_foldl {σ L : Type} {read : σ → L → σ} {find : σ → Option ℤ}
    {id : L → Option ℤ} {file : List L}
    (h : ∀ l ∈ file, ∀ s, find (read s l) = (find s).or (id l)) (s : σ) :
    find (file.foldl read s) = (find s).or (file.findSome? id) := by
  induction file generalizing s with
  | nil => exact Option.or_none.symm
  | cons l file ih =>
    obtain ⟨hl, hfile⟩ := List.forall_mem_cons.mp h
    rw [List.foldl_cons, ih hfile, hl, Option.or_assoc, List.findSome?_cons]
    cases id l <;> rfl

end Ranges

/-! ## IPv4 -/

structure IpRange where
  addr : BitVec 32
  mask : BitVec 32
  geoid : ℤ

abbrev RangeList := BitVec 32 → List IpRange

def netmask : ℕ → BitVec 32
  | 0 => 0
  | cidr + 1 => (netmask cidr >>> 1) ||| (1 <<< 31)

/-- A pass of the loop that enters a range.  `index` is declared within the loop,
so that each pass starts from the first octet of the address again. -/
def enterRange (r : IpRange) (list : RangeList) : RangeList :=
  update list (r.addr >>> 24) (list (r.addr >>> 24) ++ [r])

section

variable (inetPton : List Char → Option (BitVec 32))

def readLine (list : RangeList) (l : Record) : RangeList :=
  match scanInt l.buf, inetPton l.ip with
  | some (geoid, _), some addr =>
    if l.cidr < 1 ∨ 32 < l.cidr then list
    else
      let mask := netmask l.cidr.toNat
      (enterRange ⟨addr, mask, geoid⟩)^[((~~~mask) >>> 24).toNat + 1] list
  | _, _ => list

/-- The lists that are read from the text of a file. -/
def geoipCsvReadIpv4 (file : List Char) : RangeList :=
  (fscanfLines file.length (fgets file).2).foldl (readLine inetPton) fun _ => []

end

/-- The id of the range that the loop of the lookup stops at. -/
def findRange (list : RangeList) (addr : BitVec 32) : Option ℤ :=
  ((list (addr >>> 24)).find? fun r => addr &&& r.mask = r.addr).map
    IpRange.geoid

/-- The address is what `inet_pton` makes of the text. -/
def geoipCsvGetV4Geoid (list : RangeList) (iip : Option (BitVec 32)) : ℤ :=
  (iip.bind (findRange list)).getD 0

abbrev Range4 := Range (BitVec 32) 32

/-- The lookup stops at the range: it is in the list of the address and the masked
address is that of the range. -/
def Range.Found (r : Range4) (a : BitVec 32) : Prop :=
  a >>> 24 = r.addr >>> 24 ∧ a &&& netmask r.cidr = r.addr

instance (r : Range4) (a : BitVec 32) : Decidable (r.Found a) :=
  inferInstanceAs (Decidable (_ ∧ _))

theorem getMsbD_netmask {cidr : ℕ} (h : cidr ≤ 32) (i : ℕ) :
    (netmask cidr).getMsbD i = decide (i < cidr) := by
  induction cidr generalizing i with
  | zero => simp [netmask]
  | succ cidr ih =>
    have hbit : (1 <<< 31 : BitVec 32) = twoPow 32 31 := rfl
    rw [netmask, hbit, getMsbD_or, getMsbD_ushiftRight, ih (by omega),
      getMsbD_twoPow]
    cases i with
    | zero => simp
    | succ i =>
      simp
      omega

section

variable (r : Range4) (a : BitVec 32)

theorem and_netmask_eq_iff :
    a &&& netmask r.cidr = r.addr ↔ r.Contains getMsbD a ∧ r.Aligned getMsbD := by
  refine masked_eq_iff (fun x y h => eq_of_getMsbD_eq h) fun i _ => ?_
  rw [getMsbD_and, getMsbD_netmask r.le]

theorem findRange_enterRange (geoid : ℤ) (list : RangeList) :
    findRange (enterRange ⟨r.addr, netmask r.cidr, geoid⟩ list) a =
      (findRange list a).or (if r.Found a then some geoid else none) := by
  unfold findRange enterRange
  by_cases hoctet : a >>> 24 = r.addr >>> 24
  · have hfound : r.Found a ↔ a &&& netmask r.cidr = r.addr :=
      and_iff_right hoctet
    rw [hoctet, update_self, List.find?_append, Option.map_or]
    by_cases hr : a &&& netmask r.cidr = r.addr <;> simp [hr, hfound]
  · rw [update_of_ne hoctet, if_neg fun h : r.Found a => hoctet h.1,
      Option.or_none]

/-- Entering a range several times adds no more than entering it once. -/
theorem findRange_iterate_enterRange (geoid : ℤ) (k : ℕ) (list : RangeList) :
    findRange ((enterRange ⟨r.addr, netmask r.cidr, geoid⟩)^[k + 1] list) a =
      (findRange list a).or (if r.Found a then some geoid else none) := by
  induction k with
  | zero => exact findRange_enterRange r a geoid list
  | succ k ih =>
    rw [iterate_succ_apply', findRange_enterRange, ih, Option.or_assoc,
      Option.or_self]

/-- Every address of a range finds it exactly if the prefix has a whole octet and
no bit behind it is set. -/
theorem found_of_contains_iff :
    (∀ a, r.Contains getMsbD a → r.Found a) ↔ 8 ≤ r.cidr ∧ r.Aligned getMsbD := by
  constructor
  · intro h
    refine ⟨?_, ((and_netmask_eq_iff r r.addr).mp (h r.addr fun _ _ => rfl).2).2⟩
    by_contra hshort
    -- the address with the last bit of the first octet changed
    have hflip := (h (r.addr ^^^ twoPow 32 24) fun i hi => ?_).1
    · have hbit := congrArg (·.getMsbD 31) hflip
      simp [getMsbD_ushiftRight, getMsbD_xor] at hbit
    · have hne : i ≠ 7 := by omega
      simp [getMsbD_xor, getMsbD_twoPow, hne]
  · rintro ⟨hoctet, haligned⟩ a ha
    refine ⟨eq_of_getMsbD_eq fun i hi => ?_,
      (and_netmask_eq_iff r a).mpr ⟨ha, haligned⟩⟩
    rw [getMsbD_ushiftRight, getMsbD_ushiftRight, ha (i - 24) (by omega)]

end

section

variable {inetPton : List Char → Option (BitVec 32)}

/-- What a line adds to the lookups. -/
theorem findRange_readLine (l : Line inetPton 32 24) {id : ℕ} (hid : id < 2 ^ 31)
    (list : RangeList) (a : BitVec 32) :
    findRange (readLine inetPton list (l.record id)) a =
      (findRange list a).or (if l.range.Found a then l.id id else none) := by
  have hscan := l.scanInt_fields hid (.inl rfl)
  rw [List.append_nil] at hscan
  rw [← hscan, readLine, Line.record, l.convert]
  cases scanInt (l.fields id) with
  | none => simp
  | some geoid =>
    have hpos := l.range.pos
    have hle := l.range.le
    simp only
    rw [if_neg (by omega), Int.toNat_natCast, findRange_iterate_enterRange]
    rfl

/-- The lookup goes through the lines that are read. -/
theorem findRange_geoipCsvReadIpv4 (f : File inetPton 32 24) (a : BitVec 32) :
    findRange (geoipCsvReadIpv4 inetPton f.text) a =
      (f.lines.takeWhile fun l => l.1.readable).findSome? fun l =>
        if l.1.range.Found a then l.1.id l.2 else none := by
  rw [geoipCsvReadIpv4, f.fgets_text,
    fscanfLines_linesText f.ids_lt (by decide) le_rfl f.length_lines_le,
    List.foldl_map]
  have hread := @find_foldl _ _
    (fun list l => readLine inetPton list (l.1.record l.2)) (findRange · a)
    (fun l => if l.1.range.Found a then l.1.id l.2 else none)
    (f.lines.takeWhile fun l => l.1.readable) (fun l hl list => ?_) fun _ => []
  · exact hread.trans Option.none_or
  · exact findRange_readLine l.1 (f.ids_lt l (List.takeWhile_subset _ hl)) list a

end

/-- The lookups in all files made of the lines of a set are right exactly if each
line with an id has a prefix of eight bits or more and no bit behind it, and if, as
soon as there is a line with an id, something stands behind the comma in every
line. -/
theorem geoipCsvGetV4Geoid_eq_iff (inetPton : List Char → Option (BitVec 32))
    (R : Set (Line inetPton 32 24)) :
    (∀ f : File inetPton 32 24, (∀ l ∈ f.lines, l.1 ∈ R) → ∀ a,
      geoipCsvGetV4Geoid (geoipCsvReadIpv4 inetPton f.text) (some a) =
        (firstId getMsbD f.ranges a).getD 0) ↔
    (∀ l ∈ R, l.hasId = true → 8 ≤ l.range.cidr ∧ l.range.Aligned getMsbD) ∧
      ((∃ l ∈ R, l.hasId = true) → ∀ l ∈ R, l.readable = true) := by
  simp only [geoipCsvGetV4Geoid, Option.bind_some, findRange_geoipCsvReadIpv4,
    firstId, File.ranges, List.findSome?_map]
  constructor
  · intro h
    constructor
    · intro l hl hid
      refine (found_of_contains_iff l.range).mp fun a ha => ?_
      by_contra hnot
      have hfile := h (fileOf [(l, 1)] (by simp))
        (List.forall_mem_singleton.mpr hl) a
      simp [Line.readable, Line.id, hid, hnot, ha] at hfile
    · rintro ⟨l', hl', hid'⟩ l hl
      by_contra hread
      have hid : l.hasId = false := by
        simp [Line.readable] at hread
        exact hread.1
      -- the line that is not read stands before the one with an id
      have hfile := h (fileOf [(l, 0), (l', 1)] (by simp))
        (List.forall_mem_cons.mpr ⟨hl, List.forall_mem_singleton.mpr hl'⟩)
        l'.range.addr
      have hself : l'.range.Contains getMsbD l'.range.addr := fun _ _ => rfl
      simp [hread, Line.id, hid, hid', hself] at hfile
  · rintro ⟨hfound, hread⟩ f hf a
    have hlines : f.lines.findSome? (fun l =>
        if l.1.range.Found a then l.1.id l.2 else none) =
        f.lines.findSome? fun l =>
          if l.1.range.Contains getMsbD a then l.1.id l.2 else none := by
      refine findSome?_congr fun l hl => ?_
      rw [Line.id]
      cases hid : l.1.hasId with
      | false => simp
      | true =>
        have hiff : l.1.range.Found a ↔ l.1.range.Contains getMsbD a :=
          ⟨fun h => ((and_netmask_eq_iff l.1.range a).mp h.2).1,
            (found_of_contains_iff l.1.range).mpr (hfound l.1 (hf l hl) hid) a⟩
        simp only [hiff]
    by_cases hany : ∃ l ∈ R, l.hasId = true
    · rw [List.takeWhile_eq_self_iff.mpr fun l hl => hread hany l.1 (hf l hl),
        hlines]
      rfl
    · have hnone : ∀ l ∈ f.lines, l.1.id l.2 = none := fun l hl =>
        if_neg fun hid => hany ⟨l.1, hf l hl, hid⟩
      rw [List.findSome?_eq_none_iff.mpr, List.findSome?_eq_none_iff.mpr]
      · intro l hl
        simp [hnone l hl]
      · intro l hl
        rw [hnone l (List.takeWhile_subset _ hl), ite_self]

theorem ipChars_of_all {ip : List Char}
    (h : (ip.all fun c => c != '/' && !isspace c) = true) :
    ∀ c ∈ ip, c ≠ '/' ∧ isspace c = false := by
  intro c hc
  have hchar := List.all_eq_true.mp h c hc
  rwa [Bool.and_eq_true, bne_iff_ne, Bool.not_eq_true'] at hchar

def sampleInetPton (ip : List Char) : Option (BitVec 32) :=
  some (if ip = "2.0.0.0".toList then 0x02000000 else 0x03000000)

/-- A file with the line 2.0.0.0/`cidr`,1,0. -/
def sampleFile (cidr : ℕ) (hpos : 1 ≤ cidr) (hle : cidr ≤ 32) :
    File sampleInetPton 32 24 :=
  fileOf [({
    ip := "2.0.0.0".toList
    range := ⟨0x02000000, cidr, hpos, hle⟩
    hasId := true
    rest := ",0".toList
    convert := rfl
    ip_ne := by decide
    ip_lt := by decide
    ip_chars := ipChars_of_all (by decide)
    rest_head := by rintro c ⟨⟩; rfl
    rest_line := by decide
    rest_le := by decide }, 1)] (by simp)

/-- 2.0.0.1 is found in 2.0.0.0/8. -/
theorem geoipCsvGetV4Geoid_sample :
    geoipCsvGetV4Geoid (geoipCsvReadIpv4 sampleInetPton
      (sampleFile 8 (by decide) (by decide)).text) (some 0x02000001) = 1 := by
  have hiff := geoipCsvGetV4Geoid_eq_iff sampleInetPton {l | l.range.cidr = 8 ∧
    l.range.Aligned getMsbD ∧ l.hasId = true}
  have hlines : ∀ l ∈ (sampleFile 8 (by decide) (by decide)).lines,
      l.1.range.cidr = 8 ∧ l.1.range.Aligned getMsbD ∧ l.1.hasId = true := by
    refine List.forall_mem_singleton.mpr ⟨rfl, ?_, rfl⟩
    decide
  rw [hiff.mpr ⟨fun l hl _ => ⟨hl.1.ge, hl.2.1⟩, fun _ l hl => ?_⟩ _ hlines]
  · decide
  · rw [Line.readable, hl.2.2, Bool.true_or]

/-- 2.0.0.0/7 has the address 3.0.0.1, which is not found. -/
theorem geoipCsvGetV4Geoid_shortPrefix :
    let f := sampleFile 7 (by decide) (by decide)
    f.text = "network\n2.0.0.0/7,1,0\n".toList ∧
      geoipCsvGetV4Geoid (geoipCsvReadIpv4 sampleInetPton f.text)
        (some 0x03000001) = 0 ∧
      firstId getMsbD f.ranges 0x03000001 = some 1 := by
  decide

/-! ## IPv6 -/

/-- `uint16_t[8]`. -/
abbrev Groups := Fin 8 → BitVec 16

structure Ip6Range where
  addr : Groups
  mask : Groups
  geoid : ℤ

def group (i : ℕ) : Fin 8 := Fin.ofNat 8 (i / 16)

def Groups.bit (a : Groups) (i : ℕ) : Bool :=
  (a (group i)).getMsbD (i % 16)

def netmask6 : ℕ → Groups
  | 0 => fun _ => 0
  | bit + 1 =>
    update (netmask6 bit) (group bit)
      (netmask6 bit (group bit) ||| (1#16 <<< (15 - bit % 16)))

/-- What the reader keeps from line to line. -/
structure Reader where
  cidr : ℤ
  geoid : ℤ
  list : List Ip6Range

/-- What is before and behind the first `/`, if `ip` has room for it. -/
def splitIp (buf : List Char) : Option (List Char × List Char) :=
  match buf.dropWhile (· != '/') with
  | [] => none
  | _ :: bptr =>
    let ip := buf.takeWhile (· != '/')
    if ip.length < 40 then some (ip, bptr) else none

section

variable (convert : List Char → Option Groups)

/-- A line as `fgets` returns it, where `convert` is `geoip_csv_ip6_convert`. -/
def readLine6 (s : Reader) (buf : List Char) : Reader :=
  match splitIp buf with
  | none => s
  | some (ip, bptr) =>
    match convert ip with
    | none => s
    | some addr =>
      let cidr := (sscanf bptr).1.getD s.cidr
      let geoid := (sscanf bptr).2.getD s.geoid
      if cidr < 1 ∨ 128 < cidr then ⟨cidr, geoid, s.list⟩
      else ⟨0, geoid, s.list ++ [⟨addr, netmask6 cidr.toNat, geoid⟩]⟩

/-- The list that is read from the text of a file.  `cidr` and `geoid` are not set
before the first line. -/
def geoipCsvReadIpv6 (cidr geoid : ℤ) (file : List Char) : List Ip6Range :=
  ((fgetsLines file.length (fgets file).2).foldl (readLine6 convert)
    ⟨cidr, geoid, []⟩).list

def findRange6 (list : List Ip6Range) (addr : Groups) : Option ℤ :=
  (list.find? fun r => ∀ i, r.addr i = addr i &&& r.mask i).map Ip6Range.geoid

/-- The address is what `geoip_csv_ip6_convert` makes of the text. -/
def geoipCsvGetV6Geoid (list : List Ip6Range) (iip : Option Groups) : ℤ :=
  (iip.bind (findRange6 list)).getD 0

end

/-- The loop of the lookup stops at the range. -/
def Range.Found6 (r : Range Groups 128) (a : Groups) : Prop :=
  ∀ i, r.addr i = a i &&& netmask6 r.cidr i

instance (r : Range Groups 128) (a : Groups) : Decidable (r.Found6 a) :=
  inferInstanceAs (Decidable (∀ _, _))

open Groups (bit)

theorem bit_netmask6 {n i : ℕ} (hn : n ≤ 128) (hi : i < 128) :
    (netmask6 n).bit i = decide (i < n) := by
  induction n with
  | zero => simp [netmask6, bit]
  | succ n ih =>
    have hbefore := ih (by omega)
    unfold bit at hbefore ⊢
    rw [netmask6, update_apply]
    by_cases hgroup : group i = group n
    · have hdiv : i / 16 % 8 = n / 16 % 8 := congrArg Fin.val hgroup
      rw [if_pos hgroup, ← hgroup, getMsbD_or, hbefore, ← twoPow_eq, getMsbD_twoPow,
        Bool.eq_iff_iff]
      simp
      omega
    · have hne : i ≠ n := fun h => hgroup (h ▸ rfl)
      rw [if_neg hgroup, hbefore, decide_eq_decide]
      omega

theorem Groups.ext_bit {x y : Groups} (h : ∀ i < 128, x.bit i = y.bit i) :
    x = y := by
  funext g
  refine eq_of_getMsbD_eq fun j hj => ?_
  have hbit := h (16 * g + j) (by omega)
  have hg : group (16 * g + j) = g := Fin.ext (by simp [group]; omega)
  rwa [bit, bit, hg, Nat.mul_add_mod, Nat.mod_eq_of_lt hj] at hbit

section

variable {convert : List Char → Option Groups} (l : Line convert 128 40)
  {id : ℕ} (hid : id < 2 ^ 31) (s : Reader)

include hid

/-- The line is entered, with the id of the line before if it has none. -/
theorem readLine6_text :
    readLine6 convert s (l.text id) = ⟨0, (l.id id).getD s.geoid,
      s.list ++ [⟨l.range.addr, netmask6 l.range.cidr,
        (l.id id).getD s.geoid⟩]⟩ := by
  have hpos := l.range.pos
  have hle := l.range.le
  have hslash : '/' ∉ l.ip := fun h => (l.ip_chars _ h).1 rfl
  have hsplit : splitIp (l.text id) = some (l.ip, l.behind id ++ ['\n']) := by
    rw [splitIp, Line.text, dropWhile_bne_append hslash, takeWhile_bne_append hslash]
    exact if_pos l.ip_lt
  have hscan : sscanf (l.behind id ++ ['\n']) = (some (l.range.cidr : ℤ), l.id id) := by
    rw [sscanf, l.scanInt_behind id (by decide)]
    exact congrArg _ (l.scanInt_fields hid (.inr rfl))
  simp only [readLine6, hsplit, l.convert, hscan, Option.getD_some,
    Int.toNat_natCast]
  exact if_neg (by omega)

theorem findRange6_readLine6 (a : Groups) :
    findRange6 (readLine6 convert s (l.text id)).list a =
      (findRange6 s.list a).or (if l.range.Found6 a then
        some ((l.id id).getD s.geoid) else none) := by
  rw [readLine6_text l hid, findRange6, List.find?_append, Option.map_or]
  congr 1
  unfold Range.Found6
  split_ifs with h <;> simp [h]

end

theorem found6_iff (r : Range Groups 128) (a : Groups) :
    r.Found6 a ↔ r.Contains bit a ∧ r.Aligned bit := by
  refine Iff.trans ⟨fun h => (funext h).symm, fun h => congrFun h.symm⟩
    (masked_eq_iff (fun _ _ => Groups.ext_bit) fun i hi => ?_)
  rw [← bit_netmask6 r.le hi]
  exact getMsbD_and

/-- The lookups in all files made of the lines of a set are right exactly if those
lines have an id whose range has no bit behind its prefix. -/
theorem geoipCsvGetV6Geoid_eq_iff (convert : List Char → Option Groups)
    (R : Set (Line convert 128 40)) :
    (∀ f : File convert 128 40, (∀ l ∈ f.lines, l.1 ∈ R) → ∀ cidr geoid a,
      geoipCsvGetV6Geoid (geoipCsvReadIpv6 convert cidr geoid f.text) (some a) =
        (firstId Groups.bit f.ranges a).getD 0) ↔
    ∀ l ∈ R, (l.hasId = true ↔ l.range.Aligned Groups.bit) := by
  have hread : ∀ (f : File convert 128 40) cidr geoid,
      geoipCsvReadIpv6 convert cidr geoid f.text =
        (f.lines.foldl (fun s l => readLine6 convert s (l.1.text l.2))
          ⟨cidr, geoid, []⟩).list := by
    intro f cidr geoid
    rw [geoipCsvReadIpv6, f.fgets_text, fgetsLines_linesText f.ids_lt (by decide)
      le_rfl f.length_lines_le, List.foldl_map]
  simp only [geoipCsvGetV6Geoid, Option.bind_some, hread]
  constructor
  · intro h l hl
    -- the line alone, for its own address, with the same id left before it
    have hfile := h (fileOf [(l, 1)] (by simp))
      (List.forall_mem_singleton.mpr hl) 0 1
      l.range.addr
    have hself : l.range.Contains bit l.range.addr := fun _ _ => rfl
    simp only [lines_fileOf, File.ranges, List.map_cons, List.map_nil, List.foldl_cons,
      List.foldl_nil, findRange6_readLine6 l (by decide : 1 < 2 ^ 31),
      found6_iff] at hfile
    by_cases haligned : l.range.Aligned bit <;> cases hid : l.hasId <;>
      simp [findRange6, firstId, Line.id, hid, hself, haligned] at hfile ⊢
  · intro h f hf cidr geoid a
    have hlines := @find_foldl _ _
      (fun s l => readLine6 convert s (l.1.text l.2))
      (fun s => findRange6 s.list a)
      (fun l => if l.1.range.Contains bit a then l.1.id l.2 else none)
      f.lines (fun l hl s => ?_) ⟨cidr, geoid, []⟩
    · rw [hlines, firstId, File.ranges, List.findSome?_map]
      rfl
    · rw [findRange6_readLine6 l.1 (f.ids_lt l hl)]
      simp only [found6_iff, ← h l.1 (hf l hl)]
      cases hid : l.1.hasId <;> simp [Line.id, hid]

/-- 2001:`n`::. -/
def sampleGroups (n : BitVec 16) : Groups := fun g =>
  if g = 0 then 0x2001 else if g = 1 then n else 0

def sampleConvert (ip : List Char) : Option Groups :=
  some (sampleGroups (if ip = "2001:db8::".toList then 0xdb8 else 0xdb9))

/-- A line for 2001:`n`::/32. -/
def sampleLine6 (ip : List Char) (n : BitVec 16) (hasId : Bool)
    (convert : sampleConvert ip = some (sampleGroups n)) (hip : ip.length = 10)
    (hchars : ∀ c ∈ ip, c ≠ '/' ∧ isspace c = false) : Line sampleConvert 128 40 where
  ip := ip
  range := ⟨sampleGroups n, 32, by decide, by decide⟩
  hasId := hasId
  rest := ",0".toList
  convert := convert
  ip_ne := by
    rintro rfl
    cases hip
  ip_lt := by omega
  ip_chars := hchars
  rest_head := by rintro c ⟨⟩; rfl
  rest_line := by decide
  rest_le := by decide

/-- The second line of the file has an id or has none. -/
def sampleFile6 (hasId : Bool) : File sampleConvert 128 40 :=
  fileOf [(sampleLine6 "2001:db8::".toList 0xdb8 true rfl rfl
      (ipChars_of_all (by decide)), 1),
    (sampleLine6 "2001:db9::".toList 0xdb9 hasId rfl rfl
      (ipChars_of_all (by decide)), 2)] (by simp)

/-- 2001:db9:: is found on the second line, if this has an id. -/
theorem geoipCsvGetV6Geoid_sample :
    geoipCsvGetV6Geoid (geoipCsvReadIpv6 sampleConvert 0 0 (sampleFile6 true).text)
      (some (sampleGroups 0xdb9)) = 2 := by
  refine ((geoipCsvGetV6Geoid_eq_iff sampleConvert
    {l | l.hasId = true ∧ l.range.Aligned bit}).mpr
    (fun l hl => iff_of_true hl.1 hl.2) (sampleFile6 true) ?_ 0 0 _).trans ?_
  · refine List.forall_mem_cons.mpr ⟨⟨rfl, ?_⟩,
      List.forall_mem_singleton.mpr ⟨rfl, ?_⟩⟩
    · decide
    · decide
  · decide

/-- 2001:db9::/32 stands without an id behind 2001:db8::/32. -/
theorem geoipCsvGetV6Geoid_missingId :
    (sampleFile6 false).text =
        "network\n2001:db8::/32,1,0\n2001:db9::/32,,0\n".toList ∧
      geoipCsvGetV6Geoid (geoipCsvReadIpv6 sampleConvert 0 0
        (sampleFile6 false).text) (some (sampleGroups 0xdb9)) = 1 ∧
      firstId Groups.bit (sampleFile6 false).ranges (sampleGroups 0xdb9) =
        none := by
  decide

end UnrealIrcd.GeoipCsv
