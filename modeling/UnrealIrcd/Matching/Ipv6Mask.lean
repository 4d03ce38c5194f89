import Mathlib.Data.Fin.Basic
import Mathlib.Data.Int.Notation
import Mathlib.Order.MinMax

/-!
# Masks of IPv6 addresses

`mask_ipv6_rawip` of `src/match.c` keeps the first bits of an address.
-/

namespace UnrealIrcd.Matching

abbrev RawIp := Fin 16 → UInt8

/-- The array that starts with some bytes and is zero behind them. -/
def RawIp.ofBytes (bytes : List UInt8) : RawIp := fun i => bytes.getD i 0

def maskIpv6Rawip (src : RawIp) (bits : ℤ) : RawIp :=
  let bits := (max 0 (min bits 128)).toNat
  fun i =>
    if i < bits / 8 then src i
    else if 0 < bits % 8 ∧ i = bits / 8 then
      src i &&& 0xFF <<< (8 - bits % 8).toUInt8
    else 0

/-- Bit `k` of an address, from the front. -/
def RawIp.bit (ip : RawIp) (k : Fin 128) : Bool :=
  (ip ⟨k / 8, by omega⟩).toBitVec.getMsbD (k % 8)

theorem RawIp.ext_bit {a b : RawIp} (h : ∀ k, a.bit k = b.bit k) : a = b := by
  funext i
  refine UInt8.toBitVec_inj.mp (BitVec.eq_of_getMsbD_eq fun j hj => ?_)
  have hbit := h ⟨8 * i + j, by omega⟩
  simpa only [bit, Nat.mul_add_div (by decide : 8 > 0), Nat.div_eq_of_lt hj,
    Nat.mul_add_mod, Nat.mod_eq_of_lt hj, Nat.add_zero] using hbit

theorem getMsbD_mask : ∀ n < 8, 0 < n → ∀ j < 8,
    ((0xFF : UInt8) <<< (8 - n).toUInt8).toBitVec.getMsbD j =
      decide (j < n) := by
  decide

theorem bit_maskIpv6Rawip (src : RawIp) (bits : ℤ) (k : Fin 128) :
    (maskIpv6Rawip src bits).bit k = (decide (k < bits) && src.bit k) := by
  unfold RawIp.bit maskIpv6Rawip
  generalize hn : (max 0 (min bits 128)).toNat = n
  have hbits : (k : ℤ) < bits ↔ k < n := by omega
  rw [decide_eq_decide.mpr hbits]
  dsimp only
  split_ifs with hbelow hat
  · have hk : k < n := by omega
    simp [hk]
  · have hk : decide (k % 8 < n % 8) = decide (k < n) :=
      decide_eq_decide.mpr (by omega)
    rw [UInt8.toBitVec_and, BitVec.getMsbD_and, getMsbD_mask (n % 8) (by omega)
      hat.1 (k % 8) (by omega), hk, Bool.and_comm]
  · have hk : ¬ k < n := by omega
    simp [hk]

/-- Addresses have the same mask exactly if their first bits are the same, and
a mask of a mask is the shorter of the two. -/
theorem maskIpv6Rawip_spec (a b : RawIp) (m n : ℤ) :
    (maskIpv6Rawip a n = maskIpv6Rawip b n ↔
        ∀ k : Fin 128, k < n → a.bit k = b.bit k) ∧
      maskIpv6Rawip (maskIpv6Rawip a n) n = maskIpv6Rawip a n ∧
      maskIpv6Rawip (maskIpv6Rawip a m) n = maskIpv6Rawip a (min m n) := by
  have hcompose : ∀ m, maskIpv6Rawip (maskIpv6Rawip a m) n =
      maskIpv6Rawip a (min m n) := by
    intro m
    refine RawIp.ext_bit fun k => ?_
    simp only [bit_maskIpv6Rawip, lt_min_iff, Bool.decide_and, ← Bool.and_assoc]
    rw [Bool.and_comm (decide _)]
  refine ⟨⟨fun h k hk => ?_, fun h => RawIp.ext_bit fun k => ?_⟩, ?_,
    hcompose m⟩
  · have hbit := congrArg (RawIp.bit · k) h
    simpa [bit_maskIpv6Rawip, hk] using hbit
  · rw [bit_maskIpv6Rawip, bit_maskIpv6Rawip]
    by_cases hk : (k : ℤ) < n
    · rw [h k hk]
    · simp [hk]
  · rw [hcompose n, min_self]

end UnrealIrcd.Matching
