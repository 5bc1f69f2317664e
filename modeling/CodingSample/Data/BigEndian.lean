import Mathlib.Algebra.Order.Ring.Int

/-!
# Signed numbers in big-endian bytes
-/

namespace CodingSample.BigEndian

/-- The last `k` digits of `n` to base 256. -/
def encodeNat : Nat → Nat → List UInt8
  | 0, _ => []
  | k + 1, n => encodeNat k (n / 256) ++ [UInt8.ofNat n]

def decodeNat (bytes : List UInt8) : Nat := bytes.foldl (fun n b => n * 256 + b.toNat) 0

/-- A number of `k` bytes in two's complement. -/
def encode (k : Nat) (n : Int) : List UInt8 := encodeNat k (n % (256 ^ k : Nat)).toNat

def decode (bytes : List UInt8) : Int := (decodeNat bytes : Int).bmod (256 ^ bytes.length)

variable {k n : Nat} {i : Int}

theorem length_encodeNat : (encodeNat k n).length = k := by
  induction k generalizing n with
  | zero => rfl
  | succ k ih => rw [encodeNat, List.length_append, ih, List.length_singleton]

theorem length_encode : (encode k i).length = k := length_encodeNat

theorem decodeNat_encodeNat (h : n < 256 ^ k) : decodeNat (encodeNat k n) = n := by
  induction k generalizing n with
  | zero => exact (Nat.lt_one_iff.mp h).symm
  | succ k ih =>
      have hdiv : n / 256 < 256 ^ k := Nat.div_lt_of_lt_mul (by rwa [← Nat.pow_succ'])
      have hrec := ih hdiv
      unfold decodeNat at hrec ⊢
      rw [encodeNat, List.foldl_append, hrec, List.foldl_cons, List.foldl_nil, UInt8.toNat_ofNat']
      omega

/-- A number that fits is read back. -/
theorem decode_encode (hlow : -(256 ^ k : Nat) ≤ i * 2) (hhigh : i * 2 < (256 ^ k : Nat)) :
    decode (encode k i) = i := by
  have hpos : (0 : Int) < (256 ^ k : Nat) := Int.natCast_pos.mpr (Nat.pow_pos (by decide))
  have hnonneg := Int.emod_nonneg i (Int.ne_of_gt hpos)
  have hlt : (i % (256 ^ k : Nat)).toNat < 256 ^ k := by
    have := Int.emod_lt_of_pos i hpos
    omega
  rw [decode, length_encode, encode, decodeNat_encodeNat hlt, Int.toNat_of_nonneg hnonneg,
    Int.emod_bmod, Int.bmod_eq_of_le_mul_two hlow hhigh]

end CodingSample.BigEndian
