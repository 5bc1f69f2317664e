import Mathlib.Data.UInt
import Mathlib.Tactic.Common
import Mathlib.Logic.Function.Basic
import Mathlib.Tactic.IntervalCases
import Mathlib.Tactic.NormNum

/-!
# Blocks of bytes and the words in them

A block is read and written both as bytes and as little-endian 32-bit words.
-/

namespace CodingSample

/-- The bytes of a page or disk block, by offset. -/
abbrev Block : Type := Nat → UInt8

namespace Block

/-- The block of zeros. -/
def zero : Block := fun _ => 0

/-- Byte `k` of a 32-bit word, least significant first. -/
def byteOf (w : UInt32) (k : Nat) : UInt8 := UInt8.ofNat (w.toNat / 256 ^ k)

/-- The word whose bytes are `b0`, `b1`, `b2`, `b3`, least significant first. -/
def ofBytes (b0 b1 b2 b3 : UInt8) : UInt32 :=
  UInt32.ofNat (b0.toNat + 256 * b1.toNat + 65536 * b2.toNat + 16777216 * b3.toNat)

/-- The 32-bit word at index `i` of a block. -/
def word (b : Block) (i : Nat) : UInt32 :=
  ofBytes (b (4 * i)) (b (4 * i + 1)) (b (4 * i + 2)) (b (4 * i + 3))

/-- Overwrite the first `n` words of a block with those of a table. -/
def writeWords (b : Block) (f : Nat → UInt32) (n : Nat) : Block := fun j =>
  if j < 4 * n then byteOf (f (j / 4)) (j % 4) else b j

/-- Overwrite the word at index `i`. -/
def setWord (b : Block) (i : Nat) (w : UInt32) : Block := fun j =>
  if j / 4 = i then byteOf w (j % 4) else b j

/-- Copy `n` bytes of `src` to offset `off`, as `memcpy` does. -/
def copyIn (b : Block) (off n : Nat) (src : Nat → UInt8) : Block := fun j =>
  if off ≤ j ∧ j < off + n then src (j - off) else b j

/-- The 16-bit word at index `i` of a block, as a number. -/
def half (b : Block) (i : Nat) : Nat := (b (2 * i)).toNat + 256 * (b (2 * i + 1)).toNat

/-- Overwrite the 16-bit word at index `i`. -/
def setHalf (b : Block) (i w : Nat) : Block := fun j =>
  if j / 2 = i then UInt8.ofNat (w / 256 ^ (j % 2)) else b j

/-- A 16-bit word as a signed number. -/
def signed (w : Nat) : Int := if w < 32768 then w else w - 65536

@[simp] theorem zero_apply (j : Nat) : zero j = 0 := rfl

theorem ofBytes_byteOf (w : UInt32) :
    ofBytes (byteOf w 0) (byteOf w 1) (byteOf w 2) (byteOf w 3) = w := by
  have hw := w.toNat_lt
  apply UInt32.toNat_inj.mp
  simp only [ofBytes, byteOf, UInt32.toNat_ofNat', UInt8.toNat_ofNat', Nat.reducePow] at hw ⊢
  omega

@[simp] theorem word_zero (i : Nat) : word zero i = 0 := by
  simp [word, ofBytes]

theorem word_writeWords_of_lt (b : Block) (f : Nat → UInt32) {n i : Nat} (hi : i < n) :
    word (writeWords b f n) i = f i := by
  have hbyte (k : Nat) (hk : k < 4) : writeWords b f n (4 * i + k) = byteOf (f i) k := by
    have hlt : 4 * i + k < 4 * n := by omega
    have hdiv : (4 * i + k) / 4 = i := by omega
    have hmod : (4 * i + k) % 4 = k := by omega
    simp [writeWords, hlt, hdiv, hmod]
  have h0 := hbyte 0 (by omega)
  rw [Nat.add_zero] at h0
  rw [word, h0, hbyte 1 (by omega), hbyte 2 (by omega), hbyte 3 (by omega), ofBytes_byteOf]

theorem word_setWord_self (b : Block) (i : Nat) (w : UInt32) : word (setWord b i w) i = w := by
  have hbyte (k : Nat) (hk : k < 4) : setWord b i w (4 * i + k) = byteOf w k := by
    have hdiv : (4 * i + k) / 4 = i := by omega
    have hmod : (4 * i + k) % 4 = k := by omega
    simp [setWord, hdiv, hmod]
  have h0 := hbyte 0 (by omega)
  rw [Nat.add_zero] at h0
  rw [word, h0, hbyte 1 (by omega), hbyte 2 (by omega), hbyte 3 (by omega), ofBytes_byteOf]

theorem word_setWord_of_ne (b : Block) {i j : Nat} (w : UInt32) (hne : j ≠ i) :
    word (setWord b i w) j = word b j := by
  have hbyte (k : Nat) (hk : k < 4) : setWord b i w (4 * j + k) = b (4 * j + k) := by
    have hdiv : (4 * j + k) / 4 ≠ i := by omega
    simp [setWord, hdiv]
  have h0 := hbyte 0 (by omega)
  rw [Nat.add_zero] at h0
  rw [word, word, h0, hbyte 1 (by omega), hbyte 2 (by omega), hbyte 3 (by omega)]

theorem word_setWord (b : Block) (i : Nat) (w : UInt32) :
    word (setWord b i w) = Function.update (word b) i w := by
  funext j
  by_cases hj : j = i
  · subst hj
    simp [word_setWord_self]
  · rw [word_setWord_of_ne b w hj, Function.update_of_ne hj]

theorem setWord_setWord (b : Block) (i : Nat) (v w : UInt32) :
    setWord (setWord b i v) i w = setWord b i w := by
  funext j
  unfold setWord
  split <;> rfl

theorem setWord_comm (b : Block) {i j : Nat} {v w : UInt32} (h : i ≠ j) :
    setWord (setWord b i v) j w = setWord (setWord b j w) i v := by
  funext k
  unfold setWord
  split <;> split <;> first | rfl | omega

theorem toNat_word (b : Block) (i : Nat) : (word b i).toNat = (b (4 * i)).toNat +
    256 * (b (4 * i + 1)).toNat + 65536 * (b (4 * i + 2)).toNat +
      16777216 * (b (4 * i + 3)).toNat := by
  have h0 := (b (4 * i)).toNat_lt
  have h1 := (b (4 * i + 1)).toNat_lt
  have h2 := (b (4 * i + 2)).toNat_lt
  have h3 := (b (4 * i + 3)).toNat_lt
  rw [word, ofBytes, UInt32.toNat_ofNat']
  omega

theorem half_even (b : Block) (i : Nat) : half b (2 * i) = (word b i).toNat % 65536 := by
  have h0 := (b (4 * i)).toNat_lt
  have h1 := (b (4 * i + 1)).toNat_lt
  rw [toNat_word, half]
  have e0 : 2 * (2 * i) = 4 * i := by omega
  rw [e0]
  omega

theorem half_odd (b : Block) (i : Nat) : half b (2 * i + 1) = (word b i).toNat / 65536 := by
  have h0 := (b (4 * i)).toNat_lt
  have h1 := (b (4 * i + 1)).toNat_lt
  rw [toNat_word, half]
  have e0 : 2 * (2 * i + 1) = 4 * i + 2 := by omega
  have e1 : 4 * i + 2 + 1 = 4 * i + 3 := rfl
  rw [e0, e1]
  omega

/-- A block with two of the bytes of a word given, and the others kept, has the word that says
so. -/
theorem eq_setWord (b b' : Block) (i : Nat) (w : UInt32)
    (hself : ∀ k < 4, b' (4 * i + k) = byteOf w k)
    (hother : ∀ j, j / 4 ≠ i → b' j = b j) : b' = setWord b i w := by
  funext j
  unfold setWord
  by_cases hj : j / 4 = i
  · rw [if_pos hj, ← hself (j % 4) (by omega)]
    congr 1
    omega
  · rw [if_neg hj, hother j hj]

theorem copyIn_congr {b b' : Block} {j : Nat} (h : b j = b' j) (off n : Nat)
    (src : Nat → UInt8) : b.copyIn off n src j = b'.copyIn off n src j := by
  unfold copyIn
  split
  · rfl
  · exact h

theorem copyIn_zero (b : Block) (off : Nat) (src : Nat → UInt8) : b.copyIn off 0 src = b := by
  funext j
  exact if_neg (by omega)

/-- Two copies to adjacent places are one. -/
theorem copyIn_copyIn (b : Block) (off n m : Nat) (src : Nat → UInt8) :
    (b.copyIn off n src).copyIn (off + n) m (fun j => src (n + j)) = b.copyIn off (n + m) src := by
  funext j
  unfold copyIn
  by_cases hsecond : off + n ≤ j ∧ j < off + n + m
  · rw [if_pos hsecond, if_pos (by omega)]
    exact congrArg src (by omega)
  · rw [if_neg hsecond]
    by_cases hfirst : off ≤ j ∧ j < off + n
    · rw [if_pos hfirst, if_pos (by omega)]
    · rw [if_neg hfirst, if_neg (by omega)]

theorem setHalf_even (b : Block) (i w : Nat) : setHalf b (2 * i) w =
    setWord b i (UInt32.ofNat (w % 65536 + 65536 * ((word b i).toNat / 65536))) := by
  have h0 := (b (4 * i)).toNat_lt
  have h1 := (b (4 * i + 1)).toNat_lt
  have h2 := (b (4 * i + 2)).toNat_lt
  have h3 := (b (4 * i + 3)).toNat_lt
  refine eq_setWord _ _ i _ (fun k hk => ?_) fun j hj => ?_
  · have hmod : (4 * i + k) % 2 = k % 2 := by omega
    apply UInt8.toNat_inj.mp
    rw [byteOf, setHalf, hmod, UInt8.toNat_ofNat', UInt32.toNat_ofNat', toNat_word]
    interval_cases k
    · rw [if_pos (by omega), UInt8.toNat_ofNat']
      norm_num
      omega
    · rw [if_pos (by omega), UInt8.toNat_ofNat']
      norm_num
      omega
    · rw [if_neg (by omega)]
      norm_num
      omega
    · rw [if_neg (by omega)]
      norm_num
      omega
  · exact if_neg (by omega)

theorem setHalf_odd (b : Block) (i w : Nat) : setHalf b (2 * i + 1) w =
    setWord b i (UInt32.ofNat ((word b i).toNat % 65536 + 65536 * (w % 65536))) := by
  have h0 := (b (4 * i)).toNat_lt
  have h1 := (b (4 * i + 1)).toNat_lt
  have h2 := (b (4 * i + 2)).toNat_lt
  have h3 := (b (4 * i + 3)).toNat_lt
  refine eq_setWord _ _ i _ (fun k hk => ?_) fun j hj => ?_
  · have hmod : (4 * i + k) % 2 = k % 2 := by omega
    apply UInt8.toNat_inj.mp
    rw [byteOf, setHalf, hmod, UInt8.toNat_ofNat', UInt32.toNat_ofNat', toNat_word]
    interval_cases k
    · rw [if_neg (by omega)]
      norm_num
      omega
    · rw [if_neg (by omega)]
      norm_num
      omega
    · rw [if_pos (by omega), UInt8.toNat_ofNat']
      norm_num
      omega
    · rw [if_pos (by omega), UInt8.toNat_ofNat']
      norm_num
      omega
  · exact if_neg (by omega)

end Block

end CodingSample
