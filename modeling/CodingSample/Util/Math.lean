import Mathlib.Logic.Function.Basic

/-!
# Division of 64-bit numbers

`long` has 32 bits, and a digit is half of one. The arrays are functions, and a pointer into one of
them is the index where it points. Loops that the source does not bound have a bound here, and
`none` is returned when it is reached, or when the processor traps.
-/

namespace CodingSample.Util

/-- `digit *`. -/
abbrev Digits := Nat → UInt32

@[simp] def halfBits : UInt32 := 16

/-- `B`, the base of the digits. -/
@[simp] def digitBase : UInt32 := 65536

def hhalf (x : UInt32) : UInt32 := x >>> halfBits

def lhalf (x : UInt32) : UInt32 := x &&& 65535

def combine (a b : UInt32) : UInt32 := (a <<< halfBits) ||| b

/-- `tmp.ul[H]`. -/
def high (x : UInt64) : UInt32 := (x >>> 32).toUInt32

/-- `tmp.ul[L]`. -/
def low (x : UInt64) : UInt32 := x.toUInt32

/-- `tmp.uq`. -/
def quad (h l : UInt32) : UInt64 := (h.toUInt64 <<< 32) ||| l.toUInt64

/-- The four digits of a number at the indices from 1 on. -/
def digitsOf (x : UInt64) : Digits
  | 1 => hhalf (high x)
  | 2 => lhalf (high x)
  | 3 => hhalf (low x)
  | 4 => lhalf (low x)
  | _ => 0

/-- `shl` of the digits at `o`, from index `i` on, with `k` of them still to go. -/
def shl (sh : UInt32) (o : Nat) : Nat → Nat → Digits → Digits
  | 0, i, p => Function.update p (o + i) (lhalf (p (o + i) <<< sh))
  | k + 1, i, p => shl sh o k (i + 1) (Function.update p (o + i)
      (lhalf (p (o + i) <<< sh) ||| (p (o + i + 1) >>> (halfBits - sh))))

/-- The length of the divisor, when it is `n` at most. -/
def divisorLength (v : Digits) : Nat → Nat
  | n + 2 => if v (5 - (n + 2)) = 0 then divisorLength v (n + 1) else n + 2
  | n => n

/-- Where `u` points when it has passed the digits that are zero. -/
def dividendStart (u : Digits) : Nat → Nat → Option Nat
  | 0, _ => none
  | fuel + 1, o => if u (o + 1) = 0 then dividendStart u fuel (o + 1) else some o

/-- `for (t = v[1]; t < B / 2; t <<= 1) d++`. -/
def normalizer : Nat → UInt32 → Nat → Option Nat
  | 0, _, _ => none
  | fuel + 1, t, d => if t < digitBase / 2 then normalizer fuel (t <<< 1) (d + 1) else some d

/-- The loop of D3. At `tooBig` it is entered behind the test. -/
def adjust (v1 v2 uj2 : UInt32) : Nat → Bool → UInt32 → UInt32 → Option UInt32
  | 0, _, _, _ => none
  | fuel + 1, tooBig, qhat, rhat =>
      if tooBig ∨ v2 * qhat > combine rhat uj2 then
        let qhat := qhat - 1
        let rhat := rhat + v1
        if rhat ≥ digitBase then some qhat else adjust v1 v2 uj2 fuel false qhat rhat
      else some qhat

/-- D3, for the digits at `j`. -/
def quotientDigit (u : Digits) (v1 v2 : UInt32) (j : Nat) : Option UInt32 :=
  let uj0 := u j
  let uj1 := u (j + 1)
  let uj2 := u (j + 2)
  if uj0 = v1 then adjust v1 v2 uj2 4 true digitBase uj1
  else
    let nn := combine uj0 uj1
    adjust v1 v2 uj2 4 false (nn / v1) (nn % v1)

/-- The loop of D4, with `i` digits to go. -/
def multiplySubtract (v : Digits) (qhat : UInt32) (j : Nat) :
    Nat → Digits → UInt32 → Digits × UInt32
  | 0, u, t => (u, t)
  | i + 1, u, t =>
      let t := u (j + (i + 1)) - v (i + 1) * qhat - t
      multiplySubtract v qhat j i (Function.update u (j + (i + 1)) (lhalf t))
        ((digitBase - hhalf t) &&& (digitBase - 1))

/-- The loop of D6. -/
def addBack (v : Digits) (j : Nat) : Nat → Digits → UInt32 → Digits × UInt32
  | 0, u, t => (u, t)
  | i + 1, u, t =>
      let t := t + (u (j + (i + 1)) + v (i + 1))
      addBack v j i (Function.update u (j + (i + 1)) (lhalf t)) (hhalf t)

/-- D4 to D6: the digits that are left, and the digit of the quotient. -/
def subtractMultiple (v : Digits) (n : Nat) (u : Digits) (j : Nat) (qhat : UInt32) :
    Digits × UInt32 :=
  let (u, t) := multiplySubtract v qhat j n u 0
  let t := u j - t
  let u := Function.update u j (lhalf t)
  if hhalf t ≠ 0 then
    let (u, t) := addBack v j n u 0
    (Function.update u j (lhalf (u j + t)), qhat - 1)
  else (u, qhat)

/-- The loop on `j`, from D2 to D7, with `k` rounds to go. -/
def divisionLoop (v : Digits) (n : Nat) :
    Nat → Nat → Nat → Digits → Digits → Option (Digits × Digits)
  | 0, _, _, u, q => some (u, q)
  | k + 1, uAt, qAt, u, q =>
      match quotientDigit u (v 1) (v 2) uAt with
      | none => none
      | some qhat =>
          let (u, qhat) := subtractMultiple v n u uAt qhat
          divisionLoop v n k (uAt + 1) (qAt + 1) u (Function.update q qAt qhat)

/-- The remainder is shifted back, from index `i` down, `k` digits. -/
def shiftBack (d : UInt32) : Nat → Nat → Digits → Digits
  | 0, i, u => Function.update u i 0
  | k + 1, i, u => shiftBack d k (i - 1) (Function.update u i
      ((u i >>> d) ||| lhalf (u (i - 1) <<< (halfBits - d))))

/-- A divisor of one digit. -/
def shortDivision (u : Digits) (t : UInt32) : UInt64 × UInt64 :=
  let q1 := u 1 / t
  let rbj := combine (u 1 % t) (u 2)
  let q2 := rbj / t
  let rbj := combine (rbj % t) (u 3)
  let q3 := rbj / t
  let rbj := combine (rbj % t) (u 4)
  let q4 := rbj / t
  (quad (combine q1 q2) (combine q3 q4), (rbj % t).toUInt64)

/-- Program D for a divisor of `n` digits, with its digits from index 1 of `v` on. -/
def longDivision (uspace v : Digits) (n : Nat) : Option (UInt64 × UInt64) := do
  let o ← dividendStart uspace 4 0
  let m := 4 - n - o
  let d ← normalizer 17 (v 1) 0
  let u := if d > 0 then shl (UInt32.ofNat d) o (m + n) 0 uspace else uspace
  let v := if d > 0 then shl (UInt32.ofNat d) 1 (n - 1) 0 v else v
  let (u, q) ← divisionLoop v n (m + 1) o (4 - m) u fun _ => 0
  let u := if d > 0 then shiftBack (UInt32.ofNat d) n (o + m + n) u else u
  pure (quad (combine (q 1) (q 2)) (combine (q 3) (q 4)),
    quad (combine (u 1) (u 2)) (combine (u 3) (u 4)))

/-- `__qdivrem`: the quotient, and the remainder that is stored in `*arq`. -/
def qdivrem (uq vq : UInt64) : Option (UInt64 × UInt64) :=
  if vq = 0 then none
  else if uq < vq then some (0, uq)
  else
    let u := digitsOf uq
    let v := digitsOf vq
    let n := divisorLength v 4
    if n = 1 then some (shortDivision u (v 4)) else longDivision u (fun i => v (4 - n + i)) n

def divdi3 (a b : Int64) : Option Int64 :=
  let ua := if a < 0 then -a.toUInt64 else a.toUInt64
  let ub := if b < 0 then -b.toUInt64 else b.toUInt64
  let neg := (a < 0) != (b < 0)
  (qdivrem ua ub).map fun r => if neg then (-r.1).toInt64 else r.1.toInt64

def udivdi3 (a b : UInt64) : Option UInt64 := (qdivrem a b).map Prod.fst

def umoddi3 (a b : UInt64) : Option UInt64 := (qdivrem a b).map Prod.snd

end CodingSample.Util
