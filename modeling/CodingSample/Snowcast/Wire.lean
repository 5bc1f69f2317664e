import Mathlib.Data.List.TakeWhile
import Mathlib.Tactic.Common

/-!
# Bytes on the wire

The constants of Snowcast that the client and the server share, and how the two sides put a 16-bit
integer into a buffer and take it out again.
-/

namespace CodingSample.Snowcast

def cmdHello : UInt8 := 0

def cmdSetstation : UInt8 := 1

def cmdRequest : UInt8 := 2

def typeAll : UInt8 := 0

def typeCurrent : UInt8 := 1

def typeAllStation : UInt8 := 2

/-- `'\n'` -/
def newline : UInt8 := 10

/-! ### Byte order -/

/-- The byte order of a host. -/
inductive Endian where
  | little
  | big
  deriving DecidableEq

def hi (x : UInt16) : UInt8 := UInt8.ofNat (x.toNat / 256)

def lo (x : UInt16) : UInt8 := UInt8.ofNat (x.toNat % 256)

def ofBytes (h l : UInt8) : UInt16 := UInt16.ofNat (h.toNat * 256 + l.toNat)

/-- The bytes of an integer in memory. -/
def Endian.store : Endian → UInt16 → List UInt8
  | .little, x => [lo x, hi x]
  | .big, x => [hi x, lo x]

/-- The integer that two bytes in memory stand for. -/
def Endian.load : Endian → UInt8 → UInt8 → UInt16
  | .little, b, c => ofBytes c b
  | .big, b, c => ofBytes b c

def htons : Endian → UInt16 → UInt16
  | .little, x => ofBytes (lo x) (hi x)
  | .big, x => x

def ntohs : Endian → UInt16 → UInt16
  | .little, x => ofBytes (lo x) (hi x)
  | .big, x => x

theorem toNat_ofBytes (h l : UInt8) : (ofBytes h l).toNat = h.toNat * 256 + l.toNat := by
  have hh := h.toNat_lt
  have hl := l.toNat_lt
  rw [ofBytes, UInt16.toNat_ofNat']
  omega

@[simp] theorem hi_ofBytes (h l : UInt8) : hi (ofBytes h l) = h := by
  have hh := h.toNat_lt
  have hl := l.toNat_lt
  apply UInt8.toNat_inj.mp
  rw [hi, UInt8.toNat_ofNat', toNat_ofBytes]
  omega

@[simp] theorem lo_ofBytes (h l : UInt8) : lo (ofBytes h l) = l := by
  have hl := l.toNat_lt
  apply UInt8.toNat_inj.mp
  rw [lo, UInt8.toNat_ofNat', toNat_ofBytes]
  omega

@[simp] theorem ofBytes_hi_lo (x : UInt16) : ofBytes (hi x) (lo x) = x := by
  have hx := x.toNat_lt
  apply UInt16.toNat_inj.mp
  rw [toNat_ofBytes, hi, lo, UInt8.toNat_ofNat', UInt8.toNat_ofNat']
  omega

/-- Network byte order has the high byte first. -/
@[simp] theorem store_htons (e : Endian) (x : UInt16) : e.store (htons e x) = [hi x, lo x] := by
  cases e with
  | little => simp [Endian.store, htons]
  | big => rfl

@[simp] theorem ntohs_load (e : Endian) (b c : UInt8) : ntohs e (e.load b c) = ofBytes b c := by
  cases e with
  | little => simp [Endian.load, ntohs]
  | big => rfl

/-! ### Numbers as text -/

def isSpace (c : Char) : Bool := c = ' ' || (9 ≤ c.toNat && c.toNat ≤ 13)

/-- `atoi` of a text. -/
def atoi (s : List Char) : Int :=
  match s.dropWhile isSpace with
  | '-' :: t => -(Nat.ofDigitChars 10 (t.takeWhile Char.isDigit) 0 : Int)
  | '+' :: t => Nat.ofDigitChars 10 (t.takeWhile Char.isDigit) 0
  | t => Nat.ofDigitChars 10 (t.takeWhile Char.isDigit) 0

/-- The conversion to `uint16_t`. -/
def toUInt16 (n : Int) : UInt16 := UInt16.ofNat (n % 65536).toNat

theorem not_isSpace {c : Char} (hc : c.isDigit) : isSpace c = false := by
  rw [Char.isDigit_iff_toNat] at hc
  have hne : c ≠ ' ' := by
    rintro rfl
    exact absurd hc.1 (by decide)
  simp only [isSpace, decide_eq_false hne, Bool.false_or]
  rw [Bool.and_eq_false_iff]
  right
  simp only [decide_eq_false_iff_not]
  have h0 : '0'.toNat = 48 := rfl
  omega

/-- The text of a number reads back as the number. -/
theorem atoi_toDigits (n : Nat) : atoi (Nat.toDigits 10 n) = n := by
  have hdigit : ∀ c ∈ Nat.toDigits 10 n, c.isDigit := fun c hc =>
    Nat.isDigit_of_mem_toDigits (by decide) (by decide) hc
  have htake : (Nat.toDigits 10 n).takeWhile Char.isDigit = Nat.toDigits 10 n :=
    List.takeWhile_eq_self_iff.mpr hdigit
  obtain ⟨c, t, ht⟩ := List.exists_cons_of_ne_nil (Nat.toDigits_ne_nil (n := n) (b := 10))
  have hc : c.isDigit := hdigit c (by rw [ht]; exact List.mem_cons_self)
  have hdrop : (Nat.toDigits 10 n).dropWhile isSpace = Nat.toDigits 10 n := by
    rw [ht, List.dropWhile_cons, not_isSpace hc]
    rfl
  have hvalue := Nat.ofDigitChars_ten_toDigits (n := n)
  unfold atoi
  rw [hdrop]
  split
  · rename_i heq
    rw [ht] at heq
    cases heq
    exact absurd hc (by decide)
  · rename_i heq
    rw [ht] at heq
    cases heq
    exact absurd hc (by decide)
  · rw [htake, hvalue]

theorem toUInt16_natCast (x : UInt16) : toUInt16 (x.toNat : Int) = x := by
  have hx := x.toNat_lt
  apply UInt16.toNat_inj.mp
  rw [toUInt16, UInt16.toNat_ofNat']
  omega

end CodingSample.Snowcast
