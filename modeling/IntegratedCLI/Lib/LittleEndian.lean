import IntegratedCLI.Lib.Widths
import Mathlib.Algebra.Group.Nat.Defs
import Mathlib.Data.List.Basic
import Mathlib.Data.Nat.Notation
import Mathlib.Tactic.Common

/-!
# Numbers as bytes

The lowest byte first, the bytes of a number are its digits to the base 256.  A record is the bytes
of its fields one after the other: `intAt` is the field at an offset, and `intsAt` are as many as
are asked for, unless one of them is not within the bytes.
-/

namespace LittleEndian

def toBytes (k n : ℕ) : List UInt8 := (List.range k).map fun i => UInt8.ofNat (n / 256 ^ i)

def ofBytes (bytes : List UInt8) : ℕ := bytes.foldr (fun b n => b.toNat + 256 * n) 0

variable {k n : ℕ} {xs ys : List UInt8}

@[simp] theorem length_toBytes : (toBytes k n).length = k := by
  rw [toBytes, List.length_map, List.length_range]

theorem ofBytes_cons (x : UInt8) : ofBytes (x :: xs) = x.toNat + 256 * ofBytes xs := rfl

/-- **A number is read back** as far as the bytes reach. -/
theorem ofBytes_toBytes (k n : ℕ) : ofBytes (toBytes k n) = n % 256 ^ k := by
  induction k generalizing n with
  | zero => rw [Nat.pow_zero, Nat.mod_one, toBytes, List.range_zero, List.map_nil, ofBytes,
      List.foldr_nil]
  | succ k ih =>
    have hdiv : ∀ i, n / 256 ^ (i + 1) = n / 256 / 256 ^ i := fun i => by
      rw [Nat.div_div_eq_div_mul, Nat.pow_succ']
    have hcons : toBytes (k + 1) n = UInt8.ofNat n :: toBytes k (n / 256) := by
      rw [toBytes, List.range_succ_eq_map, List.map_cons, List.map_map, Nat.pow_zero, Nat.div_one]
      simp only [Function.comp_def, Nat.succ_eq_add_one, hdiv]
      rfl
    have hmod : n % (256 * 256 ^ k) = n % 256 + 256 * (n / 256 % 256 ^ k) := Nat.mod_mul
    rw [hcons, ofBytes_cons, ih, UInt8.toNat_ofNat', @Nat.pow_succ' 256 k, hmod]

theorem ofBytes_append : ofBytes (xs ++ ys) = ofBytes xs + 256 ^ xs.length * ofBytes ys := by
  induction xs with
  | nil => rw [List.nil_append, List.length_nil, Nat.pow_zero, Nat.one_mul, ofBytes, ofBytes,
      List.foldr_nil, Nat.zero_add]
  | cons x xs ih =>
    rw [List.cons_append, ofBytes_cons, ih, ofBytes_cons, List.length_cons, Nat.pow_succ',
      Nat.mul_add, Nat.mul_assoc, Nat.add_assoc]

theorem ofBytes_lt : ofBytes xs < 256 ^ xs.length := by
  induction xs with
  | nil => exact Nat.one_pos
  | cons x xs ih =>
    have hx : x.toNat < 256 := x.toNat_lt
    rw [ofBytes_cons, List.length_cons, Nat.pow_succ']
    omega

/-! ## Fields -/

section Fields

open Widths

variable {w off : ℕ} {i : ℤ} {is : List ℤ} {before after : List UInt8}

/-- The number is one of `w` bits and a sign. -/
def FitsIn (w : ℕ) (i : ℤ) : Prop := -2 ^ w ≤ i ∧ i < 2 ^ w

theorem fitsIn_natCast (h : n < 2 ^ w) : FitsIn w n := by
  have hcast : (n : ℤ) < 2 ^ w := by exact_mod_cast h
  have hpos : (0 : ℤ) ≤ 2 ^ w := Int.pow_nonneg (by decide)
  exact ⟨by omega, hcast⟩

theorem fitsIn_toInt (x : BitVec (w + 1)) : FitsIn w x.toInt :=
  ⟨BitVec.le_toInt x, BitVec.toInt_lt⟩

/-- The bytes of a signed number. -/
def intBytes (k : ℕ) (i : ℤ) : List UInt8 := toBytes k (unsigned (8 * k) i)

def intAt (k off : ℕ) (bytes : List UInt8) : Option ℤ :=
  if off + k ≤ bytes.length then some (signed (8 * k) (ofBytes ((bytes.drop off).take k)))
  else none

def intsAt (k : ℕ) (bytes : List UInt8) : ℕ → ℕ → Option (List ℤ)
  | _, 0 => some []
  | off, n + 1 => do
    let i ← intAt k off bytes
    let is ← intsAt k bytes (off + k) n
    return i :: is

@[simp] theorem length_intBytes : (intBytes k i).length = k := length_toBytes

/-- **A field is read back** if the number fits. -/
theorem intAt_append (hw : 8 * k = w + 1) (hi : FitsIn w i)
    (hoff : before.length = off) : intAt k off (before ++ (intBytes k i ++ after)) = some i := by
  have hlt : unsigned (8 * k) i < 256 ^ k := by
    have h := @unsigned_lt (8 * k) i
    rwa [Nat.pow_mul] at h
  have htake : ((before ++ (intBytes k i ++ after)).drop off).take k = intBytes k i := by
    rw [← hoff, List.drop_left]
    exact List.take_left' length_intBytes
  have hwithin : off + k ≤ (before ++ (intBytes k i ++ after)).length := by
    rw [List.length_append, List.length_append, length_intBytes, hoff]
    omega
  rw [intAt, if_pos hwithin, htake, intBytes, ofBytes_toBytes, Nat.mod_eq_of_lt hlt,
    signed_unsigned le_rfl, hw, signed_eq hi.1 hi.2]

theorem intsAt_append (hw : 8 * k = w + 1) (his : ∀ i ∈ is, FitsIn w i)
    (hoff : before.length = off) :
    intsAt k (before ++ is.flatMap (intBytes k)) off is.length = some is := by
  induction is generalizing before off with
  | nil => rfl
  | cons i is ih =>
    have hfirst := @intAt_append k w off i before (is.flatMap (intBytes k)) hw
      (his i List.mem_cons_self) hoff
    have hrest : intsAt k (before ++ intBytes k i ++ is.flatMap (intBytes k)) (off + k) is.length =
        some is :=
      ih (fun j hj => his j (List.mem_cons_of_mem i hj))
        (by rw [List.length_append, length_intBytes, hoff])
    rw [List.append_assoc] at hrest
    rw [List.length_cons, intsAt, List.flatMap_cons, hfirst, hrest]
    rfl

end Fields

end LittleEndian
