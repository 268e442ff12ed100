import Mathlib.Data.Nat.Digits.Defs
import Mathlib.Tactic.Common

/-!
# Numbers in memory

A machine keeps a number of `n` bytes as its digits to base 256, the least
significant one first or last. `represent` and `load` are the two directions for
either order, inverse to each other, and `byteSwap` is the number the other kind of
machine would read off the same bytes. Which order a machine has is a parameter:
a text to be exchanged is big-endian on both (`represent_toBig`, `ofBig_load`).
-/

namespace ClyServer.Lib

/-- Where the least significant byte stands: first, or last. -/
inductive ByteOrder where
  | little | big
  deriving DecidableEq, Repr

/-! ## Digits -/

/-- The lowest `n` digits of a number to base 256, least significant first. -/
def lowDigits (n x : Nat) : List UInt8 := (List.range n).map fun i => UInt8.ofNat (x / 256 ^ i)

/-- The number with these digits. -/
def valueOf (digits : List UInt8) : Nat := Nat.ofDigits 256 (digits.map UInt8.toNat)

@[simp] theorem length_lowDigits (n x : Nat) : (lowDigits n x).length = n := by
  rw [lowDigits, List.length_map, List.length_range]

theorem lowDigits_succ (n x : Nat) :
    lowDigits (n + 1) x = UInt8.ofNat x :: lowDigits n (x / 256) := by
  unfold lowDigits
  rw [List.range_succ_eq_map, List.map_cons, List.map_map, Nat.pow_zero, Nat.div_one]
  congr 1
  apply List.map_congr_left
  intro i _
  rw [Function.comp_apply, Nat.succ_eq_add_one, Nat.pow_add_one', Nat.div_div_eq_div_mul]

theorem lt_of_mem_digits {digits : List UInt8} {d : Nat} (h : d ∈ digits.map UInt8.toNat) :
    d < 256 := by
  obtain ⟨byte, _, rfl⟩ := List.mem_map.mp h
  exact byte.toNat_lt

theorem valueOf_lt (digits : List UInt8) : valueOf digits < 256 ^ digits.length := by
  have hlt := Nat.ofDigits_lt_base_pow_length (b := 256) (by decide)
    (fun d (hd : d ∈ digits.map UInt8.toNat) => lt_of_mem_digits hd)
  rwa [List.length_map] at hlt

/-- A number that has no more digits is its low digits. -/
theorem valueOf_lowDigits {n x : Nat} (h : x < 256 ^ n) : valueOf (lowDigits n x) = x := by
  induction n generalizing x with
  | zero =>
    rw [Nat.pow_zero, Nat.lt_one_iff] at h
    rw [h]
    rfl
  | succ n ih =>
    have hrest : x / 256 < 256 ^ n := by
      rw [Nat.pow_add_one'] at h
      exact Nat.div_lt_of_lt_mul h
    have hvalue := ih hrest
    unfold valueOf at hvalue ⊢
    rw [lowDigits_succ, List.map_cons, Nat.ofDigits_cons, hvalue, UInt8.toNat_ofNat']
    omega

/-- Digits are the low digits of their number. -/
theorem lowDigits_valueOf (digits : List UInt8) :
    lowDigits digits.length (valueOf digits) = digits := by
  have hvalue := valueOf_lowDigits (valueOf_lt digits)
  have hmap := Nat.ofDigits_inj_of_len_eq (b := 256) (by decide)
    (by rw [List.length_map, List.length_map, length_lowDigits])
    (fun d hd => lt_of_mem_digits hd) (fun d hd => lt_of_mem_digits hd) hvalue
  exact (List.map_inj_right fun _ _ => UInt8.toNat.inj).mp hmap

/-! ## Memory -/

variable {n : Nat}

/-- The bytes in memory of a number of `n` bytes. -/
def represent (order : ByteOrder) (x : BitVec (8 * n)) : List UInt8 :=
  match order with
  | .little => lowDigits n x.toNat
  | .big => (lowDigits n x.toNat).reverse

/-- The number that `n` bytes in memory are. -/
def load (order : ByteOrder) (n : Nat) (bytes : List UInt8) : BitVec (8 * n) :=
  match order with
  | .little => BitVec.ofNat (8 * n) (valueOf bytes)
  | .big => BitVec.ofNat (8 * n) (valueOf bytes.reverse)

@[simp] theorem length_represent (order : ByteOrder) (x : BitVec (8 * n)) :
    (represent order x).length = n := by
  cases order <;> simp [represent]

theorem pow_bytes (n : Nat) : 2 ^ (8 * n) = 256 ^ n := by
  rw [Nat.pow_mul]

theorem ofNat_valueOf_lowDigits (x : BitVec (8 * n)) :
    BitVec.ofNat (8 * n) (valueOf (lowDigits n x.toNat)) = x := by
  have hlt := x.isLt
  rw [pow_bytes] at hlt
  rw [valueOf_lowDigits hlt, BitVec.ofNat_toNat, BitVec.setWidth_eq]

theorem load_represent (order : ByteOrder) (x : BitVec (8 * n)) :
    load order n (represent order x) = x := by
  cases order with
  | little => exact ofNat_valueOf_lowDigits x
  | big =>
    unfold load represent
    rw [List.reverse_reverse]
    exact ofNat_valueOf_lowDigits x

theorem lowDigits_ofNat_valueOf {bytes : List UInt8} (h : bytes.length = n) :
    lowDigits n (BitVec.ofNat (8 * n) (valueOf bytes)).toNat = bytes := by
  have hlt := valueOf_lt bytes
  rw [h, ← pow_bytes] at hlt
  rw [BitVec.toNat_ofNat, Nat.mod_eq_of_lt hlt]
  subst h
  exact lowDigits_valueOf bytes

theorem represent_load (order : ByteOrder) {bytes : List UInt8} (h : bytes.length = n) :
    represent order (load order n bytes) = bytes := by
  cases order with
  | little => exact lowDigits_ofNat_valueOf h
  | big =>
    have hreverse : bytes.reverse.length = n := by rw [List.length_reverse, h]
    unfold load represent
    rw [lowDigits_ofNat_valueOf hreverse, List.reverse_reverse]

/-! ## Exchange -/

/-- The number with its bytes the other way round. -/
def byteSwap (x : BitVec (8 * n)) : BitVec (8 * n) := load .little n (represent .big x)

theorem represent_byteSwap (x : BitVec (8 * n)) :
    represent .little (byteSwap x) = represent .big x :=
  represent_load .little (length_represent .big x)

theorem represent_big (x : BitVec (8 * n)) :
    represent .big x = (represent .little x).reverse := rfl

theorem byteSwap_byteSwap (x : BitVec (8 * n)) : byteSwap (byteSwap x) = x := by
  unfold byteSwap
  rw [represent_big, represent_load .little (length_represent .big x), represent_big,
    List.reverse_reverse, load_represent]

/-- The number whose bytes in memory are the big-endian bytes of `x`. -/
def toBig (order : ByteOrder) (x : BitVec (8 * n)) : BitVec (8 * n) :=
  match order with
  | .little => byteSwap x
  | .big => x

/-- The number that bytes in memory, read as big-endian bytes, are. -/
def ofBig (order : ByteOrder) (x : BitVec (8 * n)) : BitVec (8 * n) :=
  match order with
  | .little => byteSwap x
  | .big => x

theorem represent_toBig (order : ByteOrder) (x : BitVec (8 * n)) :
    represent order (toBig order x) = represent .big x := by
  cases order with
  | little => exact represent_byteSwap x
  | big => rfl

theorem ofBig_load (order : ByteOrder) (x : BitVec (8 * n)) :
    ofBig order (load order n (represent .big x)) = x := by
  cases order with
  | little => exact byteSwap_byteSwap x
  | big => exact load_represent .big x

end ClyServer.Lib
