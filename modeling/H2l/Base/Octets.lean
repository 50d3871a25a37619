import Mathlib.Algebra.Group.Nat.Defs

/-!
# Big-endian octets

The number a byte string spells in big-endian order, and the fixed-width byte
string of a number. The two are inverse up to the reduction modulo the width.
-/

namespace Base

/-- An octet. -/
abbrev Byte := BitVec 8

/-- The number a byte string spells, most significant byte first. -/
def beNat : List Byte → Nat
  | [] => 0
  | byte :: rest => byte.toNat * 256 ^ rest.length + beNat rest

/-- The `count` low-order bytes of a number, most significant byte first. -/
def toBe : Nat → Nat → List Byte
  | 0, _ => []
  | count + 1, value => BitVec.ofNat 8 (value / 256 ^ count) :: toBe count value

/-- A number is written with the bytes it is given. -/
@[simp] theorem toBe_length (count value : Nat) : (toBe count value).length = count := by
  induction count with
  | zero => rfl
  | succ count ih => simp [toBe, ih]

/-- `n` bytes hold a number below `256 ^ n`. -/
theorem beNat_lt (bytes : List Byte) : beNat bytes < 256 ^ bytes.length := by
  induction bytes with
  | nil => simp [beNat]
  | cons byte rest ih =>
      have small : byte.toNat ≤ 255 := by have := byte.isLt; omega
      have scaled : byte.toNat * 256 ^ rest.length ≤ 255 * 256 ^ rest.length :=
        Nat.mul_le_mul_right _ small
      simp only [beNat, List.length_cons, Nat.pow_succ]
      omega

/-- Reading back a fixed-width encoding returns the number modulo the width. -/
theorem beNat_toBe (count value : Nat) : beNat (toBe count value) = value % 256 ^ count := by
  induction count with
  | zero => simp [toBe, beNat, Nat.mod_one]
  | succ count ih =>
      have split := @Nat.mod_mul (256 ^ count) 256 value
      simp only [toBe, beNat, toBe_length, ih, BitVec.toNat_ofNat, Nat.pow_succ, split]
      rw [Nat.mul_comm, Nat.add_comm]

/-- Only the low-order part of a number reaches its encoding. -/
theorem toBe_add_mul (count value high : Nat) :
    toBe count (high * 256 ^ count + value) = toBe count value := by
  induction count generalizing high value with
  | zero => rfl
  | succ count ih =>
      have regroup : high * 256 ^ (count + 1) + value = high * 256 * 256 ^ count + value := by
        rw [Nat.pow_succ, Nat.mul_comm (256 ^ count), ← Nat.mul_assoc]
      have quotient : (high * 256 * 256 ^ count + value) / 256 ^ count =
          value / 256 ^ count + 256 * high := by
        rw [Nat.add_comm, Nat.add_mul_div_right _ _ (Nat.pow_pos (by omega)), Nat.mul_comm high]
      simp only [toBe, regroup, quotient, ih]
      congr 1
      apply BitVec.eq_of_toNat_eq
      simp only [BitVec.toNat_ofNat]
      omega

/-- The first byte holds the highest digits. -/
theorem beNat_cons_div (byte : Byte) (rest : List Byte) :
    beNat (byte :: rest) / 256 ^ rest.length = byte.toNat := by
  rw [beNat, Nat.add_comm, Nat.add_mul_div_right _ _ (Nat.pow_pos (by omega)),
    Nat.div_eq_of_lt (beNat_lt rest), Nat.zero_add]

/-- The remaining bytes hold the lower digits. -/
theorem beNat_cons_mod (byte : Byte) (rest : List Byte) :
    beNat (byte :: rest) % 256 ^ rest.length = beNat rest := by
  rw [beNat, Nat.mul_add_mod', Nat.mod_eq_of_lt (beNat_lt rest)]

/-- Encoding the number a byte string spells returns the byte string. -/
theorem toBe_beNat (bytes : List Byte) : toBe bytes.length (beNat bytes) = bytes := by
  induction bytes with
  | nil => rfl
  | cons byte rest ih =>
      rw [List.length_cons, toBe, beNat_cons_div, beNat, toBe_add_mul, ih, BitVec.ofNat_toNat,
        BitVec.setWidth_eq]

/-- A byte string with the top bit of its first byte cleared. -/
def clearTop : List Byte → List Byte
  | [] => []
  | byte :: rest => (byte &&& 0x7f) :: rest

/-- Clearing the top bit changes no length. -/
@[simp] theorem clearTop_length (bytes : List Byte) :
    (clearTop bytes).length = bytes.length := by
  cases bytes <;> rfl

/-- The top bit is in the first of two parts. -/
theorem clearTop_append {first : List Byte} (nonempty : first ≠ []) (second : List Byte) :
    clearTop (first ++ second) = clearTop first ++ second := by
  obtain ⟨byte, rest, rfl⟩ := List.exists_cons_of_ne_nil nonempty
  rfl

/-- Clearing the top bit reduces the number modulo half the width. -/
theorem beNat_clearTop (byte : Byte) (rest : List Byte) :
    beNat (clearTop (byte :: rest)) = beNat (byte :: rest) % (256 ^ rest.length * 2 ^ 7) := by
  have low : (byte &&& 0x7f).toNat = byte.toNat % 2 ^ 7 := by
    rw [BitVec.toNat_and]
    exact Nat.and_two_pow_sub_one_eq_mod byte.toNat 7
  rw [Nat.mod_mul, beNat_cons_div, beNat_cons_mod, clearTop, beNat, low, Nat.mul_comm, Nat.add_comm]

/-- The 32-bit word of its big-endian bytes. -/
def be32 (bytes : List Byte) : BitVec 32 := BitVec.ofNat 32 (beNat bytes)

/-- The four big-endian bytes of a 32-bit word. -/
def put32 (word : BitVec 32) : List Byte := toBe 4 word.toNat

@[simp] theorem put32_length (word : BitVec 32) : (put32 word).length = 4 := toBe_length 4 _

/-- A word is read back as it was written. -/
@[simp] theorem be32_put32 (word : BitVec 32) : be32 (put32 word) = word := by
  apply BitVec.eq_of_toNat_eq
  have bounded := word.isLt
  simp only [be32, put32, beNat_toBe, BitVec.toNat_ofNat]
  omega

/-- The word that four bytes hold is the number they hold. -/
theorem be32_toNat {bytes : List Byte} (four : bytes.length = 4) :
    (be32 bytes).toNat = beNat bytes := by
  have bounded := beNat_lt bytes
  rw [four] at bounded
  simp only [be32, BitVec.toNat_ofNat]
  omega

/-- Four bytes are written back as they were read. -/
@[simp] theorem put32_be32 {bytes : List Byte} (four : bytes.length = 4) :
    put32 (be32 bytes) = bytes := by
  rw [put32, be32_toNat four, ← four, toBe_beNat]

/-- Four bytes assembled by shifts and disjunctions spell their big-endian number. -/
theorem shifted_octets (a b c d : Byte) :
    (a.setWidth 32 <<< 24 ||| b.setWidth 32 <<< 16 ||| c.setWidth 32 <<< 8 |||
      d.setWidth 32 <<< 0) = be32 [a, b, c, d] := by
  have ha := a.isLt
  have hb := b.isLt
  have hc := c.isLt
  have hd := d.isLt
  have first : a.toNat <<< 24 ||| b.toNat <<< 16 = (a.toNat * 256 + b.toNat) <<< 16 := by
    rw [← Nat.shiftLeft_add_eq_or_of_lt (by rw [Nat.shiftLeft_eq]; omega)]
    simp only [Nat.shiftLeft_eq]; omega
  have second : (a.toNat * 256 + b.toNat) <<< 16 ||| c.toNat <<< 8 =
      ((a.toNat * 256 + b.toNat) * 256 + c.toNat) <<< 8 := by
    rw [← Nat.shiftLeft_add_eq_or_of_lt (by rw [Nat.shiftLeft_eq]; omega)]
    simp only [Nat.shiftLeft_eq]; omega
  have third : ((a.toNat * 256 + b.toNat) * 256 + c.toNat) <<< 8 ||| d.toNat =
      ((a.toNat * 256 + b.toNat) * 256 + c.toNat) * 256 + d.toNat := by
    rw [← Nat.shiftLeft_add_eq_or_of_lt (by omega)]
    simp only [Nat.shiftLeft_eq]
  apply BitVec.eq_of_toNat_eq
  rw [be32_toNat rfl]
  simp only [BitVec.toNat_or, BitVec.toNat_shiftLeft, BitVec.toNat_setWidth, beNat,
    List.length_cons, List.length_nil]
  rw [Nat.mod_eq_of_lt (show a.toNat < 2 ^ 32 by omega),
    Nat.mod_eq_of_lt (show b.toNat < 2 ^ 32 by omega),
    Nat.mod_eq_of_lt (show c.toNat < 2 ^ 32 by omega),
    Nat.mod_eq_of_lt (show d.toNat < 2 ^ 32 by omega)]
  simp only [Nat.shiftLeft_zero]
  rw [Nat.mod_eq_of_lt (show a.toNat <<< 24 < 2 ^ 32 by rw [Nat.shiftLeft_eq]; omega),
    Nat.mod_eq_of_lt (show b.toNat <<< 16 < 2 ^ 32 by rw [Nat.shiftLeft_eq]; omega),
    Nat.mod_eq_of_lt (show c.toNat <<< 8 < 2 ^ 32 by rw [Nat.shiftLeft_eq]; omega),
    Nat.mod_eq_of_lt (show d.toNat < 2 ^ 32 by omega), first, second, third]
  omega

end Base
