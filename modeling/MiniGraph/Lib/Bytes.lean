import Mathlib.Algebra.Group.Nat.Defs
import Mathlib.Data.List.Induction
import Mathlib.Tactic.Common

/-!
# Integers and strings as bytes

Big-endian integers of a fixed width and UTF-8 strings, both as lists of bytes, with the two round
trips of each.
-/

namespace Lib

namespace BigEndian

/-- The number spelled by `bs`, most significant byte first. -/
def ofBytes (bs : List UInt8) : Nat := bs.foldl (fun acc b => acc * 256 + b.toNat) 0

/-- The `n` low bytes of `x`, most significant byte first. -/
def toBytes : Nat → Nat → List UInt8
  | 0, _ => []
  | n + 1, x => toBytes n (x / 256) ++ [UInt8.ofNat x]

@[simp] theorem ofBytes_nil : ofBytes [] = 0 := rfl

@[simp] theorem ofBytes_concat (bs : List UInt8) (b : UInt8) :
    ofBytes (bs ++ [b]) = ofBytes bs * 256 + b.toNat := by
  simp [ofBytes]

@[simp] theorem length_toBytes (n x : Nat) : (toBytes n x).length = n := by
  induction n generalizing x with
  | zero => rfl
  | succ n ih => simp [toBytes, ih]

theorem ofBytes_toBytes (n x : Nat) : ofBytes (toBytes n x) = x % 256 ^ n := by
  induction n generalizing x with
  | zero => simp [toBytes, Nat.mod_one]
  | succ n ih =>
    have hb : (UInt8.ofNat x).toNat = x % 256 := UInt8.toNat_ofNat'
    have hm : x % 256 ^ (n + 1) = x % 256 + 256 * (x / 256 % 256 ^ n) := by
      rw [Nat.pow_succ', Nat.mod_mul]
    rw [toBytes, ofBytes_concat, ih, hb, hm]
    omega

theorem toBytes_ofBytes (bs : List UInt8) : toBytes bs.length (ofBytes bs) = bs := by
  induction bs using List.reverseRec with
  | nil => rfl
  | append_singleton bs b ih =>
    have hb := b.toNat_lt
    rw [List.length_append, List.length_singleton, toBytes, ofBytes_concat]
    have hq : (ofBytes bs * 256 + b.toNat) / 256 = ofBytes bs := by omega
    have hr : UInt8.ofNat (ofBytes bs * 256 + b.toNat) = b := by
      apply UInt8.toNat_inj.1
      rw [UInt8.toNat_ofNat']
      omega
    rw [hq, ih, hr]

theorem ofBytes_lt (bs : List UInt8) : ofBytes bs < 256 ^ bs.length := by
  rw [← toBytes_ofBytes bs, ofBytes_toBytes, length_toBytes]
  exact Nat.mod_lt _ (Nat.pow_pos (by omega))

end BigEndian

namespace Utf8

/-- The bytes of a string. -/
def encode (s : String) : List UInt8 := s.toByteArray.data.toList

/-- The string spelled by `bs`, if they are valid UTF-8. -/
def decode? (bs : List UInt8) : Option String := String.fromUTF8? ⟨bs.toArray⟩

theorem decode?_eq_some {bs : List UInt8} {s : String} : decode? bs = some s ↔ encode s = bs := by
  unfold decode? String.fromUTF8? encode
  constructor
  · intro h
    split at h
    · rw [← Option.some.inj h]; rfl
    · cases h
  · rintro rfl
    have he : (⟨s.toByteArray.data.toList.toArray⟩ : ByteArray) = s.toByteArray := rfl
    rw [dif_pos (he ▸ s.isValidUTF8)]
    rfl

end Utf8
end Lib
