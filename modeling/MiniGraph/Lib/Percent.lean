import MiniGraph.Lib.Bytes
import MiniGraph.Lib.Lists

/-!
# Percent-encoding

The percent-encoding of RFC 3986: the unreserved characters stand for themselves, and of every other
character each byte is written as `%` and two hexadecimal digits. Decoding undoes it
(`decode?_encode`), and it changes every string but the unreserved ones (`encode_eq_self_iff`).
-/

namespace Lib.Percent

/-- The characters that are never escaped. -/
def Unreserved (c : Char) : Prop := c.isAlphanum = true ∨ c ∈ ['-', '.', '_', '~']

instance (c : Char) : Decidable (Unreserved c) := inferInstanceAs (Decidable (_ ∨ _))

/-! ### Encoding -/

def hexDigit (n : Nat) : Char := Char.ofNat (if n < 10 then 48 + n else 55 + n)

def escape (b : UInt8) : List Char := ['%', hexDigit (b.toNat / 16), hexDigit (b.toNat % 16)]

def encodeChar (c : Char) : List Char :=
  if Unreserved c then [c] else (String.utf8EncodeChar c).flatMap escape

def encode (s : String) : String := String.ofList (s.toList.flatMap encodeChar)

/-! ### Decoding -/

def hexValue? (c : Char) : Option Nat :=
  if 48 ≤ c.toNat ∧ c.toNat ≤ 57 then some (c.toNat - 48)
  else if 65 ≤ c.toNat ∧ c.toNat ≤ 70 then some (c.toNat - 55)
  else if 97 ≤ c.toNat ∧ c.toNat ≤ 102 then some (c.toNat - 87)
  else none

/-- A `%` without two digits behind it stands for itself. -/
def decodeBytes : List Char → List UInt8
  | [] => []
  | '%' :: high :: low :: cs =>
    match hexValue? high, hexValue? low with
    | some h, some l => UInt8.ofNat (h * 16 + l) :: decodeBytes cs
    | _, _ => String.utf8EncodeChar '%' ++ decodeBytes (high :: low :: cs)
  | c :: cs => String.utf8EncodeChar c ++ decodeBytes cs

/-- The decoded string, if it is valid UTF-8. -/
def decode? (s : String) : Option String := Utf8.decode? (decodeBytes s.toList)

/-! ### What encoding changes -/

variable {c : Char} {cs : List Char} {s : String}

theorem encodeChar_of_unreserved (h : Unreserved c) : encodeChar c = [c] := if_pos h

theorem two_lt_length_encodeChar (h : ¬ Unreserved c) : 2 < (encodeChar c).length := by
  have hescape : ∀ bs : List UInt8, (bs.flatMap escape).length = 3 * bs.length := by
    intro bs
    induction bs with
    | nil => rfl
    | cons b bs ih =>
      rw [List.flatMap_cons, List.length_append, ih, List.length_cons]
      show 3 + _ = _
      omega
  have hsize := c.utf8Size_pos
  rw [encodeChar, if_neg h, hescape, String.length_utf8EncodeChar]
  omega

theorem length_encodeChar_pos (c : Char) : 0 < (encodeChar c).length := by
  by_cases hc : Unreserved c
  · rw [encodeChar_of_unreserved hc]
    exact Nat.zero_lt_one
  · exact (Nat.zero_lt_succ _).trans (two_lt_length_encodeChar hc)

theorem flatMap_eq_self_iff : cs.flatMap encodeChar = cs ↔ ∀ c ∈ cs, Unreserved c := by
  induction cs with
  | nil => simp
  | cons c cs ih =>
    rw [List.flatMap_cons, List.forall_mem_cons, ← ih]
    by_cases hc : Unreserved c
    · rw [encodeChar_of_unreserved hc, List.singleton_append, List.cons_inj_right]
      exact ⟨fun h => ⟨hc, h⟩, fun h => h.2⟩
    · refine iff_of_false (fun h => ?_) fun h => hc h.1
      have hlength := congrArg List.length h
      have hgrows := two_lt_length_encodeChar hc
      have hrest := length_le_flatMap length_encodeChar_pos cs
      rw [List.length_append, List.length_cons] at hlength
      omega

/-- **Encoding changes nothing** exactly where there is nothing to escape. -/
theorem encode_eq_self_iff : encode s = s ↔ ∀ c ∈ s.toList, Unreserved c := by
  rw [← flatMap_eq_self_iff, ← String.toList_inj, encode, String.toList_ofList]

theorem encode_eq_empty_iff : encode s = "" ↔ s = "" := by
  constructor
  · intro h
    have hlength := length_le_flatMap length_encodeChar_pos s.toList
    have hnil : s.toList.flatMap encodeChar = [] := by
      rw [← String.toList_ofList (l := s.toList.flatMap encodeChar), ← encode, h]
      rfl
    rw [hnil] at hlength
    exact String.toList_eq_nil_iff.1 (List.length_eq_zero_iff.1 (Nat.le_zero.1 hlength))
  · rintro rfl
    rfl

/-! ### Decoding undoes encoding -/

theorem hexValue?_hexDigit : ∀ n < 16, hexValue? (hexDigit n) = some n := by decide

theorem decodeBytes_escape (b : UInt8) (cs : List Char) :
    decodeBytes (escape b ++ cs) = b :: decodeBytes cs := by
  have hb := b.toNat_lt
  have hhigh := hexValue?_hexDigit (b.toNat / 16) (by omega)
  have hlow := hexValue?_hexDigit (b.toNat % 16) (by omega)
  have hsum : b.toNat / 16 * 16 + b.toNat % 16 = b.toNat := by omega
  show decodeBytes ('%' :: hexDigit (b.toNat / 16) :: hexDigit (b.toNat % 16) :: cs) = _
  rw [decodeBytes, hhigh, hlow]
  simp only [hsum, UInt8.ofNat_toNat]

theorem decodeBytes_escapes (bs : List UInt8) (cs : List Char) :
    decodeBytes (bs.flatMap escape ++ cs) = bs ++ decodeBytes cs := by
  induction bs with
  | nil => rfl
  | cons b bs ih => rw [List.flatMap_cons, List.append_assoc, decodeBytes_escape, ih, List.cons_append]

theorem decodeBytes_cons_of_ne (h : c ≠ '%') (cs : List Char) :
    decodeBytes (c :: cs) = String.utf8EncodeChar c ++ decodeBytes cs := by
  rw [decodeBytes]
  intro high low cs' hc
  exact absurd hc h

theorem decodeBytes_flatMap (cs : List Char) :
    decodeBytes (cs.flatMap encodeChar) = cs.flatMap String.utf8EncodeChar := by
  have hpercent : ¬ Unreserved '%' := by decide
  induction cs with
  | nil => rfl
  | cons c cs ih =>
    rw [List.flatMap_cons, List.flatMap_cons]
    by_cases hc : Unreserved c
    · have hne : c ≠ '%' := fun h => hpercent (h ▸ hc)
      rw [encodeChar_of_unreserved hc, List.singleton_append, decodeBytes_cons_of_ne hne, ih]
    · rw [encodeChar, if_neg hc, decodeBytes_escapes, ih]

/-- **Decoding undoes encoding**, for every string. -/
theorem decode?_encode (s : String) : decode? (encode s) = some s := by
  have hbytes : Utf8.encode s = s.toList.flatMap String.utf8EncodeChar := by
    unfold Utf8.encode
    rw [← String.utf8Encode_toList]
    simp [List.utf8Encode]
  unfold decode?
  rw [Utf8.decode?_eq_some, encode, String.toList_ofList, decodeBytes_flatMap, hbytes]

end Lib.Percent
