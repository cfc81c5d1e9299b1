import Mathlib.Data.List.Basic

/-!
# Bytes in hexadecimal

* `hex`, `unhex` : bytes written as pairs of digits, and the bytes a text begins with
* **`unhex_hex`** : what was written is read back
* `hex_forall` : what holds of the sixteen digits holds of every character written
-/

set_option autoImplicit false

namespace Text

/-- The two digits of a byte, high half first. -/
def hexByte (b : UInt8) : List Char := [(b.toNat / 16).digitChar, (b.toNat % 16).digitChar]

/-- The bytes as pairs of digits. -/
def hex (bytes : List UInt8) : List Char := bytes.flatMap hexByte

/-- The value of a hexadecimal digit. -/
def hexValue (c : Char) : Option Nat :=
  if '0' ≤ c ∧ c ≤ '9' then some (c.toNat - '0'.toNat)
  else if 'a' ≤ c ∧ c ≤ 'f' then some (c.toNat - 'a'.toNat + 10)
  else if 'A' ≤ c ∧ c ≤ 'F' then some (c.toNat - 'A'.toNat + 10)
  else none

/-- The bytes of a text, up to the first pair that is not hexadecimal, as `Buffer.from(text, 'hex')`. -/
def unhex : List Char → List UInt8
  | a :: b :: text =>
      match hexValue a, hexValue b with
      | some high, some low => UInt8.ofNat (16 * high + low) :: unhex text
      | _, _ => []
  | _ => []

/-- Each of the sixteen digits has its value. -/
theorem hexValue_digitChar : ∀ d < 16, hexValue d.digitChar = some d := by decide

theorem unhex_hexByte (b : UInt8) (text : List Char) :
    unhex (hexByte b ++ text) = b :: unhex text := by
  have hlt : b.toNat < 256 := b.toNat_lt
  have hhigh : b.toNat / 16 < 16 := by omega
  have hlow : b.toNat % 16 < 16 := by omega
  have hbyte : 16 * (b.toNat / 16) + b.toNat % 16 = b.toNat := by omega
  simp only [hexByte, List.cons_append, List.nil_append, unhex, hexValue_digitChar _ hhigh,
    hexValue_digitChar _ hlow]
  rw [hbyte, UInt8.ofNat_toNat]

/-- **What was written is read back.** -/
theorem unhex_hex (bytes : List UInt8) : unhex (hex bytes) = bytes := by
  induction bytes with
  | nil => rfl
  | cons b bytes ih =>
      rw [hex, List.flatMap_cons, unhex_hexByte]
      exact congrArg (b :: ·) ih

theorem hex_forall {p : Char → Prop} (h : ∀ d < 16, p d.digitChar) (bytes : List UInt8) :
    ∀ c ∈ hex bytes, p c := by
  intro c hc
  obtain ⟨b, -, hc⟩ := List.mem_flatMap.mp hc
  have hlt : b.toNat < 256 := b.toNat_lt
  simp only [hexByte, List.mem_cons, List.not_mem_nil, or_false] at hc
  rcases hc with rfl | rfl
  · exact h _ (by omega)
  · exact h _ (by omega)

end Text
