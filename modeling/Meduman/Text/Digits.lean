import Mathlib.Data.List.Basic

/-!
# Numbers in digits

* `mem_toDigits` : the characters of a number are digits
* `toDigits_forall` : what holds of every digit holds of every character of a number
-/

set_option autoImplicit false

namespace Text

theorem mem_toDigits {b n : Nat} {c : Char} (hb : 1 < b) (h : c ∈ Nat.toDigits b n) :
    ∃ d < b, c = d.digitChar := by
  induction n using Nat.strongRecOn with
  | ind n ih =>
      rcases Nat.lt_or_ge n b with hn | hn
      · rw [Nat.toDigits_of_lt_base hn, List.mem_singleton] at h
        exact ⟨n, hn, h⟩
      · rw [Nat.toDigits_of_base_le hb hn] at h
        rcases List.mem_append.mp h with h | h
        · exact ih _ (Nat.div_lt_self (by omega) hb) h
        · exact ⟨n % b, Nat.mod_lt _ (by omega), List.mem_singleton.mp h⟩

theorem toDigits_forall {b : Nat} {p : Char → Prop} (hb : 1 < b) (h : ∀ d < b, p d.digitChar)
    (n : Nat) : ∀ c ∈ Nat.toDigits b n, p c := by
  intro c hc
  obtain ⟨d, hd, rfl⟩ := mem_toDigits hb hc
  exact h d hd

end Text
