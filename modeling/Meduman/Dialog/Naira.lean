import Mathlib.Data.List.TakeWhile
import Mathlib.Data.Rat.Floor
import Mathlib.Tactic.FieldSimp
import Mathlib.Tactic.Linarith
import Mathlib.Tactic.NormNum
import Mathlib.Tactic.Ring
import Meduman.Model.Dialog
import Meduman.Num.Double
import Meduman.Text.Digits

/-!
# Naira texts and kobo

* `cleaned`, `Naira` : the characters that are read, and the amounts they spell
* **`spelled_iff`** : what is read, and as what
* `isFinite_bound` : which amounts are too large
* **`naira_kobo`** : a formatted amount is read back, and nothing but an amount is accepted
* `naira_infinite` : an amount that is not accepted
-/

set_option autoImplicit false

namespace Meduman.Dialog

open Linking (isSpace)

/-! ## Amounts -/

/-- A character that is read: no naira sign, comma or white space. -/
def isRead (c : Char) : Bool := c != '₦' && c != ',' && !isSpace c

def cleaned (text : String) : List Char := text.toList.filter isRead

def Digits (l : List Char) : Prop := l ≠ [] ∧ ∀ c ∈ l, c.isDigit = true

/-- The number that digits stand for. -/
def decimal (digits : List Char) : ℚ := (Nat.ofDigitChars 10 digits 0 : Nat)

/-- A text of digits with an optional fraction of one or two, and its value. -/
inductive Naira : List Char → ℚ → Prop
  | whole {naira : List Char} : Digits naira → Naira naira (decimal naira)
  | fraction {naira kobo : List Char} : Digits naira → Digits kobo → kobo.length ≤ 2 →
      Naira (naira ++ '.' :: kobo) (decimal naira + decimal kobo / 10 ^ kobo.length)

/-! ## Reading -/

variable {text : String} {naira kobo : List Char} {c : Char} {n : Nat} {v : ℚ}

theorem digit_ne_point (h : c.isDigit = true) : c ≠ '.' := by
  rintro rfl
  exact absurd h (by decide)

theorem not_point (h : Digits naira) : ∀ c ∈ naira, (c != '.') = true :=
  fun c hc => bne_iff_ne.mpr (digit_ne_point (h.2 c hc))

/-- The fraction, filled to two digits. -/
theorem ofDigits_fraction (hlen : kobo.length ≤ 2) :
    (Nat.ofDigitChars 10 (naira ++ kobo ++ List.replicate (2 - kobo.length) '0') 0 : ℚ) =
      (decimal naira + decimal kobo / 10 ^ kobo.length) * 100 := by
  have hpow : (10 : ℚ) ^ (2 - kobo.length) * 10 ^ kobo.length = 100 := by
    rw [← pow_add, Nat.sub_add_cancel hlen]
    norm_num
  have hne : (10 : ℚ) ^ kobo.length ≠ 0 := by positivity
  rw [Nat.ofDigitChars_append, Nat.ofDigitChars_append, Nat.ofDigitChars_replicate_zero,
    Nat.ofDigitChars_eq_ofDigitChars_zero (l := kobo)]
  unfold decimal
  push_cast
  rw [← hpow]
  field_simp

/-- What is read, from the part before the point and the rest. -/
def readParts (naira rest : List Char) : Option Nat :=
  if naira.isEmpty || !naira.all Char.isDigit then none
  else match rest with
    | [] => some (Nat.ofDigitChars 10 naira 0 * 100)
    | _ :: kobo =>
        if (kobo.length == 1 || kobo.length == 2) && kobo.all Char.isDigit then
          some (Nat.ofDigitChars 10 (naira ++ kobo ++ List.replicate (2 - kobo.length) '0') 0)
        else none

theorem spelled_eq : spelled text =
    readParts ((cleaned text).takeWhile (· != '.')) ((cleaned text).dropWhile (· != '.')) := rfl

theorem digits_iff {l : List Char} :
    (l.isEmpty || !l.all Char.isDigit) = false ↔ Digits l := by
  simp [Digits]

theorem digits_fraction_iff : ((kobo.length == 1 || kobo.length == 2) && kobo.all Char.isDigit) =
    true ↔ Digits kobo ∧ kobo.length ≤ 2 := by
  simp only [Bool.and_eq_true, Bool.or_eq_true, beq_iff_eq, List.all_eq_true, Digits,
    ← List.length_pos_iff]
  constructor
  · rintro ⟨hlen, hall⟩
    exact ⟨⟨by omega, hall⟩, by omega⟩
  · rintro ⟨⟨hpos, hall⟩, hlen⟩
    exact ⟨by omega, hall⟩

/-- What is read is an amount. -/
theorem spelled_naira (h : spelled text = some n) :
    ∃ v, Naira (cleaned text) v ∧ (n : ℚ) = v * 100 := by
  have hparts := List.takeWhile_append_dropWhile (p := (· != '.')) (l := cleaned text)
  rw [spelled_eq] at h
  generalize (cleaned text).takeWhile (· != '.') = naira at h hparts
  unfold readParts at h
  split at h
  · cases h
  · rename_i hnaira
    have hdigits := digits_iff.mp (Bool.not_eq_true _ ▸ hnaira)
    cases hdrop : (cleaned text).dropWhile (· != '.') with
    | nil =>
        rw [hdrop] at h hparts
        rw [← hparts, List.append_nil]
        refine ⟨_, .whole hdigits, ?_⟩
        rw [← Option.some.inj h, decimal]
        push_cast
        rfl
    | cons c kobo =>
        have hpoint : c = '.' := by
          have hhead := List.head_dropWhile_not (· != '.')
            (show (cleaned text).dropWhile (· != '.') ≠ [] from hdrop ▸ List.cons_ne_nil c kobo)
          simpa [hdrop] using hhead
        rw [hdrop] at h hparts
        simp only at h
        split at h
        · rename_i hkobo
          obtain ⟨hkobo, hlen⟩ := digits_fraction_iff.mp hkobo
          rw [← hparts, hpoint]
          refine ⟨_, .fraction hdigits hkobo hlen, ?_⟩
          rw [← Option.some.inj h, ← ofDigits_fraction hlen]
        · cases h

/-- An amount is read. -/
theorem naira_spelled (h : Naira (cleaned text) v) :
    ∃ n, spelled text = some n ∧ (n : ℚ) = v * 100 := by
  rw [spelled_eq]
  generalize cleaned text = l at h
  cases h with
  | whole hdigits =>
      have htake : l.takeWhile (· != '.') = l := List.takeWhile_eq_self_iff.mpr (not_point hdigits)
      have hdrop : l.dropWhile (· != '.') = [] := List.dropWhile_eq_nil_iff.mpr (not_point hdigits)
      rw [htake, hdrop, readParts, digits_iff.mpr hdigits]
      refine ⟨_, rfl, ?_⟩
      rw [decimal]
      push_cast
      rfl
  | @fraction naira kobo hdigits hkobo hlen =>
      have htake : (naira ++ '.' :: kobo).takeWhile (· != '.') = naira := by
        rw [List.takeWhile_append_of_pos (not_point hdigits)]
        simp
      have hdrop : (naira ++ '.' :: kobo).dropWhile (· != '.') = '.' :: kobo := by
        rw [List.dropWhile_append_of_pos (not_point hdigits)]
        simp
      rw [htake, hdrop, readParts, digits_iff.mpr hdigits]
      simp only [digits_fraction_iff.mpr ⟨hkobo, hlen⟩, if_true, Bool.false_eq_true, if_false]
      exact ⟨_, rfl, ofDigits_fraction hlen⟩

/-- **What is read** is the amounts, a hundred times their value. -/
theorem spelled_iff : spelled text = some n ↔ ∃ v, Naira (cleaned text) v ∧ (n : ℚ) = v * 100 := by
  constructor
  · exact spelled_naira
  · rintro ⟨v, hv, hn⟩
    obtain ⟨m, hm, hvalue⟩ := naira_spelled hv
    rw [hm, Nat.cast_injective (hvalue.trans hn.symm)]

/-- Finite are the amounts whose nearest double is. -/
theorem isFinite_bound (n : Nat) : isFinite n = true ↔ (n / 100 : ℚ) < Double.finiteBound := by
  have hle : (2 ^ 97) ^ 10 ≤ (2 ^ 128) ^ 8 := by decide
  have htop : (2 : ℚ) ^ 1024 = ((2 ^ 128) ^ 8 : Nat) := by
    rw [Nat.cast_pow, Nat.cast_pow, Nat.cast_ofNat, ← pow_mul]
  have hhalf : (2 : ℚ) ^ 970 = ((2 ^ 97) ^ 10 : Nat) := by
    rw [Nat.cast_pow, Nat.cast_pow, Nat.cast_ofNat, ← pow_mul]
  have hbound : Double.finiteBound = (((2 ^ 128) ^ 8 - (2 ^ 97) ^ 10 : Nat) : ℚ) := by
    rw [Nat.cast_sub hle, ← htop, ← hhalf, Double.finiteBound]
  rw [isFinite, decide_eq_true_iff, hbound, div_lt_iff₀ (by norm_num), mul_comm 100]
  generalize (2 ^ 128) ^ 8 - (2 ^ 97) ^ 10 = bound
  exact_mod_cast Iff.rfl

/-- It is finite as a double. -/
theorem isFinite_double (n : Nat) : Double.isFinite (n / 100) = isFinite n := by
  rw [Bool.eq_iff_iff, isFinite_bound, Double.isFinite_iff (by positivity)]

theorem parse_spelled {k : Int} : parseNairaToKobo text = some k ↔
    ∃ n, spelled text = some n ∧ isFinite n = true ∧ k = n := by
  unfold parseNairaToKobo
  cases spelled text with
  | none => simp
  | some n =>
      dsimp only
      constructor
      · intro h
        split at h
        · cases h
        · rename_i hfinite
          exact ⟨n, rfl, by simpa using hfinite, (Option.some.inj h).symm⟩
      · rintro ⟨_, ⟨⟩, hfinite, rfl⟩
        rw [if_neg (by simp [hfinite])]

/-! ## Writing -/

/-- Grouping adds nothing that is read. -/
theorem filter_groupDigits (l : List Char) : (groupDigits l).filter isRead = l.filter isRead := by
  induction l using groupDigits.induct with
  | case1 a b c d l ih =>
      have hcomma : isRead ',' = false := by decide
      rw [groupDigits]
      simp only [List.filter_cons, hcomma, ih, Bool.false_eq_true, if_false]
  | case2 l h => rw [groupDigits]; exact h

theorem digit_isRead : ∀ d < 10, isRead d.digitChar = true := by decide

theorem digits_toDigits (m : Nat) : Digits (Nat.toDigits 10 m) :=
  ⟨Nat.toDigits_ne_nil, fun _ hc => Nat.isDigit_of_mem_toDigits (by decide) le_rfl hc⟩

theorem filter_toDigits (m : Nat) : (Nat.toDigits 10 m).filter isRead = Nat.toDigits 10 m :=
  List.filter_eq_self.mpr (Text.toDigits_forall (by decide) digit_isRead m)

/-- The fraction of a formatted amount. -/
def cents (m : Nat) : List Char :=
  List.replicate (2 - (Nat.toDigits 10 m).length) '0' ++ Nat.toDigits 10 m

theorem cents_length {m : Nat} (h : m < 100) : (cents m).length = 2 := by
  have hlen : (Nat.toDigits 10 m).length ≤ 2 :=
    (Nat.length_toDigits_le_iff (by decide) (by decide)).mpr h
  rw [cents, List.length_append, List.length_replicate, Nat.sub_add_cancel hlen]

theorem digits_cents (m : Nat) : Digits (cents m) := by
  refine ⟨List.append_ne_nil_of_right_ne_nil _ Nat.toDigits_ne_nil, fun c hc => ?_⟩
  rcases List.mem_append.mp hc with hc | hc
  · rw [List.eq_of_mem_replicate hc]
    decide
  · exact (digits_toDigits m).2 c hc

theorem decimal_toDigits (m : Nat) : decimal (Nat.toDigits 10 m) = m := by
  rw [decimal, Nat.ofDigitChars_ten_toDigits]

theorem decimal_cents (m : Nat) : decimal (cents m) = m := by
  rw [decimal, cents, Nat.ofDigitChars_append, Nat.ofDigitChars_replicate_zero, Nat.mul_zero,
    Nat.ofDigitChars_ten_toDigits]

/-- What is read of a formatted amount. -/
theorem cleaned_format (k : Nat) :
    cleaned (formatNaira k) = Nat.toDigits 10 (k / 100) ++ '.' :: cents (k % 100) := by
  have hnat : ∀ m : Nat, (toString (m : Int)).toList = Nat.toDigits 10 m :=
    fun m => Nat.toList_repr
  have hlength : ∀ m : Nat, (toString (m : Int)).length = (Nat.toDigits 10 m).length := by
    intro m
    rw [← String.length_toList, hnat]
  have hzero : isRead '0' = true := by decide
  have hpoint : isRead '.' = true := by decide
  have hwhole : ((k : Int) / 100) = ((k / 100 : Nat) : Int) := rfl
  have hrest : ((k : Int) % 100) = ((k % 100 : Nat) : Int) := rfl
  rw [cleaned, formatNaira, hwhole, hrest]
  simp only [String.toList_append, String.toList_ofList, hnat, hlength, List.filter_append,
    List.filter_reverse, filter_groupDigits, filter_toDigits, List.reverse_reverse, cents,
    List.filter_replicate, hzero, if_true]
  simp [hpoint]

/-- A formatted amount is read back. -/
theorem spelled_format (k : Nat) : spelled (formatNaira k) = some k := by
  have hlt : k % 100 < 100 := Nat.mod_lt _ (by decide)
  have hnaira := Naira.fraction (digits_toDigits (k / 100)) (digits_cents (k % 100))
    (cents_length hlt).le
  refine spelled_iff.mpr ⟨_, cleaned_format k ▸ hnaira, ?_⟩
  rw [decimal_toDigits, decimal_cents, cents_length hlt]
  have hdivision : ((100 * (k / 100) + k % 100 : Nat) : ℚ) = (k : Nat) :=
    congrArg _ (Nat.div_add_mod k 100)
  push_cast at hdivision ⊢
  linarith

/-- **Naira texts and kobo** round-trip, and nothing but an amount is accepted, as far as the double nearest to
the amount is finite. -/
theorem naira_kobo : (∀ k : Nat, parseNairaToKobo (formatNaira k) =
      if (k / 100 : ℚ) < Double.finiteBound then some (k : Int) else none) ∧
    ∀ (text : String) (n : Int), parseNairaToKobo text = some n ↔
      ∃ v, Naira (cleaned text) v ∧ v < Double.finiteBound ∧ (n : ℚ) = v * 100 := by
  refine ⟨fun k => ?_, fun text n => ?_⟩
  · have hfinite := isFinite_bound k
    simp only [parseNairaToKobo, spelled_format]
    split
    · rename_i hno
      refine (if_neg fun hlt => ?_).symm
      rw [hfinite.mpr hlt] at hno
      cases hno
    · rename_i hyes
      refine (if_pos (hfinite.mp ?_)).symm
      rwa [Bool.not_eq_true, Bool.not_eq_false'] at hyes
  · rw [parse_spelled]
    constructor
    · rintro ⟨m, hm, hfinite, rfl⟩
      obtain ⟨v, hv, hvalue⟩ := spelled_iff.mp hm
      refine ⟨v, hv, ?_, hvalue⟩
      rw [isFinite_bound, hvalue, mul_div_cancel_right₀ _ (by norm_num)] at hfinite
      exact hfinite
    · rintro ⟨v, hv, hlt, hvalue⟩
      obtain ⟨m, hm, hmv⟩ := naira_spelled hv
      refine ⟨m, hm, ?_, ?_⟩
      · rw [isFinite_bound, hmv, mul_div_cancel_right₀ _ (by norm_num)]
        exact hlt
      · exact_mod_cast hvalue.trans hmv.symm

/-- 309 nines. -/
def nines : List Char := List.replicate 309 '9'

theorem digits_nines : Digits nines := by
  refine ⟨List.cons_ne_nil '9' (List.replicate 308 '9'), fun c hc => ?_⟩
  rw [List.eq_of_mem_replicate hc]
  decide

theorem naira_nines : Naira (cleaned (String.ofList nines)) (decimal nines) := by
  have hread : nines.filter isRead = nines := List.filter_eq_self.mpr fun c hc => by
    rw [List.eq_of_mem_replicate hc]
    decide
  rw [cleaned, String.toList_ofList, hread]
  exact .whole digits_nines

theorem spelled_nines : spelled (String.ofList nines) = some (Nat.ofDigitChars 10 nines 0 * 100) :=
  spelled_iff.mpr ⟨_, naira_nines, by rw [decimal, Nat.cast_mul, Nat.cast_ofNat]⟩

/-- They are digits, and are not accepted: the double nearest to them is infinite. -/
theorem naira_infinite : ¬ ∀ (text : String) (n : Int), parseNairaToKobo text = some n ↔
    ∃ v, Naira (cleaned text) v ∧ (n : ℚ) = v * 100 := by
  intro hall
  obtain ⟨n, hspelled, hvalue⟩ := naira_spelled naira_nines
  have haccepted := (hall _ n).mpr ⟨_, naira_nines, hvalue⟩
  obtain ⟨m, hm, hfinite, -⟩ := parse_spelled.mp haccepted
  obtain rfl := Option.some.inj (spelled_nines.symm.trans hm)
  have hinfinite : isFinite (Nat.ofDigitChars 10 nines 0 * 100) = false := by decide +kernel
  rw [hinfinite] at hfinite
  cases hfinite

end Meduman.Dialog
