import Meduman.Model.Notifications

/-!
# The numbers a code is sent to

* `Mapped`, `Fits` : the digits a number is mapped to, and those that are dialled
* `normalize_ok` : what is accepted, and as what
* `international`, `Spells` : a number with its country code, the spellings of a Nigerian one
* `Sound` : what normalisation should do with an input
* **`msisdn_sound`** : it does so exactly where it does not take an international number for a
  national one
-/

set_option autoImplicit false

namespace Meduman.Notify

open Dialog (trim)
open Linking (isSpace)

/-! ## What is accepted -/

/-- The characters that are read. -/
def typed (raw : String) : List Char := (trim raw).toList

def hadPlus (raw : String) : Bool := (typed raw).head? == some '+'

def digitsOf (raw : String) : List Char := (typed raw).filter Char.isDigit

/-- The digits without the access prefix. -/
def ownDigits (raw : String) : List Char :=
  if !hadPlus raw && ['0', '0'].isPrefixOf (digitsOf raw) then (digitsOf raw).drop 2
  else digitsOf raw

/-- A Nigerian mobile number without trunk zero and country code. -/
def Mobile (d : List Char) : Prop := d.length = ngNsnLength ∧ startsMobile d = true

instance (d : List Char) : Decidable (Mobile d) := inferInstanceAs (Decidable (_ ∧ _))

/-- What the digits of a number are mapped to. -/
inductive Mapped (plus : Bool) (d : List Char) : List Char → Prop
  | trunk : plus = false → d.head? = some '0' →
      Mapped plus d (ngCountryCode ++ d.dropWhile (· == '0'))
  | bare : d.head? ≠ some '0' → Mobile d → Mapped plus d (ngCountryCode ++ d)
  | whole : d.head? ≠ some '0' → ¬ Mobile d → Mapped plus d d

/-- Digits that are dialled. -/
structure Fits (m : List Char) : Prop where
  nigerian : ngCountryCode.isPrefixOf m = true → m.length = ngMsisdnLength
  enough : minE164Digits ≤ m.length
  most : m.length ≤ maxE164Digits

theorem isPrefixOf_zero (d : List Char) : ['0'].isPrefixOf d = true ↔ d.head? = some '0' := by
  cases d with
  | nil => simp
  | cons c d =>
      simp only [List.isPrefixOf, Bool.and_true, beq_iff_eq, List.head?_cons, Option.some.injEq]
      exact eq_comm

/-- The country code, where it is missing. -/
def addCountry (plus : Bool) (d : List Char) :
    Except UnroutablePhoneNumberError (List Char) :=
  if ['0'].isPrefixOf d then
    if plus then .error ⟨"invalid country code"⟩
    else .ok (ngCountryCode ++ d.dropWhile (· == '0'))
  else if d.length == ngNsnLength && startsMobile d then .ok (ngCountryCode ++ d)
  else .ok d

/-- The length of a number that is dialled. -/
def checkLength (m : List Char) : Except UnroutablePhoneNumberError String :=
  if ngCountryCode.isPrefixOf m && m.length != ngMsisdnLength then
    .error ⟨"malformed Nigerian number"⟩
  else if m.length < minE164Digits || m.length > maxE164Digits then
    .error ⟨"wrong length for E.164"⟩
  else .ok (String.ofList m)

theorem addCountry_bind (plus : Bool) (d : List Char) :
    (addCountry plus d).bind checkLength =
      if ['0'].isPrefixOf d then
        if plus then .error ⟨"invalid country code"⟩
        else checkLength (ngCountryCode ++ d.dropWhile (· == '0'))
      else if d.length == ngNsnLength && startsMobile d then checkLength (ngCountryCode ++ d)
      else checkLength d := by
  unfold addCountry
  split
  · split <;> rfl
  · split <;> rfl

theorem normalize_eq (raw : String) : normalizeMsisdn raw =
    if (typed raw).isEmpty then .error ⟨"empty"⟩
    else if !isDialable (typed raw) then .error ⟨"contains non-dialable characters"⟩
    else if (digitsOf raw).isEmpty then .error ⟨"no digits"⟩
    else (addCountry (hadPlus raw) (ownDigits raw)).bind checkLength := by
  rw [addCountry_bind]
  simp only [normalizeMsisdn, bind, pure, throw, throwThe, MonadExceptOf.throw,
    Except.bind, Except.pure, BEq.rfl, Bool.true_and, checkLength, ownDigits, digitsOf, hadPlus,
    typed]
  rfl

theorem addCountry_ok {plus : Bool} {d m : List Char} :
    addCountry plus d = .ok m ↔ Mapped plus d m := by
  unfold addCountry
  constructor
  · intro h
    split at h
    · rename_i hzero
      split at h
      · cases h
      · rename_i hplus
        cases h
        exact .trunk (by simpa using hplus) ((isPrefixOf_zero d).mp hzero)
    · rename_i hzero
      have hhead := mt (isPrefixOf_zero d).mpr hzero
      split at h
      · rename_i hmobile
        cases h
        exact .bare hhead (by simpa [Mobile] using hmobile)
      · rename_i hmobile
        cases h
        exact .whole hhead (by simpa [Mobile] using hmobile)
  · rintro (⟨hplus, hzero⟩ | ⟨hzero, hmobile⟩ | ⟨hzero, hmobile⟩)
    · rw [if_pos ((isPrefixOf_zero d).mpr hzero), hplus, if_neg Bool.false_ne_true]
    · rw [if_neg (mt (isPrefixOf_zero d).mp hzero), if_pos (by simpa [Mobile] using hmobile)]
    · rw [if_neg (mt (isPrefixOf_zero d).mp hzero), if_neg (by simpa [Mobile] using hmobile)]

theorem checkLength_ok {m : List Char} {r : String} :
    checkLength m = .ok r ↔ Fits m ∧ r = String.ofList m := by
  unfold checkLength
  constructor
  · intro h
    split at h
    · cases h
    · rename_i hng
      split at h
      · cases h
      · rename_i hlen
        cases h
        simp only [Bool.and_eq_true, bne_iff_ne, not_and, not_not] at hng
        simp only [Bool.or_eq_true, decide_eq_true_eq, not_or, Nat.not_lt] at hlen
        exact ⟨⟨hng, hlen.1, hlen.2⟩, rfl⟩
  · rintro ⟨⟨hng, hmin, hmax⟩, rfl⟩
    rw [if_neg (by simpa using hng), if_neg (by simp [hmin, hmax])]

theorem Mapped.ne_nil {plus : Bool} {m : List Char} (h : Mapped plus [] m) (hm : Fits m) :
    False := by
  have hmin := hm.enough
  cases h with
  | trunk _ hzero => cases hzero
  | bare _ hmobile => exact absurd hmobile (by decide)
  | whole => exact absurd hmin (by decide)

/-- **What is accepted**, and as what. -/
theorem normalize_ok {raw r : String} : normalizeMsisdn raw = .ok r ↔
    isDialable (typed raw) = true ∧
      ∃ m, Mapped (hadPlus raw) (ownDigits raw) m ∧ Fits m ∧ r = String.ofList m := by
  rw [normalize_eq]
  constructor
  · intro h
    split at h
    · cases h
    split at h
    · cases h
    split at h
    · cases h
    rename_i hdial _
    cases hadd : addCountry (hadPlus raw) (ownDigits raw) with
    | error e =>
        rw [hadd] at h
        cases h
    | ok m =>
        rw [hadd] at h
        obtain ⟨hfits, rfl⟩ := checkLength_ok.mp h
        exact ⟨by simpa using hdial, m, addCountry_ok.mp hadd, hfits, rfl⟩
  · rintro ⟨hdial, m, hmap, hfits, rfl⟩
    have htyped : (typed raw).isEmpty = false := by
      cases ht : typed raw with
      | nil =>
          rw [ht] at hdial
          exact absurd hdial (by decide)
      | cons c l => rfl
    have hdigits : (digitsOf raw).isEmpty = false := by
      by_contra hempty
      have hnil : digitsOf raw = [] := by simpa using hempty
      have hown : ownDigits raw = [] := by simp [ownDigits, hnil]
      rw [hown] at hmap
      exact hmap.ne_nil hfits
    rw [htyped, hdial, hdigits, addCountry_ok.mpr hmap]
    exact checkLength_ok.mpr ⟨hfits, rfl⟩

/-! ## What normalisation should do -/

/-- The number begins with `+` or the access prefix. -/
def isInternational (raw : String) : Bool :=
  hadPlus raw || ['0', '0'].isPrefixOf (digitsOf raw)

/-- The spellings of a Nigerian mobile number, between any punctuation: with a trunk zero, with the
country code after `+`, after `00` or after nothing, and bare. -/
def Spells (raw : String) (n : List Char) : Prop :=
  hadPlus raw = true ∧ digitsOf raw = ngCountryCode ++ n ∨
  hadPlus raw = false ∧ (digitsOf raw = '0' :: n ∨ digitsOf raw = ngCountryCode ++ n ∨
    digitsOf raw = '0' :: '0' :: ngCountryCode ++ n ∨ digitsOf raw = n)

/-- Digits a handset can have, those of Nigeria thirteen. -/
structure IsMsisdn (m : List Char) : Prop where
  digits : ∀ c ∈ m, c.isDigit = true
  enough : 8 ≤ m.length
  most : m.length ≤ 15
  noTrunk : m.head? ≠ some '0'
  nigerian : ['2', '3', '4'].isPrefixOf m = true → m.length = 13

/-- What normalisation should do with an input: throw, or answer as follows. -/
structure Sound (raw : String) : Prop where
  shape : ∀ r, normalizeMsisdn raw = .ok r → IsMsisdn r.toList
  own : ∀ r, normalizeMsisdn raw = .ok r → isInternational raw = true → r.toList = ownDigits raw
  spelling : ∀ r n, normalizeMsisdn raw = .ok r → Mobile n → Spells raw n →
    r.toList = ngCountryCode ++ n
  fixed : ∀ r, normalizeMsisdn raw = .ok r → normalizeMsisdn r = .ok r

/-- An international number that reads like a national one: a Nigerian mobile number behind the prefix,
or behind `00` and trunk zeros ten digits. -/
def Ambiguous (raw : String) : Prop :=
  isDialable (typed raw) = true ∧ isInternational raw = true ∧
    (Mobile (ownDigits raw) ∨ hadPlus raw = false ∧ (ownDigits raw).head? = some '0' ∧
      ((ownDigits raw).dropWhile (· == '0')).length = ngNsnLength)

/-! ## What it does -/

variable {raw r : String} {d m n : List Char} {plus : Bool}

theorem ownDigits_digits : ∀ c ∈ ownDigits raw, c.isDigit = true := by
  have hall : ∀ c ∈ digitsOf raw, c.isDigit = true := fun c hc => (List.mem_filter.mp hc).2
  unfold ownDigits
  split
  · exact fun c hc => hall c (List.mem_of_mem_drop hc)
  · exact hall

theorem startsMobile_head (h : startsMobile d = true) : d.head? ≠ some '0' := by
  intro hzero
  rw [startsMobile, hzero] at h
  exact absurd h (by decide)

theorem Mapped.digits (h : Mapped plus d m) (hd : ∀ c ∈ d, c.isDigit = true) :
    ∀ c ∈ m, c.isDigit = true := by
  have hng : ∀ c ∈ ngCountryCode, c.isDigit = true := List.all_eq_true.mp (by decide)
  have happend : ∀ l : List Char, (∀ c ∈ l, c.isDigit = true) →
      ∀ c ∈ ngCountryCode ++ l, c.isDigit = true := fun l hl c hc =>
    (List.mem_append.mp hc).elim (hng c) (hl c)
  cases h with
  | trunk => exact happend _ fun c hc => hd c (List.dropWhile_sublist _ |>.mem hc)
  | bare => exact happend _ hd
  | whole => exact hd

/-- What a number is mapped to begins neither with a trunk zero nor like a bare mobile number. -/
theorem Mapped.settled (h : Mapped plus d m) : m.head? ≠ some '0' ∧ ¬ Mobile m := by
  have hng : ∀ l : List Char, (ngCountryCode ++ l).head? ≠ some '0' ∧
      ¬ Mobile (ngCountryCode ++ l) := fun l =>
    ⟨by simp [ngCountryCode], fun hmobile => by simp [Mobile, startsMobile, ngCountryCode] at hmobile⟩
  cases h with
  | trunk => exact hng _
  | bare => exact hng _
  | whole hzero hmobile => exact ⟨hzero, hmobile⟩

theorem digit_plain {c : Char} (h : c.isDigit = true) : isSpace c = false ∧ c ≠ '+' := by
  have hall : ∀ i < 10, isSpace (Char.ofNat (48 + i)) = false ∧ Char.ofNat (48 + i) ≠ '+' := by
    decide
  have hrange : 48 ≤ c.toNat ∧ c.toNat ≤ 57 := by
    simpa [Char.isDigit, UInt32.le_iff_toNat_le] using h
  have hc := hall (c.toNat - 48) (by omega)
  rwa [Nat.add_sub_cancel' hrange.1, Char.ofNat_toNat] at hc

/-- Digits are read as they are. -/
theorem typed_digits (h : ∀ c ∈ m, c.isDigit = true) : typed (String.ofList m) = m := by
  have hdrop : ∀ l : List Char, (∀ c ∈ l, c.isDigit = true) → l.dropWhile isSpace = l := fun l hl => by
    cases l with
    | nil => rfl
    | cons c l => rw [List.dropWhile_cons_of_neg (by simp [(digit_plain (hl c List.mem_cons_self)).1])]
  unfold typed trim
  rw [String.toList_ofList, String.toList_ofList, hdrop m h,
    hdrop _ fun c hc => h c (List.mem_reverse.mp hc), List.reverse_reverse]

theorem no_access (h : d.head? ≠ some '0') : ['0', '0'].isPrefixOf d = false := by
  by_contra hpre
  obtain ⟨t, rfl⟩ := List.isPrefixOf_iff_prefix.mp ((Bool.not_eq_false _).mp hpre)
  exact h rfl

/-- A result is read as it is. -/
theorem read_digits (h : ∀ c ∈ m, c.isDigit = true) (hne : m ≠ []) (hzero : m.head? ≠ some '0') :
    isDialable (typed (String.ofList m)) = true ∧ hadPlus (String.ofList m) = false ∧
      ownDigits (String.ofList m) = m := by
  obtain ⟨c, l, rfl⟩ := List.exists_cons_of_ne_nil hne
  have hplus : ((c :: l).head? == some '+') = false := by
    simpa using (digit_plain (h c List.mem_cons_self)).2
  have hall : (c :: l).all fun c =>
      c.isDigit || isSpace c || c == '(' || c == ')' || c == '.' || c == '-' :=
    List.all_eq_true.mpr fun c hc => by simp [h c hc]
  have hfilter : (c :: l).filter Char.isDigit = c :: l := List.filter_eq_self.mpr h
  refine ⟨?_, by rw [hadPlus, typed_digits h, hplus], ?_⟩
  · rw [isDialable, typed_digits h, hplus]
    simpa using hall
  · rw [ownDigits, digitsOf, typed_digits h, hfilter, no_access hzero, Bool.and_false,
      if_neg Bool.false_ne_true]

theorem shape_sound (h : normalizeMsisdn raw = .ok r) : IsMsisdn r.toList := by
  obtain ⟨-, m, hmap, hfits, rfl⟩ := normalize_ok.mp h
  rw [String.toList_ofList]
  exact ⟨hmap.digits ownDigits_digits, hfits.enough, hfits.most, hmap.settled.1, hfits.nigerian⟩

theorem fixed_sound (h : normalizeMsisdn raw = .ok r) : normalizeMsisdn r = .ok r := by
  obtain ⟨-, m, hmap, hfits, rfl⟩ := normalize_ok.mp h
  obtain ⟨hzero, hmobile⟩ := hmap.settled
  have hne : m ≠ [] := fun hnil => by
    have hmin := hfits.enough
    rw [hnil] at hmin
    exact absurd hmin (by decide)
  obtain ⟨hdial, hplus, hown⟩ := read_digits (hmap.digits ownDigits_digits) hne hzero
  refine normalize_ok.mpr ⟨hdial, m, ?_, hfits, rfl⟩
  rw [hown]
  exact .whole hzero hmobile

theorem ng_dropWhile (hn : startsMobile n = true) : ('0' :: n).dropWhile (· == '0') = n := by
  have hhead := startsMobile_head hn
  cases n with
  | nil => rfl
  | cons c l =>
      have hc : c ≠ '0' := by simpa using hhead
      rw [List.dropWhile_cons_of_pos (by decide), List.dropWhile_cons_of_neg (by simpa using hc)]

/-- The digits of a Nigerian number after its country code are not read as a bare one. -/
theorem mapped_country (h : Mapped plus (ngCountryCode ++ n) m) : m = ngCountryCode ++ n := by
  cases h with
  | trunk _ hzero => exact absurd hzero (by simp [ngCountryCode])
  | bare _ hmobile => exact absurd hmobile (by simp [Mobile, startsMobile, ngCountryCode])
  | whole => rfl

/-- **All spellings of a Nigerian number** are one number. -/
theorem spelling_sound (h : normalizeMsisdn raw = .ok r) (hn : Mobile n) (hs : Spells raw n) :
    r.toList = ngCountryCode ++ n := by
  obtain ⟨-, m, hmap, -, rfl⟩ := normalize_ok.mp h
  rw [String.toList_ofList]
  have hhead := startsMobile_head hn.2
  rcases hs with ⟨hplus, hd⟩ | ⟨hplus, hd | hd | hd | hd⟩
  · -- with `+`
    have hown : ownDigits raw = ngCountryCode ++ n := by simp [ownDigits, hplus, hd]
    exact mapped_country (hown ▸ hmap)
  · -- with a trunk zero
    have hown : ownDigits raw = '0' :: n := by
      have hpre : ['0', '0'].isPrefixOf ('0' :: n) = false := by
        by_contra hpre
        obtain ⟨t, ht⟩ := List.isPrefixOf_iff_prefix.mp ((Bool.not_eq_false _).mp hpre)
        obtain rfl : '0' :: t = n := (List.cons.inj ht).2
        exact hhead rfl
      rw [ownDigits, hd, hpre, Bool.and_false, if_neg Bool.false_ne_true]
    rw [hown] at hmap
    cases hmap with
    | trunk => rw [ng_dropWhile hn.2]
    | bare hzero => exact absurd rfl hzero
    | whole hzero => exact absurd rfl hzero
  · -- with the country code alone
    have hown : ownDigits raw = ngCountryCode ++ n := by
      rw [ownDigits, hd, no_access (by simp [ngCountryCode]), Bool.and_false,
        if_neg Bool.false_ne_true]
    exact mapped_country (hown ▸ hmap)
  · -- with the access prefix
    have hown : ownDigits raw = ngCountryCode ++ n := by
      rw [ownDigits, hd, hplus, if_pos (by simp [List.isPrefixOf])]
      rfl
    exact mapped_country (hown ▸ hmap)
  · -- bare
    have hown : ownDigits raw = n := by
      rw [ownDigits, hd, no_access hhead, Bool.and_false, if_neg Bool.false_ne_true]
    rw [hown] at hmap
    cases hmap with
    | trunk _ hzero => exact absurd hzero hhead
    | bare => rfl
    | whole _ hmobile => exact absurd hn hmobile

/-- An ambiguous number gains a country code. -/
theorem ambiguous_gains (h : Ambiguous raw) : ∃ d, d ≠ ownDigits raw ∧
    normalizeMsisdn raw = .ok (String.ofList d) := by
  obtain ⟨hdial, -, hcase⟩ := h
  have hfits : ∀ l : List Char, l.length = ngNsnLength → Fits (ngCountryCode ++ l) := fun l hl =>
    ⟨fun _ => by simp [hl, ngMsisdnLength], by simp [hl, ngNsnLength, minE164Digits],
      by simp [hl, ngNsnLength, maxE164Digits, ngCountryCode]⟩
  rcases hcase with hmobile | ⟨hplus, hzero, hlen⟩
  · refine ⟨ngCountryCode ++ ownDigits raw, fun heq => ?_, normalize_ok.mpr ⟨hdial, _,
      .bare (startsMobile_head hmobile.2) hmobile, hfits _ hmobile.1, rfl⟩⟩
    have hlength := congrArg List.length heq
    simp only [List.length_append, ngCountryCode, List.length_cons, List.length_nil] at hlength
    omega
  · refine ⟨_, fun heq => ?_, normalize_ok.mpr ⟨hdial, _, .trunk hplus hzero, hfits _ hlen, rfl⟩⟩
    rw [← heq] at hzero
    cases hzero

theorem ambiguous_unsound (h : Ambiguous raw) : ¬ Sound raw := fun hsound => by
  obtain ⟨d, hne, hok⟩ := ambiguous_gains h
  refine hne ?_
  rw [← hsound.own _ hok h.2.1, String.toList_ofList]

/-- **Normalisation is sound** for every input that is not ambiguous, and for no ambiguous one: an
international number that reads like a national one gains a country code. -/
theorem msisdn_sound (raw : String) : Sound raw ↔ ¬ Ambiguous raw := by
  refine ⟨fun hsound hambiguous => ambiguous_unsound hambiguous hsound, fun hclear =>
    ⟨fun r => shape_sound, fun r h hint => ?_, fun r n => spelling_sound, fun r => fixed_sound⟩⟩
  obtain ⟨hdial, m, hmap, hfits, rfl⟩ := normalize_ok.mp h
  rw [String.toList_ofList]
  cases hmap with
  | trunk hplus hzero =>
      -- the digits behind the trunk zeros are ten, or the result is not thirteen
      refine absurd ⟨hdial, hint, .inr ⟨hplus, hzero, ?_⟩⟩ hclear
      have hlen := hfits.nigerian (by simp [ngCountryCode, List.isPrefixOf])
      rw [List.length_append, ngMsisdnLength] at hlen
      omega
  | bare _ hmobile => exact absurd ⟨hdial, hint, .inl hmobile⟩ hclear
  | whole => rfl

set_option maxRecDepth 4000 in
/-- **A stranger is dialled**: `+8031234567` gains the country code of Nigeria. -/
theorem msisdn_stranger : isInternational "+8031234567" = true ∧
    (normalizeMsisdn "+8031234567").toOption = some "2348031234567" ∧ ¬ Sound "+8031234567" := by
  have hambiguous : Ambiguous "+8031234567" := ⟨by decide, by decide, .inl (by decide)⟩
  exact ⟨hambiguous.2.1, by decide, ambiguous_unsound hambiguous⟩

end Meduman.Notify
