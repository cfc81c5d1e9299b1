import Mathlib.Algebra.Order.BigOperators.Group.List
import Meduman.Model.Amounts
import Meduman.Money

/-!
# Amounts that are exact and can be stored

* `Admitted` : a line that passed its checks
* `exactSubtotal`, `exactTax` : the amounts of an invoice
* `Exact` : the amounts computed in doubles are those, and fit their columns
* `exact_iff` : so they are exactly where the total fits
* `Storable`, `storable_iff` : what is stored of a transaction, of its charge and of its payout
* **`amounts_exact`** : the same for every request that names an amount
-/

set_option autoImplicit false

namespace Meduman

open Double

/-! ## The amounts of an invoice -/

/-- A line that passed its checks. -/
def Admitted (line : LineInput) : Prop := 0 < line.quantity ∧ 0 ≤ line.unitPrice

def exactLineTotal (line : LineInput) : Int := line.unitPrice * line.quantity

def exactSubtotal (lines : List LineInput) : Int := (lines.map exactLineTotal).sum

def exactTax (subtotal : Int) : Option Int → Int
  | none => 0
  | some rate => (2 * subtotal * rate + 10000) / 20000

def exactTotal (lines : List LineInput) (rate : Option Int) : Int :=
  exactSubtotal lines + exactTax (exactSubtotal lines) rate

/-- The amounts computed in doubles are exact, whatever the order of the lines, and fit. -/
structure Exact (lines : List LineInput) (rate : Option Int) : Prop where
  lineTotals : ∀ line ∈ lines, Doubles.computeLineTotal line = exactLineTotal line
  subtotal : (Doubles.computeTotals lines rate).subtotal = exactSubtotal lines
  taxAmount : (Doubles.computeTotals lines rate).taxAmount = exactTax (exactSubtotal lines) rate
  total : (Doubles.computeTotals lines rate).total = exactTotal lines rate
  order : ∀ lines' : List LineInput, lines'.Perm lines →
    (Doubles.computeTotals lines' rate).subtotal = (Doubles.computeTotals lines rate).subtotal
  storedLines : ∀ line ∈ lines, Fits line.unitPrice ∧ Fits (Doubles.computeLineTotal line)
  storedSubtotal : Fits (Doubles.computeTotals lines rate).subtotal
  storedTax : Fits (Doubles.computeTotals lines rate).taxAmount
  storedTotal : Fits (Doubles.computeTotals lines rate).total

variable {lines : List LineInput} {line : LineInput} {rate : Option Int}

theorem Admitted.nonneg (h : Admitted line) : 0 ≤ exactLineTotal line := mul_nonneg h.2 h.1.le

theorem Admitted.price_le (h : Admitted line) : line.unitPrice ≤ exactLineTotal line := by
  have hquantity : 1 ≤ line.quantity := h.1
  rw [exactLineTotal]
  nlinarith [h.2]

theorem lineTotal_le (h : ∀ line ∈ lines, Admitted line) (hline : line ∈ lines) :
    exactLineTotal line ≤ exactSubtotal lines := by
  refine List.single_le_sum (fun x hx => ?_) _ (List.mem_map_of_mem hline)
  obtain ⟨l, hl, rfl⟩ := List.mem_map.mp hx
  exact (h l hl).nonneg

theorem exactSubtotal_nonneg (h : ∀ line ∈ lines, Admitted line) : 0 ≤ exactSubtotal lines := by
  refine List.sum_nonneg fun x hx => ?_
  obtain ⟨l, hl, rfl⟩ := List.mem_map.mp hx
  exact (h l hl).nonneg

theorem exactTax_nonneg {subtotal : Int} (h : 0 ≤ subtotal) (hrate : ∀ r ∈ rate, 0 ≤ r) :
    0 ≤ exactTax subtotal rate := by
  cases rate with
  | none => exact le_rfl
  | some r =>
      have hproduct : 0 ≤ subtotal * r := mul_nonneg h (hrate r rfl)
      rw [exactTax]
      exact Int.ediv_nonneg (by nlinarith) (by decide)

theorem fits_int {n : ℤ} : Fits n ↔ int4Min ≤ n ∧ n ≤ int4Max :=
  and_congr Int.cast_le Int.cast_le

/-! ## Doubles that are exact -/

theorem toDouble_small {n : ℤ} (h : 0 ≤ n) (hmax : n ≤ int4Max) : toDouble n = n :=
  toDouble_intCast (by rw [abs_of_nonneg h]; exact lt_of_le_of_lt hmax (by decide))

theorem lineTotal_exact (h : Admitted line) (hmax : exactLineTotal line ≤ int4Max) :
    Doubles.computeLineTotal line = exactLineTotal line := by
  rw [Doubles.computeLineTotal, ← toDouble_small h.nonneg hmax, exactLineTotal]
  push_cast
  rfl

/-- The sum of the lines is exact, from any exact sum on. -/
theorem subtotal_exact (h : ∀ line ∈ lines, Admitted line) (sum : ℤ) (hsum : 0 ≤ sum)
    (hmax : sum + exactSubtotal lines ≤ int4Max) :
    lines.foldl (fun sum line => toDouble (sum + Doubles.computeLineTotal line)) (sum : ℚ) =
      (sum + exactSubtotal lines : ℤ) := by
  induction lines generalizing sum with
  | nil => simp [exactSubtotal]
  | cons line lines ih =>
      have hline := h line List.mem_cons_self
      have hlines := fun l hl => h l (List.mem_cons_of_mem line hl)
      have hrest := exactSubtotal_nonneg hlines
      have hcons : exactSubtotal (line :: lines) = exactLineTotal line + exactSubtotal lines := rfl
      rw [hcons] at hmax ⊢
      have hnonneg := hline.nonneg
      have hstep : toDouble ((sum : ℚ) + Doubles.computeLineTotal line) =
          (sum + exactLineTotal line : ℤ) := by
        have hround := toDouble_small (show 0 ≤ sum + exactLineTotal line by omega) (by omega)
        rw [lineTotal_exact hline (by omega)]
        push_cast at hround ⊢
        exact hround
      rw [List.foldl_cons, hstep, ih hlines _ (by omega) (by omega), add_assoc]

/-- The tax is exact. -/
theorem tax_exact {subtotal r : ℤ} (h : 0 ≤ subtotal) (hmax : subtotal ≤ int4Max) (hr : 0 ≤ r)
    (hr' : r ≤ 10000) :
    mathRound (toDouble (toDouble ((subtotal : ℚ) * r) / 10000)) = (2 * subtotal * r + 10000) / 20000 := by
  have hproduct : 0 ≤ subtotal * r := mul_nonneg h hr
  have hbound : subtotal * r ≤ 2147483647 * 10000 :=
    mul_le_mul hmax hr' hr (by decide)
  have hexact : toDouble ((subtotal : ℚ) * r) = (subtotal * r : ℤ) := by
    have hround := toDouble_intCast (show |subtotal * r| < 2 ^ 53 by
      rw [abs_of_nonneg hproduct]; omega)
    push_cast at hround ⊢
    exact hround
  have hquotient : |((subtotal * r : ℤ) / (10000 : ℤ) : ℚ)| < 2 ^ ((31 : ℤ) + 1) := by
    have hnonneg : (0 : ℚ) ≤ (subtotal * r : ℤ) := by exact_mod_cast hproduct
    have hle : ((subtotal * r : ℤ) : ℚ) ≤ 2147483647 * 10000 := by exact_mod_cast hbound
    rw [abs_of_nonneg (by positivity), div_lt_iff₀ (by norm_num)]
    norm_num
    norm_num at hle
    linarith
  have hdiv := mathRound_div (by decide : (0 : ℤ) < 10000) hquotient (by decide) (by decide)
    (by norm_num)
  rw [hexact]
  push_cast at hdiv ⊢
  rw [hdiv]
  congr 1
  ring

/-- **The amounts of an invoice** are exact and fit exactly where the total fits. -/
theorem exact_iff (h : ∀ line ∈ lines, Admitted line) (hrate : ∀ r ∈ rate, 0 ≤ r ∧ r ≤ 10000) :
    Exact lines rate ↔ exactTotal lines rate ≤ int4Max := by
  constructor
  · intro hexact
    have hfits := hexact.storedTotal.2
    rw [hexact.total] at hfits
    exact_mod_cast hfits
  · intro hmax
    have hsub := exactSubtotal_nonneg h
    have htax := exactTax_nonneg hsub fun r hr => (hrate r hr).1
    rw [exactTotal] at hmax
    have hsum : ∀ lines' : List LineInput, lines'.Perm lines →
        (Doubles.computeTotals lines' rate).subtotal = (exactSubtotal lines : ℤ) := by
      intro lines' hperm
      have hsame : exactSubtotal lines' = exactSubtotal lines :=
        (hperm.map exactLineTotal).sum_eq
      have hfold := subtotal_exact (fun l hl => h l (hperm.subset hl)) 0 le_rfl (by omega)
      rw [zero_add, Int.cast_zero, hsame] at hfold
      exact hfold
    have hsubtotal := hsum lines (List.Perm.refl lines)
    have htaxAmount : (Doubles.computeTotals lines rate).taxAmount =
        (exactTax (exactSubtotal lines) rate : ℤ) := by
      cases rate with
      | none => exact Int.cast_zero.symm
      | some r =>
          obtain ⟨hr, hr'⟩ := hrate r rfl
          have hexact := tax_exact hsub (by omega) hr hr'
          rw [← hsubtotal] at hexact
          exact congrArg (Int.cast : ℤ → ℚ) hexact
    have htotal : (Doubles.computeTotals lines rate).total = (exactTotal lines rate : ℤ) := by
      have hround := toDouble_small (show 0 ≤ exactSubtotal lines +
        exactTax (exactSubtotal lines) rate by omega) (by omega)
      show toDouble ((Doubles.computeTotals lines rate).subtotal +
        (Doubles.computeTotals lines rate).taxAmount) = _
      rw [hsubtotal, htaxAmount, exactTotal]
      push_cast at hround ⊢
      exact hround
    have hfits : ∀ n : ℤ, 0 ≤ n → n ≤ int4Max → Fits n := by
      intro n hn hn'
      have hmin : int4Min ≤ n := le_trans (by decide) hn
      exact ⟨by exact_mod_cast hmin, by exact_mod_cast hn'⟩
    have hlines : ∀ line ∈ lines, exactLineTotal line ≤ int4Max :=
      fun line hline => (lineTotal_le h hline).trans (by omega)
    exact
      { lineTotals := fun line hline => lineTotal_exact (h line hline) (hlines line hline)
        subtotal := hsubtotal
        taxAmount := htaxAmount
        total := htotal
        order := fun lines' hperm => (hsum lines' hperm).trans hsubtotal.symm
        storedLines := fun line hline =>
          ⟨hfits _ (h line hline).2 ((h line hline).price_le.trans (hlines line hline)), by
            rw [lineTotal_exact (h line hline) (hlines line hline)]
            exact hfits _ (h line hline).nonneg (hlines line hline)⟩
        storedSubtotal := by rw [hsubtotal]; exact hfits _ hsub (by omega)
        storedTax := by rw [htaxAmount]; exact hfits _ htax (by omega)
        storedTotal := by rw [htotal, exactTotal]; exact hfits _ (by omega) hmax }

/-! ## The amount a chat names -/

/-- Kobo that fit are read exactly. -/
theorem kobo_exact {n : ℤ} (h : 0 ≤ n) (hmax : n ≤ int4Max) :
    mathRound (toDouble (toDouble ((n : ℚ) / 100) * 100)) = n := by
  have hn : (0 : ℚ) ≤ n := by exact_mod_cast h
  have hn' : (n : ℚ) ≤ 2147483647 := by exact_mod_cast hmax
  have hnaira : |(n : ℚ) / 100| < 2 ^ ((24 : ℤ) + 1) := by
    rw [abs_of_nonneg (by positivity), div_lt_iff₀ (by norm_num)]
    norm_num
    linarith
  have hfirst := (abs_toDouble_sub_le ((n : ℚ) / 100)).trans
    (div_le_div_of_nonneg_right (ulp_le hnaira (by decide)) (by norm_num))
  norm_num at hfirst
  obtain ⟨hlow, hhigh⟩ := abs_le.mp hfirst
  set x := toDouble ((n : ℚ) / 100)
  have hkobo : |x * 100| < 2 ^ ((31 : ℤ) + 1) := by
    rw [abs_lt]
    norm_num
    constructor <;> linarith
  have hsecond := (abs_toDouble_sub_le (x * 100)).trans
    (div_le_div_of_nonneg_right (ulp_le hkobo (by decide)) (by norm_num))
  norm_num at hsecond
  obtain ⟨hlow', hhigh'⟩ := abs_le.mp hsecond
  apply mathRound_eq
  rw [abs_lt]
  constructor <;> linarith

/-- **The amount a chat names** is exact and fits exactly where its exact value fits. -/
theorem chat_exact {text : String} {kobo : Int} (h : Doubles.parseNairaToKobo text = some kobo) :
    ∃ n, Dialog.parseNairaToKobo text = some n ∧ ((kobo = n ∧ Fits kobo) ↔ n ≤ int4Max) := by
  unfold Doubles.parseNairaToKobo at h
  split at h
  · cases h
  · rename_i n hn
    split at h
    · cases h
    · rename_i hfinite
      obtain rfl := Option.some.inj h
      have hfinite' : Dialog.isFinite n = true := by
        rwa [Dialog.isFinite_double, Bool.not_eq_true, Bool.not_eq_false'] at hfinite
      refine ⟨n, Dialog.parse_spelled.mpr ⟨n, hn, hfinite', rfl⟩, ?_, fun hmax => ?_⟩
      · rintro ⟨heq, hfits⟩
        rw [heq] at hfits
        exact (fits_int.mp hfits).2
      · have hexact := kobo_exact (Int.natCast_nonneg n) hmax
        rw [Int.cast_natCast] at hexact
        rw [hexact]
        exact ⟨rfl, fits_int.mpr ⟨le_trans (by decide) (Int.natCast_nonneg n), hmax⟩⟩

/-! ## The amounts of a transaction -/

/-- What is stored of a transaction, of a payment for it and of its payout is exact, and fits. -/
structure Storable (tx : Transaction) : Prop where
  amount : Fits tx.amount
  feeAmount : Fits tx.feeAmount
  charge : Doubles.chargeAmountFor tx = chargeAmountFor tx
  storedCharge : Fits (Doubles.chargeAmountFor tx)
  settlement : Doubles.sellerSettlement tx.amount tx.feeModel tx.feeAmount = settlementFor tx
  storedSettlement : Fits (Doubles.sellerSettlement tx.amount tx.feeModel tx.feeAmount)

/-- The amount with the fee: on top of it, or taken from it. -/
def withFee (tx : Transaction) : Int :=
  match tx.feeModel with
  | .buyerPays => tx.amount + tx.feeAmount
  | .sellerPays => tx.amount - tx.feeAmount

/-- The amount and the fee are storable, and so is the amount with the fee. -/
def Bounded (tx : Transaction) : Prop :=
  tx.amount ≤ int4Max ∧ int4Min ≤ tx.feeAmount ∧ tx.feeAmount ≤ int4Max ∧ withFee tx ≤ int4Max

theorem toDouble_fits {n : ℤ} (h : Fits n) : toDouble n = n := by
  obtain ⟨hmin, hmax⟩ := fits_int.mp h
  simp only [int4Min, int4Max] at hmin hmax
  exact toDouble_intCast (abs_lt.mpr ⟨by omega, by omega⟩)

theorem charge_double (tx : Transaction) :
    Doubles.chargeAmountFor tx = toDouble (chargeAmountFor tx : ℤ) := by
  rw [Doubles.chargeAmountFor, chargeAmountFor]
  split <;> push_cast <;> rfl

/-- **What a transaction moves** is exact and fits exactly where its sum or difference fits. -/
theorem storable_iff {tx : Transaction} (hpos : 0 < tx.amount) : Storable tx ↔ Bounded tx := by
  have hsettles : Fits tx.amount → Fits (settlementFor tx) →
      Doubles.sellerSettlement tx.amount tx.feeModel tx.feeAmount = settlementFor tx := by
    intro _ hfits
    have hround := toDouble_fits hfits
    rw [settlementFor] at hround ⊢
    cases hmodel : tx.feeModel with
    | buyerPays => rfl
    | sellerPays =>
        rw [hmodel] at hround
        simp only [sellerSettlement, Int.cast_sub] at hround
        simp only [Doubles.sellerSettlement, sellerSettlement, Int.cast_sub]
        exact hround
  have hcharge : chargeAmountFor tx = match tx.feeModel with
      | .buyerPays => tx.amount + tx.feeAmount
      | .sellerPays => tx.amount := by
    rw [chargeAmountFor]
    cases tx.feeModel with
    | buyerPays => rfl
    | sellerPays => exact Int.add_zero _
  have hsettlement : settlementFor tx = match tx.feeModel with
      | .buyerPays => tx.amount
      | .sellerPays => tx.amount - tx.feeAmount := rfl
  constructor
  · intro hs
    have hstored := hs.storedCharge
    have hpaid := hs.storedSettlement
    rw [hs.charge, fits_int, hcharge] at hstored
    rw [hs.settlement, fits_int, hsettlement] at hpaid
    obtain ⟨hfee, hfee'⟩ := fits_int.mp hs.feeAmount
    refine ⟨(fits_int.mp hs.amount).2, hfee, hfee', ?_⟩
    rw [withFee]
    cases hmodel : tx.feeModel with
    | buyerPays => rw [hmodel] at hstored; exact hstored.2
    | sellerPays => rw [hmodel] at hpaid; exact hpaid.2
  · rintro ⟨hamount, hfee, hfee', hmoved⟩
    have hmin : int4Min + 1 ≤ tx.amount := le_trans (by decide) hpos.le
    rw [withFee] at hmoved
    have hcharged : Fits (chargeAmountFor tx) := by
      rw [fits_int, hcharge]
      simp only [int4Min, int4Max] at *
      cases hmodel : tx.feeModel with
      | buyerPays => rw [hmodel] at hmoved; dsimp only at hmoved ⊢; omega
      | sellerPays => dsimp only; omega
    have hpaid : Fits (settlementFor tx) := by
      rw [fits_int, hsettlement]
      simp only [int4Min, int4Max] at *
      cases hmodel : tx.feeModel with
      | buyerPays => dsimp only; omega
      | sellerPays => rw [hmodel] at hmoved; dsimp only at hmoved ⊢; omega
    have hfits : Fits tx.amount := fits_int.mpr ⟨by omega, hamount⟩
    have hexact : Doubles.chargeAmountFor tx = chargeAmountFor tx := by
      rw [charge_double, toDouble_fits hcharged]
    exact ⟨hfits, fits_int.mpr ⟨hfee, hfee'⟩, hexact, hexact ▸ hcharged, hsettles hfits hpaid,
      hsettles hfits hpaid ▸ hpaid⟩

/-! ## Requests -/

theorem admitted_input {dto : InvoiceLineDto} (h : dto.validate = true) : Admitted dto.input := by
  simp only [InvoiceLineDto.validate, Bool.and_eq_true, decide_eq_true_eq] at h
  exact ⟨h.1.2, h.2⟩

theorem validRate_bounds (h : rate.all validRate = true) : ∀ r ∈ rate, 0 ≤ r ∧ r ≤ 10000 := by
  rintro r rfl
  simpa [validRate] using h

theorem admitted_inputs {dtos : List InvoiceLineDto} (h : dtos.all InvoiceLineDto.validate = true) :
    ∀ line ∈ dtos.map InvoiceLineDto.input, Admitted line := by
  intro line hline
  obtain ⟨dto, hdto, rfl⟩ := List.mem_map.mp hline
  exact admitted_input (List.all_eq_true.mp h dto hdto)

/-- The lines and the rate an edit computes its amounts from. -/
def editLines (dto : UpdateInvoiceDto) (stored : List InvoiceLineItem) : List LineInput :=
  match dto.lineItems.join with
  | some lines => lines.map InvoiceLineDto.input
  | none => stored.map InvoiceLineItem.input

def editRate (dto : UpdateInvoiceDto) (stored : Option Int) : Option Int :=
  dto.taxRatePctBp.join.or stored

/-- **Every admitted amount** is exact and can be stored exactly where it fits its column. -/
theorem amounts_exact (invoice : CreateInvoiceDto) (edit : UpdateInvoiceDto)
    (stored : List InvoiceLineItem) (storedRate : Option Int) (request : Entrypoint)
    (publicLinkId : String) (id : Uuid) (text : String) :
    (invoice.validate = true →
      (Exact (invoice.lineItems.map InvoiceLineDto.input) invoice.taxRatePctBp ↔
        exactTotal (invoice.lineItems.map InvoiceLineDto.input) invoice.taxRatePctBp ≤ int4Max)) ∧
    (edit.validate = true → (∀ line ∈ stored, Admitted line.input) →
      (∀ r ∈ storedRate, 0 ≤ r ∧ r ≤ 10000) →
      (Exact (editLines edit stored) (editRate edit storedRate) ↔
        exactTotal (editLines edit stored) (editRate edit storedRate) ≤ int4Max)) ∧
    (∀ input, request.draft = some input →
      (Storable ((input.create publicLinkId).row id) ↔ Bounded ((input.create publicLinkId).row id))) ∧
    ∀ kobo, Doubles.parseNairaToKobo text = some kobo →
      ∃ n, Dialog.parseNairaToKobo text = some n ∧ ((kobo = n ∧ Fits kobo) ↔ n ≤ int4Max) := by
  refine ⟨fun h => ?_, fun h hstored hrate => ?_,
    fun input h => storable_iff (show 0 < input.amount from amount_pos_of_draft h),
    fun kobo h => chat_exact h⟩
  · simp only [CreateInvoiceDto.validate, Bool.and_eq_true] at h
    obtain ⟨⟨⟨⟨⟨-, hrate⟩, -⟩, -⟩, -⟩, hlines⟩ := h
    exact exact_iff (admitted_inputs hlines) (validRate_bounds hrate)
  · simp only [UpdateInvoiceDto.validate, Bool.and_eq_true] at h
    obtain ⟨⟨⟨⟨⟨-, -⟩, hgiven⟩, -⟩, -⟩, hlines⟩ := h
    have hadmitted : ∀ line ∈ editLines edit stored, Admitted line := by
      rw [editLines]
      split
      · rename_i lines heq
        rw [heq, Option.all_some, Bool.and_eq_true] at hlines
        exact admitted_inputs hlines.2
      · intro line hline
        obtain ⟨item, hitem, rfl⟩ := List.mem_map.mp hline
        exact hstored item hitem
    refine exact_iff hadmitted fun r hr => ?_
    rcases Option.or_eq_some_iff.mp hr with hr | ⟨-, hr⟩
    · exact validRate_bounds hgiven r hr
    · exact hrate r hr

/-! ## Two invoices -/

namespace Demo

/-- A draft of one line, at a price. -/
def oneLine (unitPrice : Int) : CreateInvoiceDto where
  taxRatePctBp := some 750
  lineItems := [{ title := "Generator", quantity := 2, unitPrice := unitPrice }]

def vendor : Uuid := ⟨"00000000-0000-4000-8007-000000000001", by decide⟩

/-- A sale of its own, with a fee. -/
def generator (amount fee : Int) : Entrypoint :=
  .web vendor { title := "Generator", amount := amount, feeModel := some .buyerPays, feeAmount := some fee }

/-- Its draft. -/
def generatorDraft (amount fee : Int) : CreateDraftInput where
  sellerId := vendor
  title := "Generator"
  amount := amount
  origin := some .web
  feeModel := some .buyerPays
  feeAmount := some fee

end Demo

/-- Two pieces at 15 million naira are admitted, and no column holds their price; nor one the charge of an
amount that just fits, with a fee on top. -/
theorem amount_too_large : ((Demo.oneLine 1500000000).validate = true ∧
      ¬ Exact ((Demo.oneLine 1500000000).lineItems.map InvoiceLineDto.input)
        (Demo.oneLine 1500000000).taxRatePctBp) ∧
    (Demo.generator 2147483647 1).draft = some (Demo.generatorDraft 2147483647 1) ∧
      ¬ Storable (((Demo.generatorDraft 2147483647 1).create "link").row Demo.vendor) := by
  refine ⟨⟨by decide, fun hexact => ?_⟩, by decide, fun hstorable => ?_⟩
  · have hfits := (exact_iff (admitted_inputs (by decide)) (by decide)).mp hexact
    exact absurd hfits (by decide)
  · have hbounded := (storable_iff (by decide)).mp hstorable
    exact absurd hbounded.2.2.2 (by decide)

/-- Two pieces at 15 thousand naira. -/
theorem amount_exact :
    Exact ((Demo.oneLine 1500000).lineItems.map InvoiceLineDto.input)
      (Demo.oneLine 1500000).taxRatePctBp ∧
    Exact (editLines {} []) (editRate {} none) ∧
    Storable (((Demo.generatorDraft 3000000 4500).create "link").row Demo.vendor) := by
  obtain ⟨hinvoice, hedit, hsale, -⟩ :=
    amounts_exact (Demo.oneLine 1500000) {} [] none (Demo.generator 3000000 4500) "link" Demo.vendor ""
  exact ⟨(hinvoice (by decide)).mpr (by decide),
    (hedit (by decide) nofun nofun).mpr (by decide),
    (hsale (Demo.generatorDraft 3000000 4500) (by decide)).mpr
      ⟨by decide, by decide, by decide, by decide⟩⟩

end Meduman
