import Meduman.Core.Outline

/-!
# Money conservation

What a buyer is charged, what the seller is paid, and the fee between them.

* `Conserves` : the platform keeps exactly its fee, and pays out no more than it collected
* `FeeBounded` : the bound on the fee this rests on
* **`conserves_iff`** : over every entrypoint, the one holds exactly when the other does
* `paid_of_ground` : the amounts the running system charges and pays are these
-/

set_option autoImplicit false

namespace Meduman

open Effect

/-- What the seller is paid for a transaction. -/
def settlementFor (t : Transaction) : Int := sellerSettlement t.amount t.feeModel t.feeAmount

/-- The charge covers the settlement, both are positive, and the fee is what lies between. -/
structure Conserves (t : Transaction) : Prop where
  charged : 0 < chargeAmountFor t
  paid : 0 < settlementFor t
  covered : settlementFor t ≤ chargeAmountFor t
  kept : chargeAmountFor t - settlementFor t = t.feeAmount
  fee : 0 ≤ t.feeAmount

/-- The fee of a draft is not negative, and below the amount when the seller bears it. -/
def FeeBounded (input : CreateDraftInput) : Prop :=
  0 ≤ input.feeAmount.getD 0 ∧
    (input.feeModel = some .sellerPays → input.feeAmount.getD 0 < input.amount)

/-- Either way the fee is borne, it is what lies between charge and settlement. -/
theorem charge_sub_settlement (t : Transaction) :
    chargeAmountFor t - settlementFor t = t.feeAmount := by
  unfold chargeAmountFor settlementFor sellerSettlement
  cases t.feeModel with
  | buyerPays =>
      rw [if_pos rfl]
      show t.amount + t.feeAmount - t.amount = t.feeAmount
      omega
  | sellerPays =>
      rw [if_neg (by decide)]
      show t.amount + 0 - (t.amount - t.feeAmount) = t.feeAmount
      omega

/-- **Every entrypoint admits positive amounts only.** -/
theorem amount_pos_of_draft {request : Entrypoint} {input : CreateDraftInput}
    (h : request.draft = some input) : 0 < input.amount := by
  cases request with
  | web sellerId dto =>
      simp only [Entrypoint.draft] at h
      split at h
      · rename_i hvalid
        cases h
        simp only [CreateTransactionDto.validate, Bool.and_eq_true, decide_eq_true_eq] at hvalid
        exact hvalid.2
      · cases h
  | v1 merchantId dto =>
      simp only [Entrypoint.draft] at h
      split at h
      · rename_i hvalid
        cases h
        simp only [CreateV1TransactionDto.validate, Bool.and_eq_true, decide_eq_true_eq] at hvalid
        exact hvalid.1.1.2
      · cases h
  | invoice sellerId row =>
      simp only [Entrypoint.draft] at h
      split at h
      · cases h
      · rename_i hrefused
        cases h
        exact Int.not_le.mp fun hle => hrefused (.inr hle)
  | chat userId draft text origin =>
      simp only [Entrypoint.draft] at h
      split at h
      · rename_i title amountKobo htitle hkobo
        cases h
        exact draft.positive amountKobo (Option.filter_eq_some_iff.mp hkobo).1
      · cases h

/-- A bounded fee leaves the seller something, and the platform nothing it did not collect. -/
theorem FeeBounded.conserves {input : CreateDraftInput} (hfee : FeeBounded input)
    (hpos : 0 < input.amount) (publicLinkId : String) (id : Uuid) :
    Conserves ((input.create publicLinkId).row id) := by
  have hkept := charge_sub_settlement ((input.create publicLinkId).row id)
  have hnonneg : 0 ≤ ((input.create publicLinkId).row id).feeAmount := hfee.1
  have hpaid : 0 < settlementFor ((input.create publicLinkId).row id) := by
    simp only [settlementFor, TransactionCreate.row, CreateDraftInput.create]
    cases hmodel : input.feeModel with
    | none => exact hpos
    | some model => cases model with
      | buyerPays => exact hpos
      | sellerPays => exact Int.sub_pos_of_lt (hfee.2 hmodel)
  exact ⟨by omega, hpaid, by omega, hkept, hnonneg⟩

/-- **Conservation.** A transaction an entrypoint admits conserves money exactly when its fee is
bounded. -/
theorem conserves_iff (request : Entrypoint) {input : CreateDraftInput}
    (h : request.draft = some input) (publicLinkId : String) (id : Uuid) :
    Conserves ((input.create publicLinkId).row id) ↔ FeeBounded input := by
  refine ⟨fun hc => ⟨hc.fee, fun hmodel => ?_⟩,
    fun hfee => hfee.conserves (amount_pos_of_draft h) publicLinkId id⟩
  have hpaid := hc.paid
  simp only [settlementFor, TransactionCreate.row, CreateDraftInput.create, hmodel,
    Option.getD_some, sellerSettlement] at hpaid
  exact Int.lt_of_sub_pos hpaid

/-- A draft of the web entrypoint whose fee exceeds the amount. -/
def overcharged : Entrypoint :=
  .web ⟨"00000000-0000-4000-8008-000000000001", by decide⟩
    { title := "Phone", amount := 100, feeModel := some .sellerPays, feeAmount := some 150 }

/-- The platform sends a transfer of minus fifty kobo for it. -/
theorem not_conserves : ¬ ∀ (request : Entrypoint) (input : CreateDraftInput)
    (publicLinkId : String) (id : Uuid), request.draft = some input →
      Conserves ((input.create publicLinkId).row id) := by
  intro hall
  have hpaid := (hall overcharged _ "link" ⟨"00000000-0000-4000-8008-000000000003", by decide⟩
    rfl).paid
  revert hpaid
  decide

/-- A fee of ten kobo out of a hundred. -/
theorem conserves_iff_web : Conserves ((CreateDraftInput.create
    { sellerId := ⟨"00000000-0000-4000-8008-000000000001", by decide⟩, title := "Phone",
      amount := 100, origin := some .web, feeModel := some .sellerPays, feeAmount := some 10 }
    "link").row ⟨"00000000-0000-4000-8008-000000000003", by decide⟩) :=
  (conserves_iff (.web ⟨"00000000-0000-4000-8008-000000000001", by decide⟩
    { title := "Phone", amount := 100, feeModel := some .sellerPays, feeAmount := some 10 })
    rfl "link" _).mpr ⟨by decide, fun _ => by decide⟩

/-- The entrypoints without a fee field always conserve money. -/
theorem conserves_of_feeless {request : Entrypoint} {input : CreateDraftInput}
    (h : request.draft = some input) (hweb : ∀ sellerId dto, request ≠ .web sellerId dto)
    (publicLinkId : String) (id : Uuid) :
    Conserves ((input.create publicLinkId).row id) := by
  have hfee : input.feeAmount = none := by
    cases request with
    | web sellerId dto => exact absurd rfl (hweb sellerId dto)
    | v1 merchantId dto =>
        simp only [Entrypoint.draft] at h
        split at h <;> cases h
        rfl
    | invoice sellerId row =>
        simp only [Entrypoint.draft] at h
        split at h <;> cases h
        rfl
    | chat userId draft text origin =>
        simp only [Entrypoint.draft] at h
        split at h <;> cases h
        rfl
  have hpos := amount_pos_of_draft h
  refine FeeBounded.conserves ⟨?_, fun _ => ?_⟩ hpos publicLinkId id
  · rw [hfee]; exact Int.le_refl 0
  · rw [hfee]; exact hpos

/-! ## The amounts the running system moves -/

/-- **What is charged and paid.** In every reachable world a payment charges, and a payout pays, the
amounts of its transaction; with a bounded fee the payout stays within the payment. -/
theorem paid_of_ground {w : World} (hw : Ground w) {t : Transaction} {p : Payment} {q : Payout}
    (ht : t ∈ w.transactions) (hp : p ∈ w.payments) (hpt : p.transactionId = t.id)
    (hq : q ∈ w.payouts) (hqt : q.transactionId = t.id) :
    p.amount = chargeAmountFor t ∧ q.amount = settlementFor t ∧
      (Conserves t → 0 < q.amount ∧ q.amount ≤ p.amount) := by
  obtain ⟨t₁, ht₁, hid₁, ham₁⟩ := (hw.payments p hp).transaction
  obtain ⟨t₂, ht₂, hid₂, -, ham₂⟩ := (hw.payouts q hq).transaction
  have h₁ : t₁ = t := Table.eq_of_clash ht₁ ht (by simp [Constrained.clash, hid₁, hpt])
  have h₂ : t₂ = t := Table.eq_of_clash ht₂ ht (by simp [Constrained.clash, hid₂, hqt])
  rw [h₁] at ham₁
  rw [h₂] at ham₂
  refine ⟨ham₁, ham₂, fun hc => ?_⟩
  rw [ham₁, ham₂]
  exact ⟨hc.paid, hc.covered⟩

end Meduman
