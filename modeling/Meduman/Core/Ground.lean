import Meduman.Core.Promise

/-!
# What holds in every world

Rows are never removed and their identifying columns never change; every row is grounded in others:
a payout in its transaction, a transfer in its payout, a payment in its transaction, a protection in
a verified charge.

* `Grows` : the relation no step leaves
* `PayoutGround`, `TransferGround`, `PaymentGround`, `ProtectedGround` : how a row is grounded
* `Ground` : every row is
-/

set_option autoImplicit false

namespace Meduman

open Effect

/-! ## Growth -/

/-- A later version of a transaction. -/
structure Transaction.Later (t t' : Transaction) : Prop where
  id : t'.id = t.id
  amount : t'.amount = t.amount
  feeModel : t'.feeModel = t.feeModel
  feeAmount : t'.feeAmount = t.feeAmount
  released : t.status.released = true → t'.status.released = true

/-- A later version of a payment. -/
structure Payment.Later (p p' : Payment) : Prop where
  id : p'.id = p.id
  transactionId : p'.transactionId = p.transactionId
  providerReference : p'.providerReference = p.providerReference
  amount : p'.amount = p.amount
  providerChargeReference : ∀ r, p.providerChargeReference = some r →
    p'.providerChargeReference = some r

/-- A later version of a payout. -/
structure Payout.Later (p p' : Payout) : Prop where
  id : p'.id = p.id
  transactionId : p'.transactionId = p.transactionId
  idempotencyKey : p'.idempotencyKey = p.idempotencyKey
  amount : p'.amount = p.amount

/-- A later version of a transfer: once failed or reversed it stays so, and that it succeeded is
not forgotten. -/
structure Transfer.Later (t t' : Transfer) : Prop where
  reference : t'.reference = t.reference
  transferCode : t'.transferCode = t.transferCode
  reason : t'.reason = t.reason
  amount : t'.amount = t.amount
  settled : t.settled = true → t'.settled = true
  terminal : t.status = .failed ∨ t.status = .reversed → t' = t

theorem Transaction.Later.refl (t : Transaction) : t.Later t := ⟨rfl, rfl, rfl, rfl, fun h => h⟩

theorem Transaction.Later.trans {a b c : Transaction} (hab : a.Later b) (hbc : b.Later c) :
    a.Later c where
  id := hbc.id.trans hab.id
  amount := hbc.amount.trans hab.amount
  feeModel := hbc.feeModel.trans hab.feeModel
  feeAmount := hbc.feeAmount.trans hab.feeAmount
  released := fun h => hbc.released (hab.released h)

theorem Payment.Later.refl (p : Payment) : p.Later p := ⟨rfl, rfl, rfl, rfl, fun _ h => h⟩

theorem Payment.Later.trans {a b c : Payment} (hab : a.Later b) (hbc : b.Later c) :
    a.Later c where
  id := hbc.id.trans hab.id
  transactionId := hbc.transactionId.trans hab.transactionId
  providerReference := hbc.providerReference.trans hab.providerReference
  amount := hbc.amount.trans hab.amount
  providerChargeReference := fun r h =>
    hbc.providerChargeReference r (hab.providerChargeReference r h)

theorem Payout.Later.refl (p : Payout) : p.Later p := ⟨rfl, rfl, rfl, rfl⟩

theorem Payout.Later.trans {a b c : Payout} (hab : a.Later b) (hbc : b.Later c) : a.Later c where
  id := hbc.id.trans hab.id
  transactionId := hbc.transactionId.trans hab.transactionId
  idempotencyKey := hbc.idempotencyKey.trans hab.idempotencyKey
  amount := hbc.amount.trans hab.amount

theorem Transfer.Later.refl (t : Transfer) : t.Later t := ⟨rfl, rfl, rfl, rfl, fun h => h, fun _ => rfl⟩

theorem Transfer.Later.trans {a b c : Transfer} (hab : a.Later b) (hbc : b.Later c) :
    a.Later c where
  reference := hbc.reference.trans hab.reference
  transferCode := hbc.transferCode.trans hab.transferCode
  reason := hbc.reason.trans hab.reason
  amount := hbc.amount.trans hab.amount
  settled := fun h => hbc.settled (hab.settled h)
  terminal := fun h => by
    have hb := hab.terminal h
    subst hb
    exact hbc.terminal h

/-- Every row of `u` has a later version in `w`. -/
structure Grows (u w : World) : Prop where
  transactions : ∀ t ∈ u.transactions, ∃ t' ∈ w.transactions, t.Later t'
  payments : ∀ p ∈ u.payments, ∃ p' ∈ w.payments, p.Later p'
  payouts : ∀ p ∈ u.payouts, ∃ p' ∈ w.payouts, p.Later p'
  transfers : ∀ t ∈ u.paystack.transfers, ∃ t' ∈ w.paystack.transfers, t.Later t'
  charges : u.paystack.charges ⊆ w.paystack.charges
  verified : u.paystack.verified ⊆ w.paystack.verified
  timeline : u.timeline ⊆ w.timeline

theorem Grows.refl (w : World) : Grows w w where
  transactions t ht := ⟨t, ht, .refl t⟩
  payments p hp := ⟨p, hp, .refl p⟩
  payouts p hp := ⟨p, hp, .refl p⟩
  transfers t ht := ⟨t, ht, .refl t⟩
  charges := List.Subset.refl _
  verified := List.Subset.refl _
  timeline := List.Subset.refl _

theorem Grows.trans {u v w : World} (huv : Grows u v) (hvw : Grows v w) : Grows u w where
  transactions t ht := by
    obtain ⟨t', ht', h⟩ := huv.transactions t ht
    obtain ⟨t'', ht'', h'⟩ := hvw.transactions t' ht'
    exact ⟨t'', ht'', h.trans h'⟩
  payments p hp := by
    obtain ⟨p', hp', h⟩ := huv.payments p hp
    obtain ⟨p'', hp'', h'⟩ := hvw.payments p' hp'
    exact ⟨p'', hp'', h.trans h'⟩
  payouts p hp := by
    obtain ⟨p', hp', h⟩ := huv.payouts p hp
    obtain ⟨p'', hp'', h'⟩ := hvw.payouts p' hp'
    exact ⟨p'', hp'', h.trans h'⟩
  transfers t ht := by
    obtain ⟨t', ht', h⟩ := huv.transfers t ht
    obtain ⟨t'', ht'', h'⟩ := hvw.transfers t' ht'
    exact ⟨t'', ht'', h.trans h'⟩
  charges := List.Subset.trans huv.charges hvw.charges
  verified := List.Subset.trans huv.verified hvw.verified
  timeline := List.Subset.trans huv.timeline hvw.timeline

/-! ## Grounded rows -/

/-- A transfer of this transaction under this reference is at Paystack. -/
def HasTransfer (w : World) (transactionId : Uuid) (reference : String) : Prop :=
  ∃ t ∈ w.paystack.transfers, t.reference = reference ∧ t.reason = transferReason transactionId

structure PayoutGround (w : World) (p : Payout) : Prop where
  key : p.idempotencyKey = releaseIdempotencyKey p.transactionId
  transaction : ∃ t ∈ w.transactions, t.id = p.transactionId ∧ t.status.released = true ∧
    p.amount = sellerSettlement t.amount t.feeModel t.feeAmount
  reference : ∀ r, p.providerTransferReference = some r → HasTransfer w p.transactionId r
  code : ∀ code, p.providerTransferCode = some code → ∃ t ∈ w.paystack.transfers,
    t.transferCode = code ∧ t.reason = transferReason p.transactionId
  failed : p.status = .failed ∨ p.status = .reversed → ∃ t ∈ w.paystack.transfers,
    t.reference = p.idempotencyKey ∧ (t.status = .failed ∨ t.status = .reversed)

structure TransferGround (w : World) (t : Transfer) : Prop where
  payout : ∃ p ∈ w.payouts, t.reason = transferReason p.transactionId ∧ t.amount = p.amount ∧
    IsReference p.idempotencyKey t.reference ∧
    ∃ t₀ ∈ w.paystack.transfers, t₀.reference = p.idempotencyKey
  unsettled : t.status = .pending ∨ t.status = .failed → t.settled = false
  settled : t.status = .success → t.settled = true

structure PaymentGround (w : World) (p : Payment) : Prop where
  transaction : ∃ t ∈ w.transactions, t.id = p.transactionId ∧ p.amount = chargeAmountFor t
  ours : isOurReference p.providerReference = true
  theirs : ∀ r, p.providerChargeReference = some r → isOurReference r = false

/-- The charge of a payment, verified for its amount under one of its references. -/
def Collected (w : World) (p : Payment) (v : VerifyTransactionResult) : Prop :=
  p ∈ w.payments ∧ v ∈ w.paystack.verified ∧ v.status = "success" ∧ v.amount = p.amount ∧
    (p.providerReference = v.reference ∨ p.providerChargeReference = some v.reference)

/-- A protection on the timeline names the verified charge behind it. -/
def ProtectedGround (w : World) (e : TimelineEvent) : Prop :=
  e.newState = TransactionStatus.paymentProtected.text →
    ∃ p v source, Collected w p v ∧ p.transactionId = e.transactionId ∧
      e.reason = some (protectReason v.reference source)

/-- A funded transaction was protected. -/
def FundedGround (w : World) (t : Transaction) : Prop :=
  t.status.funded = true → ∃ e ∈ w.timeline, e.transactionId = t.id ∧
    e.newState = TransactionStatus.paymentProtected.text

/-- **The invariant.** -/
structure Ground (w : World) : Prop where
  payouts : ∀ p ∈ w.payouts, PayoutGround w p
  transfers : ∀ t ∈ w.paystack.transfers, TransferGround w t
  distinct : w.paystack.transfers.Pairwise fun a b =>
    a.reference ≠ b.reference ∧ a.transferCode ≠ b.transferCode
  payments : ∀ p ∈ w.payments, PaymentGround w p
  charges : ∀ r ∈ w.paystack.charges, isOurReference r = true →
    ∃ p ∈ w.payments, p.providerReference = r
  timeline : ∀ e ∈ w.timeline, ProtectedGround w e
  transactions : ∀ t ∈ w.transactions, FundedGround w t

/-! ## Grounds persist -/

variable {u w : World}

theorem HasTransfer.mono {transactionId : Uuid} {reference : String}
    (h : HasTransfer u transactionId reference) (hg : Grows u w) :
    HasTransfer w transactionId reference := by
  obtain ⟨t, ht, href, hreason⟩ := h
  obtain ⟨t', ht', hl⟩ := hg.transfers t ht
  exact ⟨t', ht', hl.reference.trans href, hl.reason.trans hreason⟩

theorem PayoutGround.mono {p : Payout} (h : PayoutGround u p) (hg : Grows u w) :
    PayoutGround w p where
  key := h.key
  transaction := by
    obtain ⟨t, ht, hid, hrel, ham⟩ := h.transaction
    obtain ⟨t', ht', hl⟩ := hg.transactions t ht
    refine ⟨t', ht', hl.id.trans hid, hl.released hrel, ?_⟩
    rw [hl.amount, hl.feeModel, hl.feeAmount, ham]
  reference r hr := (h.reference r hr).mono hg
  code code hc := by
    obtain ⟨t, ht, hcode, hreason⟩ := h.code code hc
    obtain ⟨t', ht', hl⟩ := hg.transfers t ht
    exact ⟨t', ht', hl.transferCode.trans hcode, hl.reason.trans hreason⟩
  failed hst := by
    obtain ⟨t, ht, href, hover⟩ := h.failed hst
    obtain ⟨t', ht', hl⟩ := hg.transfers t ht
    rw [hl.terminal hover] at ht'
    exact ⟨t, ht', href, hover⟩

theorem TransferGround.mono {t : Transfer} (h : TransferGround u t) (hg : Grows u w) :
    TransferGround w t where
  payout := by
    obtain ⟨p, hp, hreason, ham, href, t₀, ht₀, href₀⟩ := h.payout
    obtain ⟨p', hp', hl⟩ := hg.payouts p hp
    obtain ⟨t', ht', hl'⟩ := hg.transfers t₀ ht₀
    refine ⟨p', hp', ?_, ham.trans hl.amount.symm, ?_, t', ht', ?_⟩
    · rw [hl.transactionId]; exact hreason
    · rw [hl.idempotencyKey]; exact href
    · rw [hl'.reference, hl.idempotencyKey]; exact href₀
  unsettled := h.unsettled
  settled := h.settled

theorem PaymentGround.mono {p : Payment} (h : PaymentGround u p) (hg : Grows u w) :
    PaymentGround w p where
  transaction := by
    obtain ⟨t, ht, hid, ham⟩ := h.transaction
    obtain ⟨t', ht', hl⟩ := hg.transactions t ht
    refine ⟨t', ht', hl.id.trans hid, ?_⟩
    rw [chargeAmountFor, hl.amount, hl.feeModel, hl.feeAmount, ham, chargeAmountFor]
  ours := h.ours
  theirs := h.theirs

theorem ProtectedGround.mono {e : TimelineEvent} (h : ProtectedGround u e) (hg : Grows u w) :
    ProtectedGround w e := by
  intro hst
  obtain ⟨p, v, source, ⟨hp, hv, hsucc, ham, href⟩, htx, hreason⟩ := h hst
  obtain ⟨p', hp', hl⟩ := hg.payments p hp
  refine ⟨p', v, source, ⟨hp', hg.verified hv, hsucc, ham.trans hl.amount.symm, ?_⟩,
    hl.transactionId.trans htx, hreason⟩
  exact href.imp (fun h => hl.providerReference.trans h) fun h => hl.providerChargeReference _ h

theorem FundedGround.mono {t : Transaction} (h : FundedGround u t) (hg : Grows u w) :
    FundedGround w t := by
  intro hst
  obtain ⟨e, he, hid, hnew⟩ := h hst
  exact ⟨e, hg.timeline he, hid, hnew⟩

theorem charge_mono {r : String} (h : ∃ p ∈ u.payments, p.providerReference = r)
    (hg : Grows u w) : ∃ p ∈ w.payments, p.providerReference = r := by
  obtain ⟨p, hp, hr⟩ := h
  obtain ⟨p', hp', hl⟩ := hg.payments p hp
  exact ⟨p', hp', hl.providerReference.trans hr⟩

theorem ground_initial : Ground World.initial where
  payouts p hp := absurd hp (Table.not_mem_empty p)
  transfers _ ht := absurd ht List.not_mem_nil
  distinct := .nil
  payments p hp := absurd hp (Table.not_mem_empty p)
  charges _ hr := absurd hr List.not_mem_nil
  timeline _ he := absurd he List.not_mem_nil
  transactions t ht := absurd ht (Table.not_mem_empty t)

/-! ## Composed keys -/

theorem releaseIdempotencyKey_injective {a b : Uuid}
    (h : releaseIdempotencyKey a = releaseIdempotencyKey b) : a = b :=
  Uuid.ext (by simpa [releaseIdempotencyKey] using h)

theorem transferReason_injective {a b : Uuid} (h : transferReason a = transferReason b) : a = b :=
  Uuid.ext (by simpa [transferReason] using h)

/-- The colon after the identifier tells a retry's reference from every key. -/
theorem retryReference_ne (a b : Uuid) (n : Nat) :
    retryReference (releaseIdempotencyKey a) n ≠ releaseIdempotencyKey b := by
  intro h
  have htext : a.text ++ ":r" ++ toString n = b.text := by
    simpa [retryReference, releaseIdempotencyKey, String.append_assoc] using h
  have hmem : ':' ∈ (a.text ++ ":r" ++ toString n).toList := by
    simp [String.toList_append]
  rw [htext] at hmem
  exact b.colon_notMem hmem

/-- What stands before the first occurrence of a character is determined. -/
theorem eq_of_append_cons {c : Char} {x y p q : List Char} (hx : c ∉ x) (hy : c ∉ y)
    (h : x ++ c :: p = y ++ c :: q) : x = y := by
  have before : ∀ z l : List Char, c ∉ z → (z ++ c :: l).takeWhile (· ≠ c) = z := by
    intro z l hz
    rw [List.takeWhile_append_of_pos (fun a ha => by
      simpa using fun hac : a = c => hz (hac ▸ ha))]
    simp
  rw [← before x p hx, h, before y q hy]

/-- A retry's reference names the transaction it is for. -/
theorem retryReference_injective {a b : Uuid} {m n : Nat}
    (h : retryReference (releaseIdempotencyKey a) m = retryReference (releaseIdempotencyKey b) n) :
    a = b := by
  have htext : a.text.toList ++ (':' :: 'r' :: (toString m).toList) =
      b.text.toList ++ (':' :: 'r' :: (toString n).toList) := by
    have h' := congrArg String.toList h
    simpa [retryReference, releaseIdempotencyKey, String.toList_append] using h'
  exact Uuid.ext (String.toList_injective
    (eq_of_append_cons a.colon_notMem b.colon_notMem htext))

/-- The references of two transactions' payouts are different. -/
theorem isReference_injective {a b : Uuid} {r : String}
    (ha : IsReference (releaseIdempotencyKey a) r) (hb : IsReference (releaseIdempotencyKey b) r) :
    a = b := by
  rcases ha with rfl | ⟨m, rfl⟩ <;> rcases hb with hb | ⟨n, hb⟩
  · exact releaseIdempotencyKey_injective hb
  · exact absurd hb.symm (retryReference_ne _ _ _)
  · exact absurd hb (retryReference_ne _ _ _)
  · exact retryReference_injective hb

end Meduman
