import Meduman.Core.Outline

/-!
# Only verified exact money protects

Every protection on the timeline names a charge. Paystack verified that charge as successful for
exactly the amount of the transaction, under a reference of one of its payments, and the reference
of a payment belongs to one transaction.

* `Protects` : a charge protected a transaction
* `reference_unique` : a charge belongs to one payment
* **`protected_exactly`** : what stands behind every protection, in every run
-/

set_option autoImplicit false

namespace Meduman

open Effect

/-- The timeline says that this charge reference protected the transaction. -/
def Protects (w : World) (reference : String) (transactionId : Uuid) : Prop :=
  ∃ e ∈ w.timeline, e.transactionId = transactionId ∧
    e.newState = TransactionStatus.paymentProtected.text ∧
    ∃ source, e.reason = some (protectReason reference source)

/-- Paystack's verification answered success for the exact charge of the transaction, under a
reference belonging or bound to one of its payments. -/
def ExactlyVerified (w : World) (reference : String) (t : Transaction) : Prop :=
  ∃ p ∈ w.payments, ∃ v ∈ w.paystack.verified, p.transactionId = t.id ∧ v.reference = reference ∧
    v.status = "success" ∧
    v.amount = t.amount + (if t.feeModel = .buyerPays then t.feeAmount else 0) ∧
    (p.providerReference = reference ∨ p.providerChargeReference = some reference)

variable {env : Env} {w : World}

/-- The reason recorded with a protection tells the reference. -/
theorem protectReason_injective {r r' : String} {source source' : TrustedPaymentSource}
    (h : protectReason r source = protectReason r' source') : r = r' := by
  have hrev := congrArg (fun s => s.toList.reverse) h
  cases source <;> cases source' <;>
    simp only [protectReason, TrustedPaymentSource.source, PaymentSource.text,
      String.toList_append, List.reverse_append] at hrev
  · exact String.toList_injective (by simpa using hrev)
  · simp at hrev
  · simp at hrev
  · exact String.toList_injective (by simpa using hrev)

/-- **A charge belongs to one payment.** Our references and Paystack's do not meet. -/
theorem reference_unique (hw : Ground w) {p q : Payment} {reference : String}
    (hp : p ∈ w.payments) (hq : q ∈ w.payments)
    (hpr : p.providerReference = reference ∨ p.providerChargeReference = some reference)
    (hqr : q.providerReference = reference ∨ q.providerChargeReference = some reference) :
    p = q := by
  have apart : ∀ a ∈ w.payments, ∀ b ∈ w.payments, a.providerReference = reference →
      b.providerChargeReference ≠ some reference := by
    intro a ha b hb hown hbound
    have hours := (hw.payments a ha).ours
    rw [hown, (hw.payments b hb).theirs _ hbound] at hours
    cases hours
  rcases hpr with hp' | hp' <;> rcases hqr with hq' | hq'
  · exact Table.eq_of_clash hp hq (by simp [Constrained.clash, hp', hq'])
  · exact absurd hq' (apart p hp q hq hp')
  · exact absurd hp' (apart q hq p hp hq')
  · exact Table.eq_of_clash hp hq (by simp [Constrained.clash, hp', hq'])

/-- What stands behind a protection on the timeline. -/
theorem exactlyVerified_of_protected (hw : Ground w) {e : TimelineEvent} (he : e ∈ w.timeline)
    (hnew : e.newState = TransactionStatus.paymentProtected.text) :
    ∃ t ∈ w.transactions, ∃ reference, t.id = e.transactionId ∧
      Protects w reference t.id ∧ ExactlyVerified w reference t := by
  obtain ⟨p, v, source, ⟨hp, hv, hsucc, ham, href⟩, htx, hreason⟩ := hw.timeline e he hnew
  obtain ⟨t, ht, hid, hcharge⟩ := (hw.payments p hp).transaction
  refine ⟨t, ht, v.reference, hid.trans htx, ⟨e, he, ?_, hnew, source, hreason⟩,
    p, hp, v, hv, hid.symm, rfl, hsucc, ?_, href⟩
  · rw [hid, htx]
  · rw [ham, hcharge, chargeAmountFor]

/-- **A charge protects one transaction.** -/
theorem protects_unique (hw : Ground w) {reference : String} {a b : Uuid}
    (ha : Protects w reference a) (hb : Protects w reference b) : a = b := by
  obtain ⟨e, he, hea, hnew, source, hreason⟩ := ha
  obtain ⟨e', he', heb, hnew', source', hreason'⟩ := hb
  obtain ⟨p, v, s, ⟨hp, -, -, -, href⟩, htx, hr⟩ := hw.timeline e he hnew
  obtain ⟨p', v', s', ⟨hp', -, -, -, href'⟩, htx', hr'⟩ := hw.timeline e' he' hnew'
  have hv : v.reference = reference :=
    protectReason_injective (Option.some.inj (hr.symm.trans hreason))
  have hv' : v'.reference = reference :=
    protectReason_injective (Option.some.inj (hr'.symm.trans hreason'))
  rw [hv] at href
  rw [hv'] at href'
  have heq := reference_unique hw hp hp' href href'
  rw [← hea, ← heb, ← htx, ← htx', heq]

/-- **Only verified exact money protects.** In every run: a protected transaction has a protection on
its timeline; behind every protection is a charge Paystack verified for the exact amount under a
reference of one of the transaction's payments; and one charge protects one transaction. -/
theorem protected_exactly {x : Config (core env)} (hx : Reachable env Guard.free x) :
    (∀ t ∈ World.transactions x.world, t.status = .paymentProtected →
      ∃ reference, Protects x.world reference t.id ∧ ExactlyVerified x.world reference t) ∧
    (∀ e ∈ World.timeline x.world, e.newState = TransactionStatus.paymentProtected.text →
      ∃ t ∈ World.transactions x.world, ∃ reference, t.id = e.transactionId ∧
        Protects x.world reference t.id ∧ ExactlyVerified x.world reference t) ∧
    ∀ reference a b, Protects x.world reference a → Protects x.world reference b → a = b := by
  have hw := hx.ground
  refine ⟨fun t ht hst => ?_, fun e he hnew => exactlyVerified_of_protected hw he hnew,
    fun reference a b ha hb => protects_unique hw ha hb⟩
  obtain ⟨e, he, hid, hnew⟩ := hw.transactions t ht (by rw [hst]; rfl)
  obtain ⟨t', ht', reference, hid', hprot, hver⟩ := exactlyVerified_of_protected hw he hnew
  have heq : t' = t := Table.eq_of_clash ht' ht (by simp [Constrained.clash, hid', hid])
  rw [heq] at hprot hver
  exact ⟨reference, hprot, hver⟩

def Demo.transactionStatuses (w : World) : List TransactionStatus :=
  w.transactions.rows.map Transaction.status

set_option maxRecDepth 20000 in
/-- A sale verified for its thousand kobo is protected by that charge. -/
theorem protected_exactly_sale : ∃ x : Config (core Demo.silent), Reachable _ Guard.free x ∧
    Demo.transactionStatuses x.world = [.paymentProtected] ∧
    ∃ t ∈ World.transactions x.world, ∃ reference, Protects x.world reference t.id ∧
      ExactlyVerified x.world reference t := by
  have hrun : ((Config.run Guard.free (Demo.checkout Demo.silent ++
      (Demo.delivery Demo.silent).take 6) ⟨World.initial, []⟩).map fun x =>
        decide (Demo.transactionStatuses x.world = [.paymentProtected])) = some true := by decide
  obtain ⟨x, hx, htest⟩ := reachable_of_run hrun
  have hprot := of_decide_eq_true htest
  obtain ⟨t, ht, hst⟩ := (Table.of_map_eq_singleton hprot).1
  exact ⟨x, hx, hprot, t, ht, (protected_exactly hx).1 t ht hst⟩

end Meduman
