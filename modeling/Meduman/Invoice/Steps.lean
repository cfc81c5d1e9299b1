import Meduman.Core.Does

/-!
# What one operation does to invoices

* `InvoiceChange`, `exec_invoices` : the changes an operation can make to the invoices
* `invoices_drift` : an account merge renames sellers
* `KeepsAmounts` : transactions keep their amount
* `lastInvoice`, `lastLines` : what a call read
-/

set_option autoImplicit false

namespace Meduman

open Effect

/-- Invoices with one identifier are one invoice. -/
theorem eq_of_id {t : Table Invoice} {i j : Invoice} (hi : i ∈ t) (hj : j ∈ t) (h : i.id = j.id) :
    i = j := Table.eq_of_clash hi hj (by simp [Constrained.clash, h])

/-- The changes an operation can make to the invoices. -/
inductive InvoiceChange : Op → World → World → Prop
  | frame {op : Op} {u w : World} (same : w.invoices = u.invoices) : InvoiceChange op u w
  | create {d : InvoiceCreate} {u w : World} {id : Uuid}
      (write : u.invoices.create (d.row id) = some w.invoices) :
      InvoiceChange (.invoiceCreate d) u w
  | update {id : Uuid} {d : InvoiceUpdate} {u w : World}
      (write : u.invoices.update (fun i => i.id == id) d.apply = some w.invoices) :
      InvoiceChange (.invoiceUpdate id d) u w
  | sent {id transactionId : Uuid} {number : String} {u w : World}
      (write : u.invoices.update (fun i => i.id == id && i.status == .draft)
        (fun i => { i with
          status := .sent, number := number, transactionId := some transactionId }) =
        some w.invoices) :
      InvoiceChange (.invoiceUpdateManySent id number transactionId) u w
  | viewed {id : Uuid} {u w : World}
      (write : u.invoices.update (fun i => i.id == id && i.status == .sent)
        (fun i => { i with status := .viewed }) = some w.invoices) :
      InvoiceChange (.invoiceUpdateManyViewed id) u w
  | overdue {now : Int} {u w : World}
      (write : u.invoices.update
        (fun i => (i.status == .sent || i.status == .viewed) && i.dueDate.any (· < now))
        (fun i => { i with status := .overdue }) = some w.invoices) :
      InvoiceChange (.invoiceUpdateManyOverdue now) u w
  | paid {transactionId : Uuid} {statuses : List InvoiceStatus} {u w : World}
      (write : u.invoices.update
        (fun i => i.transactionId == some transactionId && statuses.contains i.status)
        (fun i => { i with status := .paid }) = some w.invoices) :
      InvoiceChange (.invoiceUpdateManyPaid transactionId statuses) u w

variable {op : Op} {s : Supply} {u w : World}

/-- A write of another table. -/
theorem effect_invoices (s : Supply) (u : World) (op : Op) :
    InvoiceChange op u (effect s u op).2 := by
  cases op with
  | invoiceCreate d =>
      simp only [effect]
      split
      · split
        · exact .frame rfl
        · exact .create ‹_›
      · exact .frame rfl
  | invoiceUpdate id d =>
      simp only [effect, invoiceUpdate]
      split
      · exact .frame rfl
      · split
        · split
          · exact .frame rfl
          · exact .update ‹_›
        · exact .frame rfl
  | invoiceUpdateManySent id number transactionId =>
      simp only [effect, invoiceUpdateMany]
      split
      · exact .frame rfl
      · exact .sent ‹_›
  | invoiceUpdateManyViewed id =>
      simp only [effect, invoiceUpdateMany]
      split
      · exact .frame rfl
      · exact .viewed ‹_›
  | invoiceUpdateManyOverdue now =>
      simp only [effect, invoiceUpdateMany]
      split
      · exact .frame rfl
      · exact .overdue ‹_›
  | invoiceUpdateManyPaid transactionId statuses =>
      simp only [effect, invoiceUpdateManyPaid]
      split
      · exact .frame rfl
      · exact .paid ‹_›
  | commitTransition d =>
      rcases commitTransition_world d s u with heq | ⟨t, transactions, -, -, heq⟩
      · exact .frame (congrArg World.invoices heq)
      · exact .frame ((congrArg World.invoices heq).trans rfl)
  | paymentUpdate id d =>
      simp only [effect, paymentUpdate]
      split
      · exact .frame rfl
      · split <;> exact .frame rfl
  | payoutUpdate key d =>
      simp only [effect, payoutUpdate]
      split
      · exact .frame rfl
      · split <;> exact .frame rfl
  | disputeUpdate id d =>
      simp only [effect, disputeUpdate]
      split
      · exact .frame rfl
      · split <;> exact .frame rfl
  | transactionCreate d | paymentCreate d | payoutCreate d =>
      simp only [effect]
      split
      · split <;> exact .frame rfl
      · exact .frame rfl
  | invoiceCounterUpsert sellerId =>
      simp only [effect, invoiceCounterUpsert]
      split <;> split <;> exact .frame rfl
  | userUpdateRoleFlags _ _ | transactionUpdateBuyer _ _ | disputeCreate _
  | webhookEventCreate _ | webhookEventUpdate _ _ | initializeTransaction _ =>
      simp only [effect]
      split <;> exact .frame rfl
  | paymentBindCharge _ _ | initiateTransfer _ | enqueueRelease _
  | startReleaseJob _ | completeReleaseJob _ _ | failReleaseJob _ _ =>
      simp only [effect, paymentBindCharge, initiateTransfer, enqueueRelease, startReleaseJob,
        completeReleaseJob, failReleaseJob]
      split <;> exact .frame rfl
  | _ => exact .frame rfl

theorem exec_invoices {o : Outcome} {a : Except Err op.Ans} (he : exec op o u = some (a, w)) :
    InvoiceChange op u w := by
  rcases exec_cases he with ⟨rfl, -⟩ | ⟨s, -, rfl, -⟩
  · exact .frame rfl
  · exact effect_invoices s u op

/-- An account merge renames sellers; no other move of the platform touches invoices. -/
theorem invoices_drift {m : Move} (hm : platformDrift m u = some w) :
    w.invoices = u.invoices ∨ ∃ source target,
      u.invoices.update (fun _ => true)
        (fun i => { i with sellerId := i.sellerId.merged source target }) = some w.invoices := by
  cases m with
  | merge source target =>
      obtain ⟨_, _, invoices, _, -, -, write, -, rfl⟩ := drift_merge hm
      exact .inr ⟨source, target, write⟩
  | charge reference =>
      simp only [platformDrift, drift] at hm
      split at hm <;> cases hm
      exact .inl rfl
  | _ => cases hm; exact .inl rfl

/-! ## Amounts of transactions -/

/-- Transactions keep their amount. -/
def KeepsAmounts (u w : World) : Prop :=
  ∀ t ∈ u.transactions, ∃ t' ∈ w.transactions, t'.id = t.id ∧ t'.amount = t.amount

theorem KeepsAmounts.refl (w : World) : KeepsAmounts w w := fun t ht => ⟨t, ht, rfl, rfl⟩

theorem KeepsAmounts.trans {u v w : World} (huv : KeepsAmounts u v) (hvw : KeepsAmounts v w) :
    KeepsAmounts u w := by
  intro t ht
  obtain ⟨t', ht', hid, ha⟩ := huv t ht
  obtain ⟨t'', ht'', hid', ha'⟩ := hvw t' ht'
  exact ⟨t'', ht'', hid'.trans hid, ha'.trans ha⟩

theorem keepsAmounts_change (hc : Change op u w) : KeepsAmounts u w := by
  cases hc with
  | frame same => exact fun t ht => ⟨t, same.transactions ▸ ht, rfl, rfl⟩
  | transactionCreate write => exact Table.exists_create write fun _ => ⟨rfl, rfl⟩
  | transactionUpdateBuyer write =>
      exact Table.exists_update write (fun _ => ⟨rfl, rfl⟩) fun _ _ _ => ⟨rfl, rfl⟩
  | commit found write =>
      exact Table.exists_update write (fun _ => ⟨rfl, rfl⟩) fun _ _ _ => ⟨rfl, rfl⟩
  | _ => exact .refl _

theorem keepsAmounts_drift {m : Move} (hm : platformDrift m u = some w) : KeepsAmounts u w := by
  cases m with
  | merge source target =>
      obtain ⟨_, _, _, _, write, -, -, -, rfl⟩ := drift_merge hm
      exact Table.exists_update write (fun _ => ⟨rfl, rfl⟩) fun _ _ _ => ⟨rfl, rfl⟩
  | charge reference =>
      simp only [platformDrift, drift] at hm
      split at hm <;> cases hm
      exact .refl _
  | _ => cases hm; exact .refl _

/-! ## What a call read -/

/-- The invoice the call read last. -/
def lastInvoice : Hist → Option Invoice
  | [] => none
  | ⟨.invoiceFindUnique _, .ok i⟩ :: _ => i
  | _ :: h => lastInvoice h

/-- The lines the call read last. -/
def lastLines : Hist → Option (List InvoiceLineItem)
  | [] => none
  | ⟨.invoiceLineItemFindMany _, .ok lines⟩ :: _ => some lines
  | _ :: h => lastLines h

end Meduman
