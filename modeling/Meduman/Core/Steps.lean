import Meduman.Model.System

/-!
# What one operation can do

Every invariant is derived from two facts about a step: how it changes the world, and what its
answer tells.

* `SameCore` : worlds that agree on the tables and the provider the invariants are about
* `Change`, `exec_change` : the changes an operation can make
* `Answered`, `exec_answered` : what an answer tells about the worlds around it
* `Possible` : the answers an operation can get in some world
-/

set_option autoImplicit false

namespace Meduman

open Effect

/-! ## Changes -/

/-- Agreement on everything the invariants are about. -/
structure SameCore (u w : World) : Prop where
  transactions : w.transactions = u.transactions
  payments : w.payments = u.payments
  payouts : w.payouts = u.payouts
  webhookEvents : w.webhookEvents = u.webhookEvents
  timeline : w.timeline = u.timeline
  paystack : w.paystack = u.paystack

theorem SameCore.refl (w : World) : SameCore w w := ⟨rfl, rfl, rfl, rfl, rfl, rfl⟩

theorem SameCore.trans {u v w : World} (huv : SameCore u v) (hvw : SameCore v w) : SameCore u w :=
  ⟨hvw.transactions.trans huv.transactions, hvw.payments.trans huv.payments,
    hvw.payouts.trans huv.payouts, hvw.webhookEvents.trans huv.webhookEvents,
    hvw.timeline.trans huv.timeline, hvw.paystack.trans huv.paystack⟩

/-- The row a commit flips. -/
def TransitionWrite.selects (d : TransitionWrite) (t : Transaction) : Bool :=
  t.id == d.transactionId && t.status == d.oldState

/-- The changes an operation can make to the world. -/
inductive Change : Op → World → World → Prop
  | frame {op : Op} {u w : World} (same : SameCore u w) : Change op u w
  | transactionCreate {d : TransactionCreate} {u : World} {id : Uuid} {t : Table Transaction}
      (write : u.transactions.create (d.row id) = some t) :
      Change (.transactionCreate d) u { u with transactions := t }
  | transactionUpdateBuyer {id buyerId : Uuid} {u : World} {t : Table Transaction}
      (write : u.transactions.update (fun t => t.id == id)
        (fun t => { t with buyerId := some buyerId }) = some t) :
      Change (.transactionUpdateBuyer id buyerId) u { u with transactions := t }
  | commit {d : TransitionWrite} {u w : World} {t : Transaction}
      (found : u.transactions.find d.selects = some t)
      (write : u.transactions.update d.selects (fun t => { t with status := d.newState }) =
        some w.transactions)
      (payments : w.payments = u.payments) (payouts : w.payouts = u.payouts)
      (webhookEvents : w.webhookEvents = u.webhookEvents)
      (timeline : w.timeline = u.timeline ++ [d.timeline]) (paystack : w.paystack = u.paystack) :
      Change (.commitTransition d) u w
  | paymentCreate {d : PaymentCreate} {u : World} {id : Uuid} {now : Int} {t : Table Payment}
      (write : u.payments.create (d.row id now) = some t) :
      Change (.paymentCreate d) u { u with payments := t }
  | paymentUpdate {id : Uuid} {d : PaymentUpdate} {u : World} {t : Table Payment}
      (write : u.payments.update (fun p => p.id == id) d.apply = some t) :
      Change (.paymentUpdate id d) u { u with payments := t }
  | paymentBindCharge {id : Uuid} {reference : String} {u : World} {t : Table Payment}
      (write : u.payments.update (fun p => p.id == id && p.providerChargeReference.isNone)
        (fun p => { p with providerChargeReference := some reference }) = some t) :
      Change (.paymentBindCharge id reference) u { u with payments := t }
  | payoutCreate {d : PayoutCreate} {u : World} {id : Uuid} {t : Table Payout}
      (write : u.payouts.create (d.row id) = some t) :
      Change (.payoutCreate d) u { u with payouts := t }
  | payoutUpdate {key : String} {d : PayoutUpdate} {u : World} {t : Table Payout}
      (write : u.payouts.update (fun p => p.idempotencyKey == key) d.apply = some t) :
      Change (.payoutUpdate key d) u { u with payouts := t }
  | webhookEventCreate {d : WebhookEventCreate} {u : World} {id : Uuid} {t : Table WebhookEvent}
      (write : u.webhookEvents.create (d.row id) = some t) :
      Change (.webhookEventCreate d) u { u with webhookEvents := t }
  | webhookEventUpdate {id : Uuid} {result : String} {u : World} {t : Table WebhookEvent}
      (write : u.webhookEvents.update (fun e => e.id == id)
        (fun e => { e with processingResult := some result }) = some t) :
      Change (.webhookEventUpdate id result) u { u with webhookEvents := t }
  | initializeTransaction {i : InitializeTransactionInput} {u : World} :
      Change (.initializeTransaction i) u
        { u with paystack := { u.paystack with charges := u.paystack.charges ++ [i.reference] } }
  | verifyTransaction {reference : String} {v : VerifyTransactionResult} {u : World}
      (asked : v.reference = reference)
      (steady : ∀ v' ∈ u.paystack.verified, v'.reference = reference → v'.status = "success" →
        v.status = "success") :
      Change (.verifyTransaction reference) u
        { u with paystack := { u.paystack with verified := u.paystack.verified ++ [v] } }
  | initiateTransfer {i : InitiateTransferInput} {t : Transfer} {u : World}
      (unused : ∀ t ∈ u.paystack.transfers, t.reference ≠ i.reference)
      (code : ∀ t' ∈ u.paystack.transfers, t'.transferCode ≠ t.transferCode)
      (sent : t = ⟨i.reference, t.transferCode, i.amount, i.recipient, i.reason, .pending, false⟩) :
      Change (.initiateTransfer i) u
        { u with paystack := { u.paystack with transfers := u.paystack.transfers ++ [t] } }

theorem change_commit (d : TransitionWrite) (s : Supply) (u : World) :
    Change (.commitTransition d) u (commitTransition d s u).2 := by
  unfold commitTransition
  split
  · exact .frame (.refl u)
  · rename_i t hfind
    split
    · exact .frame (.refl u)
    · rename_i transactions hwrite
      split
      · exact .commit hfind hwrite rfl rfl rfl rfl rfl
      · exact .commit hfind hwrite rfl rfl rfl rfl rfl

theorem change_initiateTransfer {i : InitiateTransferInput} {s : Supply} {u : World}
    (hfit : (Op.initiateTransfer i).fits s u = true) :
    Change (.initiateTransfer i) u (initiateTransfer i s u).2 := by
  unfold initiateTransfer
  split
  · exact .frame (.refl u)
  · rename_i hnew
    refine .initiateTransfer (fun t ht => ?_) (fun t ht => ?_) rfl
    · intro heq
      exact hnew (List.any_eq_true.mpr ⟨t, ht, by simpa using heq⟩)
    · simpa using List.all_eq_true.mp hfit t ht

/-! The operations on disputes, invoices and release jobs leave the core as it is. -/

theorem sameCore_disputeUpdate (id : Uuid) (d : DisputeUpdate) (u : World) :
    SameCore u (disputeUpdate id d u).2 := by
  unfold disputeUpdate
  split
  · exact .refl u
  · split <;> exact ⟨rfl, rfl, rfl, rfl, rfl, rfl⟩

theorem sameCore_invoiceUpdate (id : Uuid) (d : InvoiceUpdate) (u : World) :
    SameCore u (invoiceUpdate id d u).2 := by
  unfold invoiceUpdate
  split
  · exact .refl u
  · split
    · split <;> exact ⟨rfl, rfl, rfl, rfl, rfl, rfl⟩
    · exact .refl u

theorem sameCore_invoiceUpdateMany (selects : Invoice → Bool) (f : Invoice → Invoice) (u : World) :
    SameCore u (invoiceUpdateMany selects f u).2 := by
  unfold invoiceUpdateMany
  split <;> exact ⟨rfl, rfl, rfl, rfl, rfl, rfl⟩

theorem sameCore_invoiceCounterUpsert (sellerId : Uuid) (u : World) :
    SameCore u (invoiceCounterUpsert sellerId u).2 := by
  unfold invoiceCounterUpsert
  split <;> split <;> exact ⟨rfl, rfl, rfl, rfl, rfl, rfl⟩

theorem sameCore_enqueueRelease (id : Uuid) (u : World) : SameCore u (enqueueRelease id u) := by
  unfold enqueueRelease
  split <;> exact ⟨rfl, rfl, rfl, rfl, rfl, rfl⟩

theorem sameCore_startReleaseJob (id : Uuid) (u : World) :
    SameCore u (startReleaseJob id u).2 := by
  unfold startReleaseJob
  split <;> exact ⟨rfl, rfl, rfl, rfl, rfl, rfl⟩

theorem sameCore_completeReleaseJob (id : Uuid) (start : Nat) (u : World) :
    SameCore u (completeReleaseJob id start u).2 := by
  unfold completeReleaseJob
  split <;> exact ⟨rfl, rfl, rfl, rfl, rfl, rfl⟩

theorem sameCore_failReleaseJob (id : Uuid) (start : Nat) (u : World) :
    SameCore u (failReleaseJob id start u).2 := by
  unfold failReleaseJob
  split <;> exact ⟨rfl, rfl, rfl, rfl, rfl, rfl⟩

theorem effect_change {op : Op} {s : Supply} {u : World} (hfit : op.fits s u = true) :
    Change op u (effect s u op).2 := by
  cases op with
  | disputeCreate d =>
      simp only [effect]
      split <;> exact .frame ⟨rfl, rfl, rfl, rfl, rfl, rfl⟩
  | disputeUpdate id d => exact .frame (sameCore_disputeUpdate id d u)
  | invoiceCreate d =>
      simp only [effect]
      split
      · split <;> exact .frame ⟨rfl, rfl, rfl, rfl, rfl, rfl⟩
      · exact .frame (.refl u)
  | invoiceUpdate id d => exact .frame (sameCore_invoiceUpdate id d u)
  | invoiceUpdateManySent id number transactionId =>
      exact .frame (sameCore_invoiceUpdateMany _ _ u)
  | invoiceUpdateManyViewed id => exact .frame (sameCore_invoiceUpdateMany _ _ u)
  | invoiceUpdateManyOverdue now => exact .frame (sameCore_invoiceUpdateMany _ _ u)
  | invoiceCounterUpsert sellerId => exact .frame (sameCore_invoiceCounterUpsert sellerId u)
  | enqueueRelease id => exact .frame (sameCore_enqueueRelease id u)
  | startReleaseJob id => exact .frame (sameCore_startReleaseJob id u)
  | completeReleaseJob id start => exact .frame (sameCore_completeReleaseJob id start u)
  | failReleaseJob id start => exact .frame (sameCore_failReleaseJob id start u)
  | commitTransition d => exact change_commit d s u
  | initiateTransfer i => exact change_initiateTransfer hfit
  | transactionCreate d =>
      simp only [effect]
      split
      · split
        · exact .frame (.refl u)
        · exact .transactionCreate ‹_›
      · exact .frame (.refl u)
  | transactionUpdateBuyer id buyerId =>
      simp only [effect]
      split
      · exact .frame (.refl u)
      · exact .transactionUpdateBuyer ‹_›
  | paymentCreate d =>
      simp only [effect]
      split
      · split
        · exact .frame (.refl u)
        · exact .paymentCreate ‹_›
      · exact .frame (.refl u)
  | paymentUpdate id d =>
      simp only [effect, paymentUpdate]
      split
      · exact .frame (.refl u)
      · split
        · exact .frame (.refl u)
        · exact .paymentUpdate ‹_›
  | paymentBindCharge id reference =>
      simp only [effect, paymentBindCharge]
      split
      · exact .frame (.refl u)
      · exact .paymentBindCharge ‹_›
  | payoutCreate d =>
      simp only [effect]
      split
      · split
        · exact .frame (.refl u)
        · exact .payoutCreate ‹_›
      · exact .frame (.refl u)
  | payoutUpdate key d =>
      simp only [effect, payoutUpdate]
      split
      · exact .frame (.refl u)
      · split
        · exact .frame (.refl u)
        · exact .payoutUpdate ‹_›
  | webhookEventCreate d =>
      simp only [effect]
      split
      · exact .frame (.refl u)
      · exact .webhookEventCreate ‹_›
  | webhookEventUpdate id result =>
      simp only [effect]
      split
      · exact .frame (.refl u)
      · exact .webhookEventUpdate ‹_›
  | initializeTransaction i =>
      simp only [effect]
      split
      · exact .frame (.refl u)
      · exact .initializeTransaction
  | verifyTransaction reference =>
      refine .verifyTransaction rfl fun v hv href hst => ?_
      rcases Bool.or_eq_true_iff.mp hfit with hall | hs
      · have hno := List.all_eq_true.mp hall v hv
        simp [href, hst] at hno
      · simpa using hs
  | userUpdateRoleFlags id roleFlags =>
      simp only [effect]
      split <;> exact .frame ⟨rfl, rfl, rfl, rfl, rfl, rfl⟩
  | invoiceUpdateManyPaid transactionId statuses =>
      simp only [effect, invoiceUpdateManyPaid]
      split <;> exact .frame ⟨rfl, rfl, rfl, rfl, rfl, rfl⟩
  | _ => exact .frame ⟨rfl, rfl, rfl, rfl, rfl, rfl⟩

/-- **Outcome inversion.** An operation fails with nothing done, or had its effect and answers it or
an error. -/
theorem exec_cases {op : Op} {o : Outcome} {u w : World} {a : Except Err op.Ans}
    (h : exec op o u = some (a, w)) :
    (w = u ∧ ∃ e, a = .error e) ∨
      ∃ s, op.fits s u = true ∧ w = (effect s u op).2 ∧
        (a = (effect s u op).1 ∨ ∃ e, a = .error e) := by
  cases o with
  | served s =>
      simp only [exec] at h
      split at h
      · rw [Option.some.injEq] at h
        exact .inr ⟨s, ‹_›, by rw [h], .inl (by rw [h])⟩
      · cases h
  | lost s message =>
      simp only [exec] at h
      split at h
      · rename_i hs
        cases h
        exact .inr ⟨s, (Bool.and_eq_true_iff.mp hs).2, rfl, .inr ⟨_, rfl⟩⟩
      · cases h
  | failed message =>
      simp only [exec] at h
      split at h
      · cases h
        exact .inl ⟨rfl, _, rfl⟩
      · cases h

/-- An operation that did not fail had its effect. -/
theorem exec_effect {op : Op} {o : Outcome} {u w : World} {a : Except Err op.Ans}
    (h : exec op o u = some (a, w)) (hfail : ∀ message, o ≠ .failed message) :
    ∃ s, op.fits s u = true ∧ w = (effect s u op).2 := by
  cases o with
  | served s =>
      simp only [exec] at h
      split at h
      · rw [Option.some.injEq] at h
        exact ⟨s, ‹_›, by rw [h]⟩
      · cases h
  | lost s message =>
      simp only [exec] at h
      split at h
      · rename_i hs
        cases h
        exact ⟨s, (Bool.and_eq_true_iff.mp hs).2, rfl⟩
      · cases h
  | failed message => exact absurd rfl (hfail message)

/-- **Change inversion.** -/
theorem exec_change {op : Op} {o : Outcome} {u w : World} {a : Except Err op.Ans}
    (h : exec op o u = some (a, w)) : Change op u w := by
  rcases exec_cases h with ⟨rfl, -⟩ | ⟨s, hfit, rfl, -⟩
  · exact .frame (.refl w)
  · exact effect_change hfit

/-- The lookups and notifications that follow a protection. -/
def Op.isQuiet : Op → Prop
  | .invoiceUpdateManyPaid .. | .invoiceFindFirst _ => True
  | .auditLogCreate d => d.action ≠ "transaction.status_change"
  | .transactionFindUnique _ | .enqueueChatOutbound _ => True
  | _ => False

theorem sameCore_of_isQuiet {op : Op} {o : Outcome} {u w : World} {a : Except Err op.Ans}
    (hop : op.isQuiet) (h : exec op o u = some (a, w)) : SameCore u w := by
  have hc := exec_change h
  cases hc with
  | frame same => exact same
  | _ => exact hop.elim

/-! ## The logs -/

/-- The world after a flip, with the rows of its write. -/
def World.committed (u : World) (d : TransitionWrite) (eventId : Uuid)
    (transactions : Table Transaction) : World :=
  { u with
    transactions := transactions
    timeline := u.timeline ++ [d.timeline]
    timelineCreatedAt := u.timelineCreatedAt ++ [u.clock]
    auditLogs := u.auditLogs ++ [d.audit]
    outboundEvents := u.outboundEvents ++
      d.outbound.toList.map fun r => ⟨eventId, r.1, r.2.1, r.2.2⟩ }

/-- **What a commit does:** nothing, or the flip with its rows. -/
theorem commitTransition_world (d : TransitionWrite) (s : Supply) (u : World) :
    (commitTransition d s u).2 = u ∨
      ∃ t transactions, u.transactions.find d.selects = some t ∧
        u.transactions.update d.selects (fun t => { t with status := d.newState }) =
          some transactions ∧
        (commitTransition d s u).2 = u.committed d s.id transactions := by
  unfold commitTransition World.committed
  split
  · exact .inl rfl
  · rename_i t hfind
    split
    · exact .inl rfl
    · rename_i transactions hwrite
      refine .inr ⟨t, transactions, hfind, hwrite, ?_⟩
      split
      · rename_i hnone
        simp only [hnone, Option.toList_none, List.map_nil, List.append_nil]
      · rename_i hsome
        simp only [hsome, Option.toList_some, List.map_cons, List.map_nil]

/-- **What an answered commit found and did.** -/
theorem exec_commit_ok {d : TransitionWrite} {o : Outcome} {u w : World}
    {a : (Op.commitTransition d).Ans} (h : exec (.commitTransition d) o u = some (.ok a, w)) :
    ∃ t eventId transactions, u.transactions.find d.selects = some t ∧
      u.transactions.update d.selects (fun t => { t with status := d.newState }) =
        some transactions ∧
      w = u.committed d eventId transactions ∧ a.1 = { t with status := d.newState } := by
  rcases exec_cases h with ⟨-, e, herr⟩ | ⟨s, -, rfl, ha | ⟨e, herr⟩⟩
  · cases herr
  · have hok : (commitTransition d s u).1 = .ok a := ha.symm
    unfold commitTransition at hok
    split at hok
    · cases hok
    · rename_i t hfind
      split at hok
      · cases hok
      · rename_i transactions hwrite
        refine ⟨t, s.id, transactions, hfind, hwrite, ?_, ?_⟩
        · simp only [effect, commitTransition, hfind, hwrite, World.committed]
          split <;> rename_i hout <;> simp [hout]
        · split at hok <;> cases hok <;> rfl
  · cases herr

/-- A commit that erred did nothing, unless its answer was lost. -/
theorem exec_commit_error {d : TransitionWrite} {o : Outcome} {u w : World} {e : Err}
    (h : exec (.commitTransition d) o u = some (.error e, w))
    (hlost : ∀ s message, o ≠ .lost s message) : w = u := by
  cases o with
  | served s =>
      have heff : commitTransition d s u = (.error e, w) := Option.some.inj h
      unfold commitTransition at heff
      split at heff
      · exact (Prod.mk.inj heff).2.symm
      · split at heff
        · exact (Prod.mk.inj heff).2.symm
        · split at heff <;> cases heff
  | lost s message => exact absurd rfl (hlost s message)
  | failed message =>
      simp only [exec] at h
      split at h <;> cases h
      rfl

/-- Two worlds with the same audit rows and outbound rows. -/
structure SameLogs (u w : World) : Prop where
  auditLogs : w.auditLogs = u.auditLogs
  outboundEvents : w.outboundEvents = u.outboundEvents

/-- Only a commit and an audit entry write these logs. -/
theorem effect_logs {op : Op} {s : Supply} {u : World} (hcommit : ∀ d, op ≠ .commitTransition d)
    (haudit : ∀ d, op ≠ .auditLogCreate d) : SameLogs u (effect s u op).2 := by
  cases op with
  | commitTransition d => exact absurd rfl (hcommit d)
  | auditLogCreate d => exact absurd rfl (haudit d)
  | paymentUpdate id d =>
      simp only [effect, paymentUpdate]
      split
      · exact ⟨rfl, rfl⟩
      · split <;> exact ⟨rfl, rfl⟩
  | payoutUpdate key d =>
      simp only [effect, payoutUpdate]
      split
      · exact ⟨rfl, rfl⟩
      · split <;> exact ⟨rfl, rfl⟩
  | disputeUpdate id d =>
      simp only [effect, disputeUpdate]
      split
      · exact ⟨rfl, rfl⟩
      · split <;> exact ⟨rfl, rfl⟩
  | invoiceUpdate id d =>
      simp only [effect, invoiceUpdate]
      split
      · exact ⟨rfl, rfl⟩
      · split
        · split <;> exact ⟨rfl, rfl⟩
        · exact ⟨rfl, rfl⟩
  | transactionCreate d | paymentCreate d | payoutCreate d | invoiceCreate d =>
      simp only [effect]
      split
      · split <;> exact ⟨rfl, rfl⟩
      · exact ⟨rfl, rfl⟩
  | invoiceCounterUpsert sellerId =>
      simp only [effect, invoiceCounterUpsert]
      split <;> split <;> exact ⟨rfl, rfl⟩
  | userUpdateRoleFlags _ _ | transactionUpdateBuyer _ _ | disputeCreate _
  | webhookEventCreate _ | webhookEventUpdate _ _ | initializeTransaction _ =>
      simp only [effect]
      split <;> exact ⟨rfl, rfl⟩
  | invoiceUpdateManyPaid _ _ | invoiceUpdateManySent _ _ _ | invoiceUpdateManyViewed _
  | invoiceUpdateManyOverdue _ | paymentBindCharge _ _ | initiateTransfer _ | enqueueRelease _
  | startReleaseJob _ | completeReleaseJob _ _ | failReleaseJob _ _ =>
      simp only [effect, invoiceUpdateManyPaid, invoiceUpdateMany, paymentBindCharge,
        initiateTransfer, enqueueRelease, startReleaseJob, completeReleaseJob, failReleaseJob]
      split <;> exact ⟨rfl, rfl⟩
  | _ => exact ⟨rfl, rfl⟩

/-- **What an account merge does.** -/
theorem drift_merge {source target : Uuid} {u w : World}
    (h : drift (.merge source target) u = some w) :
    ∃ transactions payouts invoices disputes,
      (u.transactions.update (fun _ => true) fun t =>
        { t with
          sellerId := t.sellerId.merged source target
          buyerId := t.buyerId.map fun u => u.merged source target }) = some transactions ∧
      (u.payouts.update (fun _ => true) fun p =>
        { p with sellerId := p.sellerId.merged source target }) = some payouts ∧
      (u.invoices.update (fun _ => true) fun i =>
        { i with sellerId := i.sellerId.merged source target }) = some invoices ∧
      (u.disputes.update (fun _ => true) fun d =>
        { d with openedBy := d.openedBy.merged source target }) = some disputes ∧
      w = { u with transactions, payouts, invoices, disputes } := by
  obtain ⟨transactions, ht, h⟩ := Option.bind_eq_some_iff.mp h
  obtain ⟨payouts, hp, h⟩ := Option.bind_eq_some_iff.mp h
  obtain ⟨invoices, hi, h⟩ := Option.bind_eq_some_iff.mp h
  obtain ⟨disputes, hd, h⟩ := Option.bind_eq_some_iff.mp h
  exact ⟨transactions, payouts, invoices, disputes, ht, hp, hi, hd, (Option.some.inj h).symm⟩

/-! ## Answers -/

/-- What the answer of an operation tells about the worlds before and after it. -/
def Answered : (op : Op) → op.Ans → World → World → Prop
  | .transactionFindUnique key, some t, u, _ => t ∈ u.transactions ∧ key.selects t = true
  | .transactionFindWithDisputes id _, some (t, _), u, _ => t ∈ u.transactions ∧ t.id = id
  | .transactionCreate d, t, _, w => t ∈ w.transactions ∧ ∃ id, t = d.row id
  | .commitTransition d, (t, _), _, w =>
      t ∈ w.transactions ∧ t.id = d.transactionId ∧ t.status = d.newState ∧ d.timeline ∈ w.timeline
  | .paymentFindUnique key, some p, u, _ => p ∈ u.payments ∧ key.selects p = true
  | .paymentFindUnique key, none, u, _ => ∀ p ∈ u.payments, key.selects p = false
  | .paymentFindFirst q, some p, u, _ => p ∈ u.payments ∧ q.selects p = true
  | .paymentCreate d, p, _, w => p ∈ w.payments ∧ ∃ id now, p = d.row id now
  | .paymentUpdate id d, p, u, w =>
      p ∈ w.payments ∧ ∃ p₀ ∈ u.payments, p₀.id = id ∧ p = d.apply p₀
  | .paymentBindCharge id reference, n, _, w =>
      0 < n → ∃ p ∈ w.payments, p.id = id ∧ p.providerChargeReference = some reference
  | .payoutCreate d, p, _, w => p ∈ w.payouts ∧ ∃ id, p = d.row id
  | .payoutFindUnique key, some p, u, _ => p ∈ u.payouts ∧ p.idempotencyKey = key
  | .payoutUpdate key d, p, u, w =>
      p ∈ w.payouts ∧ ∃ p₀ ∈ u.payouts, p₀.idempotencyKey = key ∧ p = d.apply p₀
  | .verifyTransaction reference, v, _, w => v ∈ w.paystack.verified ∧ v.reference = reference
  | .initiateTransfer i, r, u, w =>
      (∀ t ∈ u.paystack.transfers, t.reference ≠ i.reference) ∧
        ∃ t ∈ w.paystack.transfers, t.reference = i.reference ∧ t.transferCode = r.transferCode ∧
          t.reason = i.reason
  | .fetchTransfer reference, v, u, _ =>
      ∃ t ∈ u.paystack.transfers, t.reference = reference ∧ v = ⟨t.transferCode, t.status.text⟩
  | _, _, _, _ => True

theorem answered_commit {d : TransitionWrite} {s : Supply} {u : World}
    {a : Transaction × Option Uuid} (h : (commitTransition d s u).1 = .ok a) :
    Answered (.commitTransition d) a u (commitTransition d s u).2 := by
  unfold commitTransition at h ⊢
  split at h
  · cases h
  · rename_i t hfind
    obtain ⟨ht, hsel⟩ := Table.find_spec hfind
    have hid : t.id = d.transactionId := by
      simp only [Bool.and_eq_true, beq_iff_eq] at hsel
      exact hsel.1
    split at h
    · cases h
    · rename_i transactions hwrite
      have hmem := Table.mem_update_of hwrite ht hsel
      split at h <;> cases h <;>
        exact ⟨hmem, hid, rfl, List.mem_append_right _ (List.mem_singleton_self _)⟩

theorem answered_paymentUpdate {id : Uuid} {d : PaymentUpdate} {u : World} {p : Payment}
    (h : (paymentUpdate id d u).1 = .ok p) :
    Answered (.paymentUpdate id d) p u (paymentUpdate id d u).2 := by
  unfold paymentUpdate at h ⊢
  split at h
  · cases h
  · rename_i p₀ hfind
    obtain ⟨hp, hid⟩ := Table.find_spec hfind
    split at h
    · cases h
    · rename_i payments hwrite
      cases h
      exact ⟨Table.mem_update_of hwrite hp hid, p₀, hp, by simpa using hid, rfl⟩

theorem answered_payoutUpdate {key : String} {d : PayoutUpdate} {u : World} {p : Payout}
    (h : (payoutUpdate key d u).1 = .ok p) :
    Answered (.payoutUpdate key d) p u (payoutUpdate key d u).2 := by
  unfold payoutUpdate at h ⊢
  split at h
  · cases h
  · rename_i p₀ hfind
    obtain ⟨hp, hkey⟩ := Table.find_spec hfind
    split at h
    · cases h
    · rename_i payouts hwrite
      cases h
      exact ⟨Table.mem_update_of hwrite hp hkey, p₀, hp, by simpa using hkey, rfl⟩

theorem answered_paymentBindCharge {id : Uuid} {reference : String} {u : World} {n : Nat}
    (h : (paymentBindCharge id reference u).1 = .ok n) :
    Answered (.paymentBindCharge id reference) n u (paymentBindCharge id reference u).2 := by
  unfold paymentBindCharge at h ⊢
  simp only at h ⊢
  split at h
  · cases h
  · rename_i payments hwrite
    cases h
    intro hpos
    obtain ⟨p, hp, hsel⟩ := List.countP_pos_iff.mp hpos
    refine ⟨_, Table.mem_update_of hwrite hp hsel, ?_, rfl⟩
    simp only [Bool.and_eq_true, beq_iff_eq] at hsel
    exact hsel.1

theorem answered_initiateTransfer {i : InitiateTransferInput} {s : Supply} {u : World}
    {r : InitiateTransferResult} (h : (initiateTransfer i s u).1 = .ok r) :
    Answered (.initiateTransfer i) r u (initiateTransfer i s u).2 := by
  unfold initiateTransfer at h ⊢
  split at h
  · cases h
  · rename_i hnew
    cases h
    rw [if_neg hnew]
    refine ⟨fun t ht heq => hnew (List.any_eq_true.mpr ⟨t, ht, by simpa using heq⟩), _,
      List.mem_append_right _ (List.mem_singleton_self _), rfl, rfl, rfl⟩

theorem answered_fetchTransfer {reference : String} {u w : World} {v : VerifyTransferResult}
    (h : fetchTransfer reference u = .ok v) : Answered (.fetchTransfer reference) v u w := by
  unfold fetchTransfer at h
  split at h
  · cases h
  · rename_i t hfind
    cases h
    exact ⟨t, List.mem_of_find?_eq_some hfind, by simpa using List.find?_some hfind, rfl⟩

/-- **Answer inversion.** -/
theorem exec_answered {op : Op} {o : Outcome} {u w : World} {a : op.Ans}
    (h : exec op o u = some (.ok a, w)) : Answered op a u w := by
  rcases exec_cases h with ⟨-, e, he⟩ | ⟨s, hfit, rfl, ha | ⟨e, he⟩⟩
  · cases he
  · cases op with
    | commitTransition d => exact answered_commit ha.symm
    | paymentUpdate id d => exact answered_paymentUpdate ha.symm
    | payoutUpdate key d => exact answered_payoutUpdate ha.symm
    | paymentBindCharge id reference => exact answered_paymentBindCharge ha.symm
    | initiateTransfer i => exact answered_initiateTransfer ha.symm
    | fetchTransfer reference => exact answered_fetchTransfer ha.symm
    | transactionFindUnique key =>
        cases a with
        | none => trivial
        | some t => exact Table.find_spec (Except.ok.inj ha).symm
    | transactionFindWithDisputes id statuses =>
        cases a with
        | none => trivial
        | some r =>
            obtain ⟨t, ht, rfl⟩ := Option.map_eq_some_iff.mp (Except.ok.inj ha).symm
            obtain ⟨hmem, hid⟩ := Table.find_spec ht
            exact ⟨hmem, by simpa using hid⟩
    | transactionCreate d =>
        simp only [effect] at ha ⊢
        split at ha
        · rename_i hrange
          rw [if_pos hrange]
          split at ha
          · cases ha
          · rename_i hwrite
            cases ha
            exact ⟨(Table.mem_create hwrite).mpr (.inr rfl), _, rfl⟩
        · cases ha
    | paymentFindUnique key =>
        cases a with
        | none => exact fun p hp => Table.find_none (Except.ok.inj ha).symm hp
        | some p => exact Table.find_spec (Except.ok.inj ha).symm
    | paymentFindFirst query =>
        cases a with
        | none => trivial
        | some p => exact Table.findNewest_spec (Except.ok.inj ha).symm
    | paymentCreate d =>
        simp only [effect] at ha ⊢
        split at ha
        · rename_i hrange
          rw [if_pos hrange]
          split at ha
          · cases ha
          · rename_i hwrite
            cases ha
            exact ⟨(Table.mem_create hwrite).mpr (.inr rfl), _, _, rfl⟩
        · cases ha
    | payoutCreate d =>
        simp only [effect] at ha ⊢
        split at ha
        · rename_i hrange
          rw [if_pos hrange]
          split at ha
          · cases ha
          · rename_i hwrite
            cases ha
            exact ⟨(Table.mem_create hwrite).mpr (.inr rfl), _, rfl⟩
        · cases ha
    | payoutFindUnique key =>
        cases a with
        | none => trivial
        | some p =>
            obtain ⟨hmem, hkey⟩ := Table.find_spec (Except.ok.inj ha).symm
            exact ⟨hmem, by simpa using hkey⟩
    | verifyTransaction reference =>
        cases ha
        exact ⟨List.mem_append_right _ (List.mem_singleton_self _), rfl⟩
    | _ => trivial
  · cases he

/-- An answer some world gives. -/
def Possible (e : Event Op.Ans Err) : Prop := ∃ o u w, exec e.op o u = some (e.ans, w)

theorem Possible.answered {op : Op} {a : op.Ans} (h : Possible ⟨op, .ok a⟩) :
    ∃ u w, Answered op a u w := by
  obtain ⟨o, u, w, he⟩ := h
  exact ⟨u, w, exec_answered he⟩

theorem possible_of_exec {op : Op} {o : Outcome} {u w : World} {a : Except Err op.Ans}
    (h : exec op o u = some (a, w)) : Possible ⟨op, a⟩ := ⟨o, u, w, h⟩

/-- What every call promises, and what it leaves when it ends, at every point of a run. -/
theorem promises {env : Env} {arrives : Call → World → Bool} {moves : Move → World → Option World}
    {G : Guard ((core env).within arrives moves)} {J : Call → History Op.Ans Err → Op → Prop}
    {R : Call → Except Err Reply → History Op.Ans Err → Prop}
    (keeps : ∀ {c w}, arrives c w = true → (code env c).Along Possible (J c) (R c) []) {w : World}
    {y : Config ((core env).within arrives moves)} (h : Reaches G ⟨w, []⟩ y) :
    ∀ p ∈ y.procs, ∀ q, p.prog = some q → q.Along Possible (J p.call) (R p.call) p.hist :=
  h.along (fun he => possible_of_exec he) keeps

end Meduman
