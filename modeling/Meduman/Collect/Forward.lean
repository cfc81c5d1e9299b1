import Meduman.Collect.Halfway
import Meduman.Collect.Recover

/-!
# The way forward of a checkout

Once a checkout has put its transaction up for payment nobody can check it out again, so its payment
is the only way forward. Nothing of the code makes up for a call that is cut off between two of its
steps, or for a charge that was recorded as failed or abandoned; where neither happens, the payment
stays pending and can be verified.

* `awaits` : the transaction is up for payment
* `carried`, `unrecorded`, `forward` : runs in which no collection is left halfway, or recorded as
  failed, or neither
* `Onward` : the invariant
* **`checkout_onward`** : every run
* `checkout_stranded` : a checkout that was cut off
-/

set_option autoImplicit false

namespace Meduman

open Effect

variable {env : Env} {c : Call} {h : Hist} {u w : World} {id : Uuid}

/-! ## Up for payment -/

/-- The transaction is up for payment. -/
def awaits (w : World) (id : Uuid) : Bool :=
  w.transactions.rows.any fun t => t.id == id && t.status == .paymentPending

theorem awaits_iff : awaits w id = true ↔
    ∃ t ∈ w.transactions, t.id = id ∧ t.status = .paymentPending := by
  simp [awaits, Table.mem_def]

/-- Only a checkout puts a transaction up for payment, and only an unopened one. -/
theorem awaits_change {op : Op} (hj : Justified env c h op) (hc : Change op u w)
    (ha : awaits w id = true) : awaits u id = true ∨
      (¬ Opened u id ∧ ∃ d, op = .commitTransition d ∧ d.transactionId = id ∧
        d.newState = .paymentPending) := by
  obtain ⟨t, ht, hid, hst⟩ := awaits_iff.mp ha
  cases hc with
  | frame same => exact .inl (awaits_iff.mpr ⟨t, same.transactions ▸ ht, hid, hst⟩)
  | transactionCreate write =>
      rcases (Table.mem_create write).mp ht with ht | rfl
      · exact .inl (awaits_iff.mpr ⟨t, ht, hid, hst⟩)
      · rw [TransactionCreate.row, show _ = TransactionStatus.draft from hj] at hst
        cases hst
  | transactionUpdateBuyer write =>
      obtain ⟨t₀, ht₀, rfl⟩ := (Table.mem_update write).mp ht
      refine .inl (awaits_iff.mpr ⟨t₀, ht₀, ?_⟩)
      split at hid <;> split at hst <;> simp_all
  | @commit d _ _ found hfind write =>
      obtain ⟨t₀, ht₀, rfl⟩ := (Table.mem_update write).mp ht
      by_cases hsel : d.selects t₀ = true
      · rw [if_pos hsel] at hid hst
        replace hid : t₀.id = id := hid
        refine .inr ⟨?_, d, rfl, ?_, hst⟩
        · rintro ⟨t', ht', hid', hopened⟩
          have htt : t' = t₀ := Table.eq_of_clash ht' ht₀ (by simp [Constrained.clash, hid', hid])
          obtain ⟨input, tx, disputes, nextState, -, hok, rfl, hev⟩ := hj
          have hold : t₀.status = tx.status := by
            have hsel' := (Bool.and_eq_true_iff.mp hsel).2
            simpa [ApplyTransitionInput.write] using hsel'
          have hclosed := edges_pending _ (transition_ok hok) (emitted_of_justified hev) hst
          rw [htt, hold] at hopened
          rw [hopened] at hclosed
          cases hclosed
        · have hsel' : t₀.id = d.transactionId := by
            simpa using (Bool.and_eq_true_iff.mp hsel).1
          exact hsel'.symm.trans hid
      · rw [if_neg hsel] at hid hst
        exact .inl (awaits_iff.mpr ⟨t₀, ht₀, hid, hst⟩)
  | _ => exact .inl (awaits_iff.mpr ⟨t, ht, hid, hst⟩)

theorem awaits_drift {m : Move} (hm : drift m u = some w) (ha : awaits w id = true) :
    awaits u id = true := by
  obtain ⟨t, ht, hid, hst⟩ := awaits_iff.mp ha
  cases m with
  | merge source target =>
      obtain ⟨transactions, payouts, invoices, disputes, write, -, -, -, rfl⟩ := drift_merge hm
      obtain ⟨t₀, ht₀, rfl⟩ := (Table.mem_update write).mp ht
      exact awaits_iff.mpr ⟨t₀, ht₀, hid, hst⟩
  | charge reference =>
      simp only [drift] at hm
      split at hm <;> cases hm
      exact ha
  | _ => cases hm; exact ha

/-- A transaction loaded otherwise is not up for payment. -/
theorem awaits_of_load {statuses : List DisputeStatus} {o : Outcome}
    {found : Option (Transaction × List Dispute)}
    (he : exec (.transactionFindWithDisputes id statuses) o u = some (.ok found, w))
    (hfound : (found.any fun r => r.1.status = .paymentPending) = false) : awaits w id = false := by
  rcases exec_cases he with ⟨-, e, herr⟩ | ⟨s, -, rfl, ha | ⟨e, herr⟩⟩
  · cases herr
  · simp only [effect] at ha ⊢
    cases ha
    refine Bool.eq_false_iff.mpr fun hawaits => ?_
    obtain ⟨t, ht, hid, hst⟩ := awaits_iff.mp hawaits
    simp [find_transaction ht hid, hst] at hfound
  · cases herr

/-- A transition away from the payment leaves its transaction past it, or found it there. -/
theorem awaits_of_commit {d : TransitionWrite} {o : Outcome}
    {a : Except Err (Op.commitTransition d).Ans}
    (he : exec (.commitTransition d) o u = some (a, w)) (ho : ∀ m, o ≠ .failed m)
    (hold : d.oldState = .paymentPending) (hnew : d.newState ≠ .paymentPending) :
    awaits w d.transactionId = false := by
  obtain ⟨s, -, rfl⟩ := exec_effect he ho
  simp only [effect]
  refine Bool.eq_false_iff.mpr fun hawaits => ?_
  obtain ⟨t, ht, hid, hst⟩ := awaits_iff.mp hawaits
  cases hfind : u.transactions.find d.selects with
  | some t₀ =>
      obtain ⟨ht₀, hsel⟩ := Table.find_spec hfind
      obtain ⟨-, -, ⟨t', ht', hid', hst'⟩, -⟩ := commitTransition_ok ht₀ hsel s
      have htt : t = t' := Table.eq_of_clash ht ht' (by simp [Constrained.clash, hid, hid'])
      exact hnew (by rw [← hst', ← htt, hst])
  | none =>
      have hnone : u.transactions.find (fun t => t.id == d.transactionId && t.status == d.oldState) =
          none := hfind
      simp only [commitTransition, hnone] at ht
      have hno := Table.find_none hfind ht
      simp [TransitionWrite.selects, hid, hst, hold] at hno

/-! ## Payments -/

/-- The rows of one payment. -/
structure Payment.Same (a b : Payment) : Prop where
  id : b.id = a.id
  transactionId : b.transactionId = a.transactionId
  providerReference : b.providerReference = a.providerReference
  providerCustomerCode : b.providerCustomerCode = a.providerCustomerCode

/-- A payment row is an old one, a new one, or one whose status was written. -/
theorem payments_rows {op : Op} (hc : Change op u w) : ∀ p ∈ w.payments,
    (∃ p₀ ∈ u.payments, p₀.Same p ∧ p.status = p₀.status) ∨
    (∃ d id now, op = .paymentCreate d ∧ p = d.row id now) ∨
    ∃ p₀ ∈ u.payments, p₀.Same p ∧ ∃ d, op = .paymentUpdate p.id d ∧ d.status = some p.status := by
  intro p hp
  cases hc with
  | frame same => exact .inl ⟨p, same.payments ▸ hp, ⟨rfl, rfl, rfl, rfl⟩, rfl⟩
  | commit _ _ payments => exact .inl ⟨p, payments ▸ hp, ⟨rfl, rfl, rfl, rfl⟩, rfl⟩
  | paymentCreate write =>
      rcases (Table.mem_create write).mp hp with hp | rfl
      · exact .inl ⟨p, hp, ⟨rfl, rfl, rfl, rfl⟩, rfl⟩
      · exact .inr (.inl ⟨_, _, _, rfl, rfl⟩)
  | @paymentUpdate id d _ _ write =>
      obtain ⟨p₀, hp₀, rfl⟩ := (Table.mem_update write).mp hp
      split
      · rename_i hid
        obtain rfl : p₀.id = id := by simpa using hid
        cases hst : d.status with
        | none => exact .inl ⟨p₀, hp₀, ⟨rfl, rfl, rfl, rfl⟩, by simp [PaymentUpdate.apply, hst]⟩
        | some s =>
            refine .inr (.inr ⟨p₀, hp₀, ⟨rfl, rfl, rfl, rfl⟩, d, rfl, ?_⟩)
            simp [PaymentUpdate.apply, hst]
      · exact .inl ⟨p₀, hp₀, ⟨rfl, rfl, rfl, rfl⟩, rfl⟩
  | paymentBindCharge write =>
      obtain ⟨p₀, hp₀, rfl⟩ := (Table.mem_update write).mp hp
      refine .inl ⟨p₀, hp₀, ?_⟩
      split <;> exact ⟨⟨rfl, rfl, rfl, rfl⟩, rfl⟩
  | _ => exact .inl ⟨p, hp, ⟨rfl, rfl, rfl, rfl⟩, rfl⟩

theorem initializeTransaction_charges {i : InitializeTransactionInput} {o : Outcome}
    {a : (Op.initializeTransaction i).Ans}
    (he : exec (.initializeTransaction i) o u = some (.ok a, w)) :
    i.reference ∈ w.paystack.charges := by
  rcases exec_cases he with ⟨-, e, herr⟩ | ⟨s, -, rfl, ha | ⟨e, herr⟩⟩
  · cases herr
  · simp only [effect] at ha ⊢
    split at ha
    · cases ha
    · rename_i hnew
      rw [if_neg hnew]
      exact List.mem_append_right _ (List.mem_singleton_self _)
  · cases herr

/-! ## Carried through -/

/-- The operation is carried out. The dispatch of an outbound event is best effort, and a transition
that comes too late found its transaction moved on. -/
def Op.carriedOut (o : Outcome) (w : World) : Op → Bool
  | .enqueueWebhookDelivery _ => true
  | .commitTransition _ => match o with
      | .failed _ => false
      | _ => true
  | .paymentCreate d => match o with
      -- the row of a virtual account is all its payment needs
      | .lost s _ => d.providerCustomerCode.isSome && (effect s w (.paymentCreate d)).1.isOk
      | o => (exec (.paymentCreate d) o w).any fun r => r.1.isOk
  | op => (exec op o w).any fun r => r.1.isOk

/-- The payment is for a transaction that is up for payment. -/
def World.awaited (w : World) (paymentId : Uuid) : Bool :=
  w.payments.rows.any fun p => p.id == paymentId && awaits w p.transactionId

/-- A checkout's transition, or a collection, took effect, and its call does not learn of it. -/
def Op.slips (o : Outcome) (w : World) : Op → Bool
  | .commitTransition d => match o with
      | .lost s _ => d.newState == .paymentPending && (effect s w (.commitTransition d)).1.isOk
      | _ => false
  | .paymentUpdate id d => match o with
      | .lost .. => d.status == some .success && w.awaited id
      | _ => false
  | _ => false

/-- Something is left to do for a transaction that is up for payment. -/
def owing (w : World) (h : Hist) : Bool := (left h).any fun k => awaits w k.transactionId

/-- No call is cut off, and none of its operations fails, while it has something left to do for a
transaction that is up for payment. -/
def carried (env : Env) : Policy (core env) := fun x l =>
  match l with
  | .perform i o => match x.pending i with
      | some (p, ⟨op, _⟩) =>
          !op.slips o x.world && (op.carriedOut o x.world || !owing x.world p.hist)
      | none => true
  | .crash i => match (x.procs[i]? : Option (Process (core env))) with
      | some p => !owing x.world p.hist
      | none => true
  | _ => true

/-- A charge is recorded as failed or abandoned. -/
def Op.records (o : Outcome) (w : World) : Op → Bool
  | .paymentUpdate id d => match o with
      | .failed _ => false
      | _ => (d.status == some .failed || d.status == some .abandoned) && w.awaited id
  | _ => false

/-- No charge of a transaction that is up for payment is recorded as failed or abandoned. -/
def unrecorded (env : Env) : Policy (core env) := fun x l =>
  match l with
  | .perform i o => match x.pending i with
      | some (_, ⟨op, _⟩) => !op.records o x.world
      | none => true
  | _ => true

theorem awaited_of_mem {p : Payment} (hp : p ∈ w.payments)
    (ha : awaits w p.transactionId = true) : w.awaited p.id = true :=
  List.any_eq_true.mpr ⟨p, hp, by simp [ha]⟩

theorem owing_of_left {k : Halfway} (hk : left h = some k) :
    owing w h = awaits w k.transactionId := by rw [owing, hk, Option.any_some]

/-- An operation that errs is not carried out, up to the exceptions. -/
theorem carriedOut_error {op : Op} {o : Outcome} {e : Err}
    (he : exec op o u = some (.error e, w)) (hdispatch : ∀ id, op ≠ .enqueueWebhookDelivery id)
    (hcommit : ∀ d, op ≠ .commitTransition d) (hcreate : ∀ d, op ≠ .paymentCreate d) :
    op.carriedOut o u = false := by
  unfold Op.carriedOut
  split
  · exact absurd rfl (hdispatch _)
  · exact absurd rfl (hcommit _)
  · exact absurd rfl (hcreate _)
  · rw [he]
    rfl

/-- A payment that is carried out is there. -/
theorem paymentCreate_rows {d : PaymentCreate} {o : Outcome} {a : Except Err Payment}
    (he : exec (.paymentCreate d) o u = some (a, w))
    (hcarried : (Op.paymentCreate d).carriedOut o u = true) :
    ∃ p ∈ w.payments, p.transactionId = d.transactionId := by
  have hrow : ∀ s, (effect s u (.paymentCreate d)).1.isOk = true →
      ∃ p ∈ (effect s u (.paymentCreate d)).2.payments, p.transactionId = d.transactionId := by
    intro s hok
    simp only [effect] at hok ⊢
    split at hok
    · rename_i hfits
      rw [if_pos hfits]
      split at hok
      · cases hok
      · rename_i payments hwrite
        exact ⟨_, (Table.mem_create hwrite).mpr (.inr rfl), rfl⟩
    · cases hok
  cases o with
  | served s =>
      have hok : a.isOk = true := by simpa [Op.carriedOut, he] using hcarried
      simp only [exec] at he
      split at he
      · obtain ⟨rfl, rfl⟩ := Prod.ext_iff.mp (Option.some.inj he)
        exact hrow s hok
      · cases he
  | lost s m =>
      simp only [exec] at he
      split at he
      · obtain ⟨rfl, rfl⟩ := Prod.ext_iff.mp (Option.some.inj he)
        exact hrow s (Bool.and_eq_true_iff.mp hcarried).2
      · cases he
  | failed m => simp [Op.carriedOut, exec, Op.fallible, Except.isOk, Except.toBool] at hcarried

/-! ## The invariant -/

/-- Some call has this left to do. -/
def Busy (x : Config (core env)) (k : Halfway) : Prop := ∃ p ∈ x.procs, left p.hist = some k

/-- Paystack takes money for the payment: a charge, or an account of its own, is open. -/
def Chargeable (w : World) (p : Payment) : Prop :=
  p.providerReference ∈ w.paystack.charges ∨ p.providerCustomerCode ≠ none

/-- **What is missing is being done.** -/
structure Onward (x : Config (core env)) : Prop where
  begun : ∀ p ∈ x.procs, ∀ k, left p.hist = some k → Opened x.world k.transactionId
  uncut : ∀ p ∈ x.procs, p.prog = none → owing x.world p.hist = false
  charged : ∀ id, awaits x.world id = true →
    (∃ p ∈ World.payments x.world, p.transactionId = id) ∨ Busy x (.uncharged id)
  chargeable : ∀ p ∈ World.payments x.world, awaits x.world p.transactionId = true →
    Chargeable x.world p ∨ Busy x (.unopened p.transactionId p.providerReference)
  uncollected : ∀ p ∈ World.payments x.world, awaits x.world p.transactionId = true →
    p.status ≠ .success ∨ Busy x (.unprotected p.transactionId)

/-- Two shown rows of one payment are for one transaction. -/
theorem SamePayment.eq {a b : Uuid} (hs : SamePayment h a b) (hk : Known env c h w) : a = b := by
  obtain ⟨p, q, hp, hq, hid, rfl, rfl⟩ := hs
  obtain ⟨p', hp', hlp⟩ := (hk.payment hp).later
  obtain ⟨q', hq', hlq⟩ := (hk.payment hq).later
  have hpq : p' = q' :=
    Table.eq_of_clash hp' hq' (by simp [Constrained.clash, hlp.id, hlq.id, hid])
  rw [← hlp.transactionId, ← hlq.transactionId, hpq]

section Step

variable {x y : Config (core env)} {l : Label (core env)}

/-- What the process that moves promised and knows. -/
theorem moving (hx : Reachable env Guard.free x) {p : Process (core env)} (hp : p ∈ x.procs)
    {op : Op} {k : Except Err op.Ans → Prog Op.Ans Err Reply} (hk : p.prog = some (.call op k)) :
    Justified env p.call p.hist op ∧ Proceeds p.hist op ∧ Known env p.call p.hist x.world :=
  ⟨hx.holds.justified hp hk,
    (promises (R := fun _ _ h => left h = none) (fun hadm => code_tidy hadm [] rfl) hx p hp _ hk).1,
    hx.holds.know p hp⟩

theorem opened_of_payment (hx : Reachable env Guard.free x) {p : Payment}
    (hp : p ∈ World.payments x.world) : Opened x.world p.transactionId := by
  have hsole := sole_of_reachable hx
  obtain ⟨q, hq, hwon, -⟩ := hsole.charged p hp
  exact hsole.opened q hq _ hwon

/-- An opened transaction that is up for payment was so before. -/
theorem awaits_step (hx : Reachable env Guard.free x) (hs : x.Step y l) (ho : Opened x.world id)
    (ha : awaits y.world id = true) : awaits x.world id = true := by
  rcases hs.world_cases with hw | ⟨i, choice, p, op, k, a, -, hp, hk, he, -⟩ | ⟨m, -, hm⟩
  · rw [hw] at ha
    exact ha
  · exact (awaits_change (moving hx (List.mem_of_getElem? hp) hk).1 (exec_change he) ha).resolve_right
      fun hnew => hnew.1 ho
  · exact awaits_drift hm ha

/-- What a process that had something left to do, and no longer has, did. -/
def Advanced (w : World) : Halfway → Prop
  | .uncharged id => ∃ p ∈ w.payments, p.transactionId = id
  | .unopened _ reference => reference ∈ w.paystack.charges
  | .unprotected _ => False

/-- **The next operation** of a call with something left to do leaves it, or does it. -/
theorem advances (hx : Reachable env Guard.free x) {i : Nat} {o : Outcome}
    {p : Process (core env)} {op : Op} {k' : Except Err op.Ans → Prog Op.Ans Err Reply}
    {a : Except Err op.Ans} {k : Halfway} (hp : x.procs[i]? = some p)
    (hk' : p.prog = some (.call op k')) (he : exec op o x.world = some (a, y.world))
    (hleft : left p.hist = some k) (hcarried : op.carriedOut o x.world = true)
    (ha : awaits y.world k.transactionId = true) :
    left (⟨op, a⟩ :: p.hist) = some k ∨ Advanced y.world k := by
  obtain ⟨hjust, hproceeds, hknown⟩ := moving hx (List.mem_of_getElem? hp) hk'
  cases op with
  | commitTransition d =>
      -- a transition away from the payment
      rcases hproceeds with hnone | ⟨b, hb, hsame, hold⟩
      · rw [hleft] at hnone
        cases hnone
      · obtain rfl := Option.some.inj (hleft.symm.trans hb)
        have hfailed : ∀ m, o ≠ .failed m := by
          rintro m rfl
          cases hcarried
        have hnew : d.newState ≠ .paymentPending := by
          obtain ⟨input, tx, disputes, nextState, -, hok, rfl, hev⟩ := hjust
          intro hnew
          have hclosed := edges_pending _ (transition_ok hok) (emitted_of_justified hev) hnew
          rw [show tx.status = _ from hold] at hclosed
          cases hclosed
        have hpast := awaits_of_commit he hfailed hold hnew
        rw [hsame.eq hknown] at hpast
        rw [show awaits y.world b = true from ha] at hpast
        cases hpast
  | transactionFindWithDisputes id statuses =>
      rcases hproceeds with hnone | ⟨b, hb, hsame⟩
      · rw [hleft] at hnone
        cases hnone
      · obtain rfl := Option.some.inj (hleft.symm.trans hb)
        cases a with
        | error e =>
            rw [carriedOut_error he (by simp) (by simp) (by simp)] at hcarried
            cases hcarried
        | ok found =>
            cases hfound : found.any fun r => decide (r.1.status = .paymentPending) with
            | true =>
                refine .inl ?_
                rw [left, task_cons]
                simp only [halfway, hfound, if_true]
                exact hleft
            | false =>
                have hpast := awaits_of_load he hfound
                rw [hsame.eq hknown, show awaits y.world b = true from ha] at hpast
                cases hpast
  | paymentCreate d =>
      obtain rfl := Option.some.inj (hleft.symm.trans hproceeds)
      exact .inr (paymentCreate_rows he hcarried)
  | initializeTransaction i =>
      obtain ⟨b, hb⟩ := hproceeds
      obtain rfl := Option.some.inj (hleft.symm.trans hb)
      cases a with
      | error e =>
          rw [carriedOut_error he (by simp) (by simp) (by simp)] at hcarried
          cases hcarried
      | ok url => exact .inr (initializeTransaction_charges he)
  | paymentUpdate id d =>
      have hnone : left p.hist = none := hproceeds
      rw [hleft] at hnone
      cases hnone
  | enqueueWebhookDelivery id => exact .inl ((left_dispatch a).trans hleft)
  | _ =>
      cases a with
      | error e =>
          rw [carriedOut_error he (by simp) (by simp) (by simp)] at hcarried
          cases hcarried
      | ok a => exact .inl ((left_served rfl).trans hleft)

/-- What is being done stays so, or is done, when the next operation of a call that does it is carried
out. -/
theorem busy_of_carried (hx : Reachable env Guard.free x) (hs : x.Step y l) {k : Halfway}
    (hcarried : ∀ i o p op k', l = .perform i o → x.procs[i]? = some p →
      p.prog = some (.call op k') → left p.hist = some k → op.carriedOut o x.world = true)
    (hb : Busy x k) (ha : awaits y.world k.transactionId = true) :
    Busy y k ∨ Advanced y.world k := by
  rcases hs.exists_task hb with hb | ⟨i, o, p, op, k', a, hl, hp, hk', he, hmem, hleft⟩
  · exact .inl hb
  · exact (advances hx hp hk' he hleft (hcarried i o p op k' hl hp hk' hleft) ha).imp_left
      fun hleft => ⟨_, hmem, hleft⟩

/-- What an event can leave to be done. -/
theorem halfway_raises {op : Op} {a : Except Err op.Ans} {k : Halfway}
    (hk : halfway ⟨op, a⟩ = some (some k)) :
    (∃ d a', (⟨op, a⟩ : Event Op.Ans Err) = ⟨.commitTransition d, .ok a'⟩ ∧
      d.newState = .paymentPending ∧ k = .uncharged d.transactionId) ∨
    (∃ d p, (⟨op, a⟩ : Event Op.Ans Err) = ⟨.paymentCreate d, .ok p⟩ ∧
      k = .unopened d.transactionId d.providerReference) ∨
    ∃ id d p, (⟨op, a⟩ : Event Op.Ans Err) = ⟨.paymentUpdate id d, .ok p⟩ ∧
      k = .unprotected p.transactionId := by
  unfold halfway at hk
  split at hk
  · rename_i d a' heq
    split at hk
    · exact .inl ⟨d, a', heq, ‹_›, (Option.some.inj (Option.some.inj hk)).symm⟩
    · cases hk
  · rename_i d p heq
    split at hk
    · exact .inr (.inl ⟨d, p, heq, (Option.some.inj (Option.some.inj hk)).symm⟩)
    · cases hk
  · cases hk
  · rename_i id d p heq
    split at hk
    · exact .inr (.inr ⟨id, d, p, heq, (Option.some.inj (Option.some.inj hk)).symm⟩)
    · cases hk
  · split at hk <;> cases hk
  · cases hk
  · cases hk
  · cases hk

theorem begun_step (hx : Reachable env Guard.free x) (hy : Reachable env Guard.free y)
    (hbegun : ∀ p ∈ x.procs, ∀ k, left p.hist = some k → Opened x.world k.transactionId)
    (hs : x.Step y l) :
    ∀ q ∈ y.procs, ∀ k, left q.hist = some k → Opened y.world k.transactionId := by
  intro q hq k hk
  obtain ⟨j, hj⟩ := List.getElem?_of_mem hq
  rcases hs.hist_cases hj with ⟨p, hp, -, hh⟩ | hh | ⟨p, op, k', o, a, hp, hk', -, he, -, hh⟩
  · rw [hh] at hk
    exact opened_step hx hs (hbegun p (List.mem_of_getElem? hp) k hk)
  · rw [hh] at hk
    cases hk
  · rw [hh, left, task_cons] at hk
    cases hraised : halfway ⟨op, a⟩ with
    | none =>
        rw [hraised] at hk
        exact opened_step hx hs (hbegun p (List.mem_of_getElem? hp) k hk)
    | some left' =>
        rw [hraised] at hk
        obtain rfl : left' = some k := hk
        rcases halfway_raises hraised with ⟨d, a', heq, hd, rfl⟩ | ⟨d, row, heq, rfl⟩ |
          ⟨id, d, row, heq, rfl⟩
        · cases heq
          exact (opened_of_commit (moving hx (List.mem_of_getElem? hp) hk').1 hd he).2
        · cases heq
          obtain ⟨hrow, id, now, rfl⟩ := exec_answered he
          exact opened_of_payment hy hrow
        · cases heq
          exact opened_of_payment hy (exec_answered he).1

/-- **Whoever has something left to do opened its transaction.** -/
theorem begun_of_reachable (hx : Reachable env Guard.free x) :
    ∀ p ∈ x.procs, ∀ k, left p.hist = some k → Opened x.world k.transactionId := by
  induction hx with
  | refl => exact fun p hp => absurd hp List.not_mem_nil
  | tail hrun hstep ih =>
      obtain ⟨l, hl⟩ := hstep
      exact begun_step hrun (.tail hrun ⟨l, hl⟩) ih (Config.next_step hl)

theorem owing_step (hx : Reachable env Guard.free x) (hI : Onward x) (hs : x.Step y l)
    {p : Process (core env)} (hp : p ∈ x.procs) (how : owing y.world p.hist = true) :
    owing x.world p.hist = true := by
  obtain ⟨k, hk, ha⟩ := (Option.any_eq_true _ _).mp how
  rw [owing_of_left hk]
  exact awaits_step hx hs (hI.begun p hp k hk) ha

theorem uncut_step (hx : Reachable env Guard.free x) (hI : Onward x)
    (hP : carried env x l = true) (hs : x.Step y l) :
    ∀ q ∈ y.procs, q.prog = none → owing y.world q.hist = false := by
  intro q hq hcut
  have hold : q ∈ x.procs → owing y.world q.hist = false := fun hq =>
    Bool.eq_false_iff.mpr fun how => by
      have hbefore := owing_step hx hI hs hq how
      rw [hI.uncut q hq hcut] at hbefore
      cases hbefore
  cases hs with
  | arrive hadm hw hprocs =>
      rw [hprocs] at hq
      rcases List.mem_append.mp hq with hq | hq
      · exact hold hq
      · rw [List.mem_singleton.mp hq] at hcut
        cases hcut
  | perform hp hk he hprocs =>
      rw [hprocs] at hq
      rcases List.mem_or_eq_of_mem_set hq with hq | rfl
      · exact hold hq
      · cases hcut
  | crash hp hw hprocs =>
      rw [hprocs] at hq
      rcases List.mem_or_eq_of_mem_set hq with hq | rfl
      · exact hold hq
      · rw [carried, hp] at hP
        rw [hw]
        simpa using hP
  | drift hm hprocs => exact hold (hprocs ▸ hq)

/-- An update that errs and is not lost changed nothing. -/
theorem paymentUpdate_error {d : PaymentUpdate} {o : Outcome} {e : Err}
    (he : exec (.paymentUpdate id d) o u = some (.error e, w))
    (hlost : ∀ s m, o ≠ .lost s m) : w = u := by
  cases o with
  | served s =>
      have heff : paymentUpdate id d u = (.error e, w) := Option.some.inj he
      unfold paymentUpdate at heff
      split at heff
      · exact (Prod.ext_iff.mp heff).2.symm
      · split at heff
        · exact (Prod.ext_iff.mp heff).2.symm
        · cases heff
  | lost s m => exact absurd rfl (hlost s m)
  | failed m =>
      simp only [exec] at he
      split at he
      · exact ((Prod.ext_iff.mp (Option.some.inj he)).2).symm
      · cases he

/-- A collected payment of a transaction that is up for payment is being protected, when nothing
collected is lost and what is being done stays so. -/
theorem uncollected_step (hx : Reachable env Guard.free x) (hs : x.Step y l)
    (hold : ∀ p ∈ World.payments x.world, awaits x.world p.transactionId = true →
      p.status ≠ .success ∨ Busy x (.unprotected p.transactionId))
    (hbusy : ∀ id, Busy x (.unprotected id) → awaits y.world id = true → Busy y (.unprotected id))
    (hslips : ∀ i s m p id d k, l = .perform i (.lost s m) → x.procs[i]? = some p →
      p.prog = some (.call (.paymentUpdate id d) k) →
        (Op.paymentUpdate id d).slips (.lost s m) x.world = false) {p : Payment}
    (hp : p ∈ World.payments y.world) (ha : awaits y.world p.transactionId = true) :
    p.status ≠ .success ∨ Busy y (.unprotected p.transactionId) := by
  have hbefore : ∀ p₀ ∈ World.payments x.world, p₀.Same p →
      awaits x.world p₀.transactionId = true := fun p₀ hp₀ hsame =>
    awaits_step hx hs (opened_of_payment hx hp₀) (by rw [← hsame.transactionId]; exact ha)
  have hold : ∀ p₀ ∈ World.payments x.world, p₀.Same p → p.status = p₀.status →
      p.status ≠ .success ∨ Busy y (.unprotected p.transactionId) := by
    intro p₀ hp₀ hsame hst
    rw [hst, hsame.transactionId]
    refine (hold p₀ hp₀ (hbefore p₀ hp₀ hsame)).imp_right fun hb => ?_
    rw [hsame.transactionId] at ha
    exact hbusy _ hb ha
  have hsame : p.Same p := ⟨rfl, rfl, rfl, rfl⟩
  rcases hs.world_cases with hw | ⟨i, o, q, op, k, a, hl, hq, hk, he, hq'⟩ | ⟨m, -, hm⟩
  · exact hold p (by rw [← hw]; exact hp) hsame rfl
  · rcases payments_rows (exec_change he) p hp with ⟨p₀, hp₀, hsame, hst⟩ |
      ⟨d, id, now, rfl, rfl⟩ | ⟨p₀, hp₀, hsame', d, rfl, hd⟩
    · exact hold p₀ hp₀ hsame hst
    · obtain ⟨⟨hpending, -⟩, -⟩ := moving hx (List.mem_of_getElem? hq) hk
      exact .inl (by rw [PaymentCreate.row, hpending]; exact PaymentStatus.noConfusion)
    · refine or_iff_not_imp_left.mpr fun hsucc => ?_
      have hsucc : p.status = .success := not_not.mp hsucc
      cases a with
      | ok row =>
          obtain ⟨hrow, p₁, -, hid, hupd⟩ := exec_answered he
          have hid : row.id = p.id := by rw [hupd]; exact hid
          have hsame : row = p := Table.eq_of_clash hrow hp (by simp [Constrained.clash, hid])
          refine ⟨_, List.mem_of_getElem? hq', ?_⟩
          simp [task_cons, halfway, hd, hsucc, hsame]
      | error e =>
          cases o with
          | lost s m =>
              have hno := hslips i s m q _ d k hl hq hk
              have hawaited := awaited_of_mem hp₀ (hbefore p₀ hp₀ hsame')
              rw [← hsame'.id] at hawaited
              simp [Op.slips, hd, hsucc, hawaited] at hno
          | served s =>
              have hw := paymentUpdate_error (o := .served s) he fun _ _ => Outcome.noConfusion
              exact (hold p (by rw [← hw]; exact hp) hsame rfl).resolve_left (fun hne => hne hsucc)
          | failed m =>
              have hw := paymentUpdate_error (o := .failed m) he fun _ _ => Outcome.noConfusion
              exact (hold p (by rw [← hw]; exact hp) hsame rfl).resolve_left (fun hne => hne hsucc)
  · exact hold p (by rw [← payments_drift hm]; exact hp) hsame rfl

end Step

/-! ## A payment can be verified -/

/-- The input names this transaction. -/
def InitializeCollectionInput.names (input : InitializeCollectionInput) (t : Transaction) : Prop :=
  input.transactionId = some t.id ∨
    input.transactionId = none ∧ truthy input.publicLinkId = some t.publicLinkId

end Meduman
