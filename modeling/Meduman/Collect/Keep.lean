import Meduman.Core.Outline

/-!
# What a payment keeps

A verification reads a payment, asks Paystack, and writes the answer without looking again. An
answer that was overtaken by another verification's success undoes it.

* `paymentsCurrent` : a payment is written only while it is as it was read
* `FundedPaid` : every funded transaction has a collected payment
* **`collected_kept`** : then a collected payment stays collected, and funded transactions are paid
* `collected_lost` : otherwise a slow answer undoes a collection
-/

set_option autoImplicit false

namespace Meduman

open Effect

/-- A write of a payment's status, other than `SUCCESS`, finds the status the call read last. -/
def paymentsCurrent (env : Env) : Guard (core env) := fun _ h w op =>
  match op with
  | .paymentUpdate id d =>
      match d.status with
      | none | some .success => true
      | some _ =>
          ((World.payments w).find fun p => p.id == id).all fun p =>
            (lastPayment h).map Payment.status == some p.status
  | _ => true

variable {env : Env} {c : Call} {h : Hist} {u w : World}

theorem paymentStatus_of_current {id : Uuid} {d : PaymentUpdate} {s : PaymentStatus}
    {p q : Payment} (hG : paymentsCurrent env c h u (.paymentUpdate id d) = true)
    (hs : d.status = some s) (hne : s ≠ .success) (hp : p ∈ u.payments) (hid : p.id = id)
    (hq : lastPayment h = some q) : p.status = q.status := by
  have hfind : (u.payments.find fun p => p.id == id) = some p := by
    refine Table.find_eq hp (by simpa using hid) fun b hb hbk => ?_
    refine Table.eq_of_clash hb hp ?_
    simp [Constrained.clash, hid, show b.id = id by simpa using hbk]
  simp only [paymentsCurrent, hs, hfind, Option.all_some, hq, Option.map_some, beq_iff_eq,
    Option.some.injEq] at hG
  exact hG.symm

/-! ## Collected payments -/

/-- A payment of this transaction is collected. -/
def IsCollected (w : World) (id transactionId : Uuid) : Prop :=
  ∃ p ∈ w.payments, p.id = id ∧ p.transactionId = transactionId ∧ p.status = .success

/-- Every payment collected in `u` is collected in `w`. -/
def StaysCollected (u w : World) : Prop :=
  ∀ id transactionId, IsCollected u id transactionId → IsCollected w id transactionId

theorem staysCollected_of_eq (h : w.payments = u.payments) : StaysCollected u w := by
  rintro id transactionId ⟨p, hp, hrest⟩
  exact ⟨p, by rw [h]; exact hp, hrest⟩

/-- Every funded transaction has a collected payment. -/
def FundedPaid (w : World) : Prop :=
  ∀ t ∈ w.transactions, t.status.funded = true → ∃ id, IsCollected w id t.id

theorem fundedPaid_of_eq (hf : FundedPaid u) (hs : StaysCollected u w)
    (h : w.transactions = u.transactions) : FundedPaid w := by
  intro t ht hst
  rw [h] at ht
  obtain ⟨id, hcol⟩ := hf t ht hst
  exact ⟨id, hs _ _ hcol⟩

/-- The collections a call wrote down are there still. -/
def Wrote (h : Hist) (w : World) : Prop :=
  ∀ id d p, Saw h (.paymentUpdate id d) p → d.status = some .success →
    IsCollected w id p.transactionId

theorem staysCollected_paymentUpdate {id : Uuid} {d : PaymentUpdate} {t : Table Payment}
    (hj : Justified env c h (.paymentUpdate id d))
    (hG : paymentsCurrent env c h u (.paymentUpdate id d) = true)
    (write : u.payments.update (fun p => p.id == id) d.apply = some t) :
    StaysCollected u { u with payments := t } := by
  rintro i transactionId ⟨p, hp, hpi, htx, hst⟩
  cases hpid : p.id == id with
  | false => exact ⟨p, Table.mem_update_of_not write hp hpid, hpi, htx, hst⟩
  | true =>
      refine ⟨d.apply p, Table.mem_update_of write hp hpid, hpi, htx, ?_⟩
      cases hd : d.status with
      | none => simp [PaymentUpdate.apply, hd, hst]
      | some s =>
          by_cases hs : s = .success
          · simp [PaymentUpdate.apply, hd, hs]
          · obtain ⟨q, hq, -, hopen⟩ := (hj s hd).last
            have heq := paymentStatus_of_current hG hd hs hp (by simpa using hpid) hq
            exact absurd (heq.symm.trans hst) hopen

theorem staysCollected_change {op : Op} (hj : Justified env c h op)
    (hG : paymentsCurrent env c h u op = true) (hc : Change op u w) : StaysCollected u w := by
  cases hc with
  | paymentUpdate write => exact staysCollected_paymentUpdate hj hG write
  | paymentCreate write =>
      rintro id transactionId ⟨p, hp, hrest⟩
      exact ⟨p, (Table.mem_create write).mpr (.inl hp), hrest⟩
  | paymentBindCharge write =>
      rename_i i reference t
      rintro id transactionId ⟨p, hp, hid, htx, hst⟩
      cases hsel : p.id == i && p.providerChargeReference.isNone with
      | false => exact ⟨p, Table.mem_update_of_not write hp hsel, hid, htx, hst⟩
      | true => exact ⟨_, Table.mem_update_of write hp hsel, hid, htx, hst⟩
  | frame same => exact staysCollected_of_eq same.payments
  | commit found write payments payouts webhookEvents timeline paystack =>
      exact staysCollected_of_eq payments
  | _ => exact staysCollected_of_eq rfl

theorem staysCollected_drift {m : Move} (hm : drift m u = some w) : StaysCollected u w := by
  cases m with
  | merge source target =>
      obtain ⟨transactions, payouts, invoices, disputes, -, -, -, -, rfl⟩ := drift_merge hm
      exact staysCollected_of_eq rfl
  | charge reference =>
      simp only [drift] at hm
      split at hm <;> cases hm
      exact staysCollected_of_eq rfl
  | _ => cases hm; exact staysCollected_of_eq rfl

/-! ## Funded transactions -/

/-- A protection is committed over a payment the call wrote down as collected. -/
theorem collected_of_protection {input : ApplyTransitionInput} {source : PaymentSource}
    (hk : Known env c h u) (hw : Wrote h u) (hev : EventJustified h input)
    (hsource : input.event = .paymentVerified source) :
    ∃ id, IsCollected u id input.transactionId := by
  rw [EventJustified, hsource] at hev
  obtain ⟨p, reference, v, src, d, p', hv, hsaw, hd, hinput⟩ := hev
  obtain ⟨q, hq, hqid, hqtx, hst⟩ := hw p.id d p' hsaw hd
  obtain ⟨p'', hp'', hl⟩ := (hk.payment hv.shown).later
  have heq : q = p'' := Table.eq_of_clash hq hp'' (by simp [Constrained.clash, hqid, hl.id])
  refine ⟨p.id, q, hq, hqid, ?_, hst⟩
  rw [heq, hl.transactionId, hinput]
  rfl

theorem fundedPaid_commit {d : TransitionWrite} (hk : Known env c h u) (hw : Wrote h u)
    (hj : CommitJustified h d) (hf : FundedPaid u) (hs : StaysCollected u w)
    (write : u.transactions.update d.selects (fun t => { t with status := d.newState }) =
      some w.transactions) : FundedPaid w := by
  obtain ⟨input, tx, disputes, nextState, -, hok, rfl, hev⟩ := hj
  refine Table.forall_update write (fun t ht hsel hnew => ?_) fun t ht hst => ?_
  · simp only [TransitionWrite.selects, Bool.and_eq_true, beq_iff_eq] at hsel
    have hemit := emitted_of_justified hev
    rcases edges_funded _ (transition_ok hok) hemit hnew with hold | hnext
    · obtain ⟨id, hcol⟩ := hf t ht (by rw [hsel.2]; exact hold)
      exact ⟨id, hs _ _ hcol⟩
    · obtain ⟨source, hsource⟩ := (edges_protected _ (transition_ok hok) hemit hnext).2
      obtain ⟨id, hcol⟩ := collected_of_protection hk hw hev hsource
      refine ⟨id, hs _ _ ?_⟩
      rw [show t.id = input.transactionId from hsel.1]
      exact hcol
  · obtain ⟨id, hcol⟩ := hf t ht hst
    exact ⟨id, hs _ _ hcol⟩

theorem fundedPaid_change {op : Op} (hk : Known env c h u) (hw : Wrote h u)
    (hj : Justified env c h op) (hf : FundedPaid u) (hs : StaysCollected u w)
    (hc : Change op u w) : FundedPaid w := by
  cases hc with
  | commit found write payments payouts webhookEvents timeline paystack =>
      exact fundedPaid_commit hk hw hj hf hs write
  | transactionCreate write =>
      intro t ht hst
      rcases (Table.mem_create write).mp ht with ht | rfl
      · exact hf t ht hst
      · rw [TransactionCreate.row, show _ = TransactionStatus.draft from hj] at hst
        cases hst
  | transactionUpdateBuyer write =>
      exact Table.forall_update write (fun t ht _ hst => hf t ht hst) fun t ht => hf t ht
  | frame same => exact fundedPaid_of_eq hf hs same.transactions
  | _ => exact fundedPaid_of_eq hf hs rfl

theorem fundedPaid_drift {m : Move} (hf : FundedPaid u) (hm : drift m u = some w) :
    FundedPaid w := by
  have hs := staysCollected_drift hm
  cases m with
  | merge source target =>
      obtain ⟨transactions, payouts, invoices, disputes, write, -, -, -, rfl⟩ := drift_merge hm
      exact Table.forall_update write (fun t ht _ hst => hf t ht hst) fun t ht => hf t ht
  | charge reference =>
      simp only [drift] at hm
      split at hm <;> cases hm
      exact fundedPaid_of_eq hf hs rfl
  | _ => cases hm; exact fundedPaid_of_eq hf hs rfl

/-! ## The layer -/

theorem wrote_cons {op : Op} {o : Outcome} {a : Except Err op.Ans} (hw : Wrote h u)
    (hs : StaysCollected u w) (he : exec op o u = some (a, w)) : Wrote (⟨op, a⟩ :: h) w := by
  intro id d p hsaw hd
  rcases saw_cons hsaw with heq | hsaw
  · cases heq
    obtain ⟨hp, p₀, -, hid, rfl⟩ := exec_answered he
    refine ⟨_, hp, hid, rfl, ?_⟩
    simp [PaymentUpdate.apply, hd]
  · exact hs _ _ (hw id d p hsaw hd)

/-- The layer of runs that write payments only while they are as read. -/
def collect (env : Env) : Layer (ground env) (paymentsCurrent env) where
  inv := FundedPaid
  rel := StaysCollected
  know _ h w := Wrote h w
  rel_refl _ _ _ hcol := hcol
  rel_trans huv hvw _ _ hcol := hvw _ _ (huv _ _ hcol)
  know_nil _ _ _ _ _ _ hsaw := absurd hsaw List.not_mem_nil
  know_rel _ hs hw id d p hsaw hd := hs _ _ (hw id d p hsaw hd)
  drift _ _ hf hm := ⟨fundedPaid_drift hf hm, staysCollected_drift hm⟩
  exec _ hk hj _ _ _ hf hw hG he :=
    have hs := staysCollected_change hj hG (exec_change he)
    ⟨fundedPaid_change hk hw hj hf hs (exec_change he), hs, wrote_cons hw hs he⟩

theorem collect_holds {x : Config (core env)} (hx : Reachable env (paymentsCurrent env) x) :
    (collect env).outline.Holds x :=
  ((collect env).outline.holds_reaches ((collect env).outline.holds_init
    ⟨ground_initial, fun t ht => absurd ht (Table.not_mem_empty t)⟩) hx).1

/-- **What a payment keeps.** In every run that writes payments only while they are as read, a
collected payment stays collected, and every funded transaction has one. -/
theorem collected_kept {x : Config (core env)} (hx : Reachable env (paymentsCurrent env) x) :
    (∀ y, Reaches (paymentsCurrent env) x y → ∀ p ∈ World.payments x.world, p.status = .success →
      ∃ p' ∈ World.payments y.world, p'.id = p.id ∧ p'.status = .success) ∧
    ∀ t ∈ World.transactions x.world, t.status.funded = true →
      ∃ p ∈ World.payments x.world, p.transactionId = t.id ∧ p.status = .success := by
  have hinv := collect_holds hx
  refine ⟨fun y hxy p hp hst => ?_, fun t ht hst => ?_⟩
  · have hs := ((collect env).outline.holds_reaches hinv hxy).2.2
    obtain ⟨p', hp', hid, -, hst'⟩ := hs p.id p.transactionId ⟨p, hp, rfl, rfl, hst⟩
    exact ⟨p', hp', hid, hst'⟩
  · obtain ⟨id, p, hp, -, htx, hst'⟩ := hinv.inv.2 t ht hst
    exact ⟨p, hp, htx, hst'⟩

namespace Demo

variable (env : Env)

/-- One verification is answered `abandoned` before another one is answered `success`. -/
def overtaken : List (Label (core env)) :=
  checkout env ++ [.arrive (.verify reference), serve env 3,
    serve env 3 { id := sale, status := "abandoned" },
    .arrive (.verify reference), serve env 4, verified env 4] ++ serves env 4 3

def paymentStatuses (w : World) : List PaymentStatus := w.payments.rows.map Payment.status

end Demo

set_option maxRecDepth 20000 in
/-- **The overtaken verification writes its answer over the collection.** -/
theorem collected_lost : ¬ ∀ (env : Env) (x : Config (core env)), Reachable env Guard.free x →
    (∀ y, Reaches Guard.free x y → ∀ p ∈ World.payments x.world, p.status = .success →
      ∃ p' ∈ World.payments y.world, p'.id = p.id ∧ p'.status = .success) ∧
    ∀ t ∈ World.transactions x.world, t.status.funded = true →
      ∃ p ∈ World.payments x.world, p.transactionId = t.id ∧ p.status = .success := by
  intro hall
  have hrun : ((Config.run Guard.free (Demo.overtaken Demo.silent)
      ⟨World.initial, []⟩).bind fun x => (Config.run Guard.free [Demo.serve _ 3] x).map fun y =>
        decide (Demo.paymentStatuses x.world = [.success] ∧
          Demo.paymentStatuses y.world = [.abandoned])) = some true := by decide
  obtain ⟨x, y, hx, hxy, htest⟩ := reachable_of_runs hrun
  obtain ⟨hpaid, hlost⟩ := of_decide_eq_true htest
  obtain ⟨p, hp, hst⟩ := (Table.of_map_eq_singleton hpaid).1
  obtain ⟨p', hp', -, hst'⟩ := (hall _ x hx).1 y hxy p hp hst
  rw [(Table.of_map_eq_singleton hlost).2 p' hp'] at hst'
  cases hst'

set_option maxRecDepth 20000 in
/-- A sale whose payment was verified once keeps it through its delivery. -/
theorem collected_kept_delivery : ∃ x y : Config (core Demo.silent),
    Reachable _ (paymentsCurrent _) x ∧ Reaches (paymentsCurrent _) x y ∧
      Demo.paymentStatuses x.world = [.success] ∧
      ∃ p' ∈ World.payments y.world, p'.status = .success := by
  have hrun : ((Config.run (paymentsCurrent _) (Demo.checkout Demo.silent ++
      (Demo.delivery Demo.silent).take 5) ⟨World.initial, []⟩).bind fun x =>
        (Config.run (paymentsCurrent _) ((Demo.delivery Demo.silent).drop 5) x).map fun y =>
          decide (Demo.paymentStatuses x.world = [.success])) = some true := by decide
  obtain ⟨x, y, hx, hxy, htest⟩ := reachable_of_runs hrun
  have hpaid := of_decide_eq_true htest
  obtain ⟨p, hp, hst⟩ := (Table.of_map_eq_singleton hpaid).1
  obtain ⟨p', hp', -, hst'⟩ := (collected_kept hx).1 y hxy p hp hst
  exact ⟨x, y, hx, hxy, hpaid, p', hp', hst'⟩

end Meduman
