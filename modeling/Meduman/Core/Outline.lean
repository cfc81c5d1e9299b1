import Meduman.Core.Known

/-!
# Every world is grounded

What one step preserves, change by change, and from it what every run of the system preserves.

* `Ground.of_grows` : old rows stay grounded while the world grows
* `step_commit`, `step_payoutUpdate`, … : the changes that add or rewrite a row
* `ground_change`, `ground_drift` : every change, every move of the environment
* **`ground`** : the outline of the system
* `Reachable.ground` : its run rule, read off
* `Demo` : the steps of one sale
-/

set_option autoImplicit false

namespace Meduman

open Effect

variable {env : Env} {c : Call} {h : Hist} {u w : World}

/-! ## Old rows and new rows -/

/-- The rows a step added or rewrote are grounded. -/
structure NewRows (u w : World) : Prop where
  payouts : ∀ p ∈ w.payouts, p ∈ u.payouts ∨ PayoutGround w p
  transfers : ∀ t ∈ w.paystack.transfers, t ∈ u.paystack.transfers ∨ TransferGround w t
  payments : ∀ p ∈ w.payments, p ∈ u.payments ∨ PaymentGround w p
  charges : ∀ r ∈ w.paystack.charges, r ∈ u.paystack.charges ∨ (isOurReference r = true →
    ∃ p ∈ w.payments, p.providerReference = r)
  timeline : ∀ e ∈ w.timeline, e ∈ u.timeline ∨ ProtectedGround w e
  transactions : ∀ t ∈ w.transactions, t ∈ u.transactions ∨ FundedGround w t

/-- References and codes of transfers are unique. -/
abbrev DistinctTransfers (w : World) : Prop := w.paystack.transfers.Pairwise fun a b =>
  a.reference ≠ b.reference ∧ a.transferCode ≠ b.transferCode

/-- **Old rows stay grounded.** -/
theorem Ground.of_grows (hu : Ground u) (hg : Grows u w) (hn : NewRows u w)
    (distinct : DistinctTransfers w) : Ground w where
  payouts p hp := (hn.payouts p hp).elim (fun h => (hu.payouts p h).mono hg) id
  transfers t ht := (hn.transfers t ht).elim (fun h => (hu.transfers t h).mono hg) id
  distinct := distinct
  payments p hp := (hn.payments p hp).elim (fun h => (hu.payments p h).mono hg) id
  charges r hr hours :=
    (hn.charges r hr).elim (fun h => charge_mono (hu.charges r h hours) hg) fun h => h hours
  timeline e he := (hn.timeline e he).elim (fun h => (hu.timeline e h).mono hg) id
  transactions t ht := (hn.transactions t ht).elim (fun h => (hu.transactions t h).mono hg) id

theorem SameCore.grows (hs : SameCore u w) : Grows u w where
  transactions t ht := ⟨t, by rw [hs.transactions]; exact ht, .refl t⟩
  payments p hp := ⟨p, by rw [hs.payments]; exact hp, .refl p⟩
  payouts p hp := ⟨p, by rw [hs.payouts]; exact hp, .refl p⟩
  transfers t ht := ⟨t, by rw [hs.paystack]; exact ht, .refl t⟩
  charges := by rw [hs.paystack]; exact List.Subset.refl _
  verified := by rw [hs.paystack]; exact List.Subset.refl _
  timeline := by rw [hs.timeline]; exact List.Subset.refl _

theorem SameCore.newRows (hs : SameCore u w) : NewRows u w where
  payouts _ hp := .inl (hs.payouts ▸ hp)
  transfers _ ht := .inl (hs.paystack ▸ ht)
  payments _ hp := .inl (hs.payments ▸ hp)
  charges _ hr := .inl (hs.paystack ▸ hr)
  timeline _ he := .inl (hs.timeline ▸ he)
  transactions _ ht := .inl (hs.transactions ▸ ht)

/-- What a step keeps. -/
abbrev StepKeeps (u w : World) : Prop := Grows u w ∧ Ground w

/-! One table changed. -/

section OneTable

variable {α : Type} {l : List α} {P : α → Prop}

theorem old : ∀ a ∈ l, a ∈ l ∨ P a := fun _ ha => .inl ha

theorem Ground.of_transactions (hu : Ground u) {t : Table Transaction}
    (hg : Grows u { u with transactions := t })
    (hn : ∀ a ∈ t, a ∈ u.transactions ∨ FundedGround { u with transactions := t } a) :
    StepKeeps u { u with transactions := t } :=
  ⟨hg, hu.of_grows hg ⟨old, old, old, old, old, hn⟩ hu.distinct⟩

theorem Ground.of_payments (hu : Ground u) {t : Table Payment}
    (hg : Grows u { u with payments := t })
    (hn : ∀ a ∈ t, a ∈ u.payments ∨ PaymentGround { u with payments := t } a) :
    StepKeeps u { u with payments := t } :=
  ⟨hg, hu.of_grows hg ⟨old, old, hn, old, old, old⟩ hu.distinct⟩

theorem Ground.of_payouts (hu : Ground u) {t : Table Payout}
    (hg : Grows u { u with payouts := t })
    (hn : ∀ a ∈ t, a ∈ u.payouts ∨ PayoutGround { u with payouts := t } a) :
    StepKeeps u { u with payouts := t } :=
  ⟨hg, hu.of_grows hg ⟨hn, old, old, old, old, old⟩ hu.distinct⟩

theorem Ground.of_charges (hu : Ground u) {charges : List String}
    (hg : Grows u { u with paystack := { u.paystack with charges := charges } })
    (hn : ∀ r ∈ charges, r ∈ u.paystack.charges ∨ (isOurReference r = true →
      ∃ p ∈ u.payments, p.providerReference = r)) :
    StepKeeps u { u with paystack := { u.paystack with charges := charges } } :=
  ⟨hg, hu.of_grows hg ⟨old, old, old, hn, old, old⟩ hu.distinct⟩

theorem Ground.of_transfers (hu : Ground u) {transfers : List Transfer}
    (hg : Grows u { u with paystack := { u.paystack with transfers := transfers } })
    (hn : ∀ t ∈ transfers, t ∈ u.paystack.transfers ∨
      TransferGround { u with paystack := { u.paystack with transfers := transfers } } t)
    (distinct : transfers.Pairwise fun a b =>
      a.reference ≠ b.reference ∧ a.transferCode ≠ b.transferCode) :
    StepKeeps u { u with paystack := { u.paystack with transfers := transfers } } :=
  ⟨hg, hu.of_grows hg ⟨old, hn, old, old, old, old⟩ distinct⟩

end OneTable

theorem step_frame (hu : Ground u) (hs : SameCore u w) : StepKeeps u w :=
  ⟨hs.grows, hu.of_grows hs.grows hs.newRows (by
    rw [DistinctTransfers, hs.paystack]
    exact hu.distinct)⟩

/-- Transfers that agree on their reference are one transfer. -/
theorem Ground.transfer_eq (hw : Ground w) {a b : Transfer} (ha : a ∈ w.paystack.transfers)
    (hb : b ∈ w.paystack.transfers) (h : a.reference = b.reference) : a = b := by
  by_contra hne
  have hsym : Std.Symm fun a b : Transfer =>
      a.reference ≠ b.reference ∧ a.transferCode ≠ b.transferCode :=
    ⟨fun a b hab => ⟨hab.1.symm, hab.2.symm⟩⟩
  exact (hw.distinct.forall ha hb hne).1 h

/-- Transfers that agree on their code are one transfer. -/
theorem Ground.transfer_eq_of_code (hw : Ground w) {a b : Transfer}
    (ha : a ∈ w.paystack.transfers) (hb : b ∈ w.paystack.transfers)
    (h : a.transferCode = b.transferCode) : a = b := by
  by_contra hne
  have hsym : Std.Symm fun a b : Transfer =>
      a.reference ≠ b.reference ∧ a.transferCode ≠ b.transferCode :=
    ⟨fun a b hab => ⟨hab.1.symm, hab.2.symm⟩⟩
  exact (hw.distinct.forall ha hb hne).2 h

/-- A transfer under one of a payout's references is a transfer of its transaction. -/
theorem Ground.reason_of_reference (hw : Ground w) {t : Transfer} (ht : t ∈ w.paystack.transfers)
    {id : Uuid} (href : IsReference (releaseIdempotencyKey id) t.reference) :
    t.reason = transferReason id := by
  obtain ⟨p, hp, hreason, -, href', -⟩ := (hw.transfers t ht).payout
  rw [(hw.payouts p hp).key] at href'
  rw [hreason, isReference_injective href' href]

/-! ## Transactions -/

theorem step_transactionCreate {d : TransactionCreate} {id : Uuid} {t : Table Transaction}
    (hu : Ground u) (hj : d.status = .draft) (write : u.transactions.create (d.row id) = some t) :
    StepKeeps u { u with transactions := t } := by
  have hg : Grows u { u with transactions := t } :=
    { Grows.refl u with transactions := Table.exists_create write .refl }
  refine hu.of_transactions hg fun t' ht' => ?_
  rcases (Table.mem_create write).mp ht' with ht' | rfl
  · exact .inl ht'
  · refine .inr fun hfunded => ?_
    rw [TransactionCreate.row, hj] at hfunded
    cases hfunded

theorem step_transactionUpdateBuyer {id buyerId : Uuid} {t : Table Transaction} (hu : Ground u)
    (write : u.transactions.update (fun t => t.id == id)
      (fun t => { t with buyerId := some buyerId }) = some t) :
    StepKeeps u { u with transactions := t } := by
  have hg : Grows u { u with transactions := t } :=
    { Grows.refl u with
      transactions := Table.exists_update write .refl fun _ _ _ =>
        ⟨rfl, rfl, rfl, rfl, fun hrel => hrel⟩ }
  refine hu.of_transactions hg ?_
  exact Table.forall_update write
    (fun t ht _ => .inr ((hu.transactions t ht).mono hg : FundedGround _ t)) fun t ht => .inl ht

/-- Every driven event is one some service emits. -/
theorem emitted_of_justified {input : ApplyTransitionInput} (hj : EventJustified h input) :
    emitted input.event = true := by
  unfold EventJustified at hj
  split at hj
  · rename_i hev; rw [hev]; rfl
  · rename_i hev; rw [hev]; rfl
  · rename_i hverified hpayout
    rcases hj with hev | hev
    · unfold emitted
      split
      · rfl
      · rfl
      · rfl
      · exact hev
    · rw [hev]; rfl

/-- What stands behind a protection. -/
theorem Verified.collected {p : Payment} {reference : String} {v : VerifyTransactionResult}
    (hv : Verified h p reference v) (hk : Known env c h w) :
    v.reference = reference ∧ ∃ p', p.Later p' ∧ Collected w p' v := by
  obtain ⟨hmem, href⟩ := hk.remembered _ _ hv.asked
  obtain ⟨p', hp', hl⟩ := (hk.payment hv.shown).later
  refine ⟨href, ?_⟩
  rcases hv.ours with hown | hbound | hbind
  · exact ⟨p', hl, hp', hmem, hv.success, hv.amount.trans hl.amount.symm,
      .inl (by rw [hl.providerReference, hown, href])⟩
  · exact ⟨p', hl, hp', hmem, hv.success, hv.amount.trans hl.amount.symm,
      .inr (by rw [hl.providerChargeReference _ hbound, href])⟩
  · obtain ⟨q, hq, hid, hcharge⟩ := hk.remembered _ _ hbind Nat.one_pos
    have heq : q = p' := Table.eq_of_clash hq hp' (by simp [Constrained.clash, hid, hl.id])
    exact ⟨p', hl, hp', hmem, hv.success, hv.amount.trans hl.amount.symm,
      .inr (by rw [← heq, hcharge, href])⟩

/-- **A protection has a collected payment behind it.** -/
theorem protected_of_commit {d : TransitionWrite} (hk : Known env c h w)
    (hj : CommitJustified h d) : ProtectedGround w d.timeline := by
  obtain ⟨input, tx, disputes, nextState, -, hok, rfl, hev⟩ := hj
  intro hnew
  have hnext := TransactionStatus.text_injective hnew
  have hedge := edges_protected _ (transition_ok hok) (emitted_of_justified hev) hnext
  obtain ⟨source, hsource⟩ := hedge.2
  simp only at hsource
  rw [EventJustified, hsource] at hev
  obtain ⟨p, reference, v, src, -, -, hv, -, -, hinput⟩ := hev
  obtain ⟨href, p', hl, hcol⟩ := hv.collected hk
  refine ⟨p', v, src, hcol, ?_, ?_⟩
  · rw [hl.transactionId, hinput]; rfl
  · rw [hinput, href]
    simp [ApplyTransitionInput.write, protection, truthy, protectReason]

theorem later_of_commit {d : TransitionWrite} (hj : CommitJustified h d) {t : Transaction}
    (hsel : d.selects t = true) : t.Later { t with status := d.newState } := by
  obtain ⟨input, tx, disputes, nextState, -, hok, rfl, hev⟩ := hj
  refine ⟨rfl, rfl, rfl, rfl, fun hrel => ?_⟩
  have hold : t.status = tx.status := by
    simp only [TransitionWrite.selects, Bool.and_eq_true, beq_iff_eq] at hsel
    exact hsel.2
  rw [hold] at hrel
  exact edges_released _ (transition_ok hok) (emitted_of_justified hev) hrel

/-- The flip of a transition keeps funded transactions funded, and records every protection. -/
theorem funded_of_commit {d : TransitionWrite} (hj : CommitJustified h d) {t : Transaction}
    (hsel : d.selects t = true) (ht : FundedGround u t) (hg : Grows u w)
    (hrow : d.timeline ∈ w.timeline) : FundedGround w { t with status := d.newState } := by
  obtain ⟨input, tx, disputes, nextState, -, hok, rfl, hev⟩ := hj
  simp only [TransitionWrite.selects, Bool.and_eq_true, beq_iff_eq] at hsel
  intro hnew
  rcases edges_funded _ (transition_ok hok) (emitted_of_justified hev) hnew with hold | hnext
  · exact (ht.mono hg) (by rw [hsel.2]; exact hold)
  · exact ⟨_, hrow, hsel.1.symm, congrArg TransactionStatus.text hnext⟩

theorem step_commit {d : TransitionWrite} (hu : Ground u) (hk : Known env c h u)
    (hj : CommitJustified h d)
    (write : u.transactions.update d.selects (fun t => { t with status := d.newState }) =
      some w.transactions)
    (payments : w.payments = u.payments) (payouts : w.payouts = u.payouts)
    (timeline : w.timeline = u.timeline ++ [d.timeline]) (paystack : w.paystack = u.paystack) :
    StepKeeps u w := by
  have hg : Grows u w :=
    { transactions := Table.exists_update write .refl fun t _ hsel => later_of_commit hj hsel
      payments := fun p hp => ⟨p, by rw [payments]; exact hp, .refl p⟩
      payouts := fun p hp => ⟨p, by rw [payouts]; exact hp, .refl p⟩
      transfers := fun t ht => ⟨t, by rw [paystack]; exact ht, .refl t⟩
      charges := by rw [paystack]; exact List.Subset.refl _
      verified := by rw [paystack]; exact List.Subset.refl _
      timeline := by rw [timeline]; exact List.subset_append_left _ _ }
  have hrow : d.timeline ∈ w.timeline := by
    rw [timeline]; exact List.mem_append_right _ (List.mem_singleton_self _)
  refine ⟨hg, hu.of_grows hg
    { payouts := fun _ hp => .inl (payouts ▸ hp)
      transfers := fun _ ht => .inl (paystack ▸ ht)
      payments := fun _ hp => .inl (payments ▸ hp)
      charges := fun _ hr => .inl (paystack ▸ hr)
      timeline := fun e he => ?_
      transactions := Table.forall_update write
        (fun t ht hsel => .inr (funded_of_commit hj hsel (hu.transactions t ht) hg hrow))
        fun t ht => .inl ht } (by rw [DistinctTransfers, paystack]; exact hu.distinct)⟩
  rw [timeline, List.mem_append, List.mem_singleton] at he
  rcases he with he | rfl
  · exact .inl he
  · exact .inr (protected_of_commit (hk.mono hg) hj)

/-! ## Payments -/

theorem step_paymentCreate {d : PaymentCreate} {id : Uuid} {now : Int} {t : Table Payment}
    (hu : Ground u) (hk : Known env c h u) (hours : isOurReference d.providerReference = true)
    (hj : ∃ t, TransactionShown h t ∧ t.id = d.transactionId ∧ d.amount = chargeAmountFor t)
    (write : u.payments.create (d.row id now) = some t) :
    StepKeeps u { u with payments := t } := by
  have hg : Grows u { u with payments := t } :=
    { Grows.refl u with payments := Table.exists_create write .refl }
  refine hu.of_payments hg fun p hp => ?_
  rcases (Table.mem_create write).mp hp with hp | rfl
  · exact .inl hp
  · obtain ⟨tx, htx, hid, ham⟩ := hj
    obtain ⟨tx', htx', hl⟩ := hk.transaction htx
    refine .inr ⟨⟨tx', htx', hl.id.trans hid, ?_⟩, hours, fun r hr => by cases hr⟩
    rw [chargeAmountFor, hl.amount, hl.feeModel, hl.feeAmount]
    exact ham

theorem step_paymentUpdate {id : Uuid} {d : PaymentUpdate} {t : Table Payment} (hu : Ground u)
    (write : u.payments.update (fun p => p.id == id) d.apply = some t) :
    StepKeeps u { u with payments := t } := by
  have hg : Grows u { u with payments := t } :=
    { Grows.refl u with
      payments := Table.exists_update write .refl fun _ _ _ =>
        ⟨rfl, rfl, rfl, rfl, fun _ hr => hr⟩ }
  refine hu.of_payments hg ?_
  refine Table.forall_update write (fun p hp _ => .inr ?_) fun p hp => .inl hp
  have hp := (hu.payments p hp).mono hg
  exact ⟨hp.transaction, hp.ours, hp.theirs⟩

theorem step_paymentBindCharge {id : Uuid} {reference : String} {t : Table Payment}
    (hu : Ground u) (htheirs : isOurReference reference = false)
    (write : u.payments.update (fun p => p.id == id && p.providerChargeReference.isNone)
      (fun p => { p with providerChargeReference := some reference }) = some t) :
    StepKeeps u { u with payments := t } := by
  have hg : Grows u { u with payments := t } :=
    { Grows.refl u with
      payments := Table.exists_update write .refl fun p _ hsel =>
        ⟨rfl, rfl, rfl, rfl, fun r hr => by simp [hr] at hsel⟩ }
  refine hu.of_payments hg ?_
  refine Table.forall_update write (fun p hp _ => .inr ?_) fun p hp => .inl hp
  have hp := (hu.payments p hp).mono hg
  exact ⟨hp.transaction, hp.ours, fun r hr => by cases hr; exact htheirs⟩

theorem step_initializeTransaction {i : InitializeTransactionInput} (hu : Ground u)
    (hk : Known env c h u)
    (hj : ∃ d p, Saw h (.paymentCreate d) p ∧ d.providerReference = i.reference) :
    StepKeeps u { u with paystack := { u.paystack with
      charges := u.paystack.charges ++ [i.reference] } } := by
  have hg : Grows u { u with paystack := { u.paystack with
      charges := u.paystack.charges ++ [i.reference] } } :=
    { Grows.refl u with charges := List.subset_append_left _ _ }
  refine hu.of_charges hg fun r hr => ?_
  rcases List.mem_append.mp hr with hr | hr
  · exact .inl hr
  · obtain ⟨d, p, hsaw, href⟩ := hj
    obtain ⟨hp, hown⟩ := hk.remembered _ _ hsaw
    obtain ⟨p', hp', hl⟩ := hp.later
    refine .inr fun _ => ⟨p', hp', ?_⟩
    rw [List.mem_singleton.mp hr, hl.providerReference, hown, href]

theorem step_verifyTransaction {v : VerifyTransactionResult} (hu : Ground u) :
    StepKeeps u { u with paystack := { u.paystack with
      verified := u.paystack.verified ++ [v] } } := by
  have hg : Grows u { u with paystack := { u.paystack with
      verified := u.paystack.verified ++ [v] } } :=
    { Grows.refl u with verified := List.subset_append_left _ _ }
  exact ⟨hg, hu.of_grows hg ⟨old, old, old, old, old, old⟩ hu.distinct⟩

/-! ## Payouts -/

theorem step_payoutCreate {d : PayoutCreate} {id : Uuid} {t : Table Payout} (hu : Ground u)
    (hk : Known env c h u) (hj : Justified env c h (.payoutCreate d))
    (write : u.payouts.create (d.row id) = some t) : StepKeeps u { u with payouts := t } := by
  have hg : Grows u { u with payouts := t } :=
    { Grows.refl u with payouts := Table.exists_create write .refl }
  refine hu.of_payouts hg fun p hp => ?_
  rcases (Table.mem_create write).mp hp with hp | rfl
  · exact .inl hp
  · obtain ⟨tx, htx, hid, hrel, hkey, hst, ham⟩ := hj
    obtain ⟨tx', htx', hl⟩ := hk.transaction htx
    refine .inr ⟨?_, ⟨tx', htx', hl.id.trans hid, ?_, ?_⟩,
      (fun _ hr => by cases hr), (fun _ hc => by cases hc), fun hover => ?_⟩
    · rw [PayoutCreate.row, hkey, hid]
    · exact hl.released (by rw [hrel]; rfl)
    · rw [hl.amount, hl.feeModel, hl.feeAmount]
      exact ham
    · rw [PayoutCreate.row, hst] at hover
      rcases hover with hover | hover <;> cases hover

/-- A transfer whose code a call may write to a payout is a transfer of the payout's transaction. -/
theorem CodeSource.transfer {key code : String} {id : Uuid} (hu : Ground u)
    (hk : Known env c h u) (hkey : key = releaseIdempotencyKey id)
    (hs : CodeSource env c h key code) :
    ∃ t ∈ u.paystack.transfers, t.transferCode = code ∧ t.reason = transferReason id := by
  subst hkey
  have hown : ∀ p, PayoutShown h p → p.idempotencyKey = releaseIdempotencyKey id →
      p.transactionId = id := fun p hp hkey =>
    releaseIdempotencyKey_injective ((hk.payout hp).ground.key.symm.trans hkey)
  rcases hs with ⟨r, v, hsaw, hv, hr⟩ | ⟨i, r, p, hsaw, hr, hp, hkey, hi⟩ | hr
  · obtain ⟨t, ht, href, hcode⟩ := hk.remembered _ _ hsaw
    refine ⟨t, ht, hcode.trans hv, ?_⟩
    rcases hr with hr | ⟨p, hp, hkey, hpr⟩
    · exact hu.reason_of_reference ht (by rw [href]; exact hr)
    · obtain ⟨t', ht', href', hreason⟩ := (hk.payout hp).ground.reference r hpr
      rw [hu.transfer_eq ht ht' (href.trans href'.symm), hreason, hown p hp hkey]
  · obtain ⟨t, ht, -, hcode, hreason⟩ := hk.remembered _ _ hsaw
    exact ⟨t, ht, hcode.trans hr, by rw [hreason, hi, hown p hp hkey]⟩
  · obtain ⟨t, ht, href, hcode, -⟩ := hk.told.settled _ _ hr
    exact ⟨t, ht, hcode, hu.reason_of_reference ht (.inl href)⟩

theorem ReferenceSource.transfer {key reference : String} {id : Uuid} (hu : Ground u)
    (hk : Known env c h u) (hkey : key = releaseIdempotencyKey id)
    (hs : ReferenceSource h key reference) : HasTransfer u id reference := by
  subst hkey
  rcases hs with ⟨v, hsaw, hr⟩ | ⟨i, r, p, hsaw, href, hp, hkey, hi⟩
  · obtain ⟨t, ht, href, -⟩ := hk.remembered _ _ hsaw
    exact ⟨t, ht, href, hu.reason_of_reference ht (by rw [href]; exact hr)⟩
  · obtain ⟨t, ht, href', -, hreason⟩ := hk.remembered _ _ hsaw
    have hown := releaseIdempotencyKey_injective ((hk.payout hp).ground.key.symm.trans hkey)
    exact ⟨t, ht, href'.trans href, by rw [hreason, hi, hown]⟩

/-- An updated payout is grounded. -/
theorem PayoutWrite.ground {key : String} {d : PayoutUpdate} {p : Payout} (hu : Ground u)
    (hk : Known env c h u) (hj : PayoutWrite env c h key d) (hp : p ∈ u.payouts)
    (hpk : p.idempotencyKey = key) : PayoutGround u (d.apply p) := by
  have hold := hu.payouts p hp
  have hkey : key = releaseIdempotencyKey p.transactionId := hpk.symm.trans hold.key
  refine ⟨hold.key, hold.transaction, fun r hr => ?_, fun code hc => ?_, fun hover => ?_⟩
  · cases hd : d.providerTransferReference with
    | none => exact hold.reference r (by simpa [PayoutUpdate.apply, hd] using hr)
    | some r' =>
        have hr' : r' = some r := by simpa [PayoutUpdate.apply, hd] using hr
        exact (hj.reference r (by rw [hd, hr'])).transfer hu hk hkey
  · cases hd : d.providerTransferCode with
    | none => exact hold.code code (by simpa [PayoutUpdate.apply, hd] using hc)
    | some code' =>
        have hc' : code' = some code := by simpa [PayoutUpdate.apply, hd] using hc
        exact (hj.code code (by rw [hd, hc'])).transfer hu hk hkey
  · cases hd : d.status with
    | none => exact hold.failed (by simpa [PayoutUpdate.apply, hd] using hover)
    | some s =>
        obtain ⟨t, ht, href, hst⟩ := hk.told.failed key (hj.failed (by
          simpa [PayoutUpdate.apply, hd] using hover))
        exact ⟨t, ht, href.trans hpk.symm, hst⟩

theorem step_payoutUpdate {key : String} {d : PayoutUpdate} {t : Table Payout} (hu : Ground u)
    (hk : Known env c h u) (hj : PayoutWrite env c h key d)
    (write : u.payouts.update (fun p => p.idempotencyKey == key) d.apply = some t) :
    StepKeeps u { u with payouts := t } := by
  have hg : Grows u { u with payouts := t } :=
    { Grows.refl u with
      payouts := Table.exists_update write .refl fun _ _ _ => ⟨rfl, rfl, rfl, rfl⟩ }
  refine hu.of_payouts hg ?_
  exact Table.forall_update write
    (fun p hp hpk => .inr ((hj.ground hu hk hp (by simpa using hpk)).mono hg)) fun p hp => .inl hp

theorem step_initiateTransfer {i : InitiateTransferInput} {t : Transfer} {p : Payout}
    (hu : Ground u) (hk : Known env c h u) (hj : TransferSend c h i p)
    (unused : ∀ t ∈ u.paystack.transfers, t.reference ≠ i.reference)
    (code : ∀ t' ∈ u.paystack.transfers, t'.transferCode ≠ t.transferCode)
    (sent : t = ⟨i.reference, t.transferCode, i.amount, i.recipient, i.reason, .pending, false⟩) :
    StepKeeps u { u with paystack := { u.paystack with
      transfers := u.paystack.transfers ++ [t] } } := by
  have href : t.reference = i.reference := by rw [sent]
  have hg : Grows u { u with paystack := { u.paystack with
      transfers := u.paystack.transfers ++ [t] } } :=
    { Grows.refl u with
      transfers := fun t' ht' => ⟨t', List.mem_append_left _ ht', .refl t'⟩ }
  refine hu.of_transfers hg (fun t' ht' => ?_) ?_
  · rcases List.mem_append.mp ht' with ht' | ht'
    · exact .inl ht'
    · obtain rfl := List.mem_singleton.mp ht'
      obtain ⟨p', hp', hl⟩ := (hk.payout (lastPayout_shown hj.last)).later
      refine .inr ⟨⟨p', hp', ?_, ?_, ?_, ?_⟩, fun _ => by rw [sent], fun hst => by
        rw [sent] at hst; cases hst⟩
      · rw [hl.transactionId, ← hj.reason, sent]
      · rw [hl.amount, ← hj.amount, sent]
      · rw [hl.idempotencyKey, href]
        exact hj.reference.imp (fun hr => hr.2) fun hr => hr.2.1
      · rw [hl.idempotencyKey]
        rcases hj.reference with ⟨-, hkey⟩ | ⟨-, -, -, p₀, hp₀, hkey, hover⟩
        · exact ⟨_, List.mem_append_right _ (List.mem_singleton_self _), href.trans hkey⟩
        · obtain ⟨t₀, ht₀, href₀, -⟩ := (hk.payout hp₀).ground.failed hover
          exact ⟨t₀, List.mem_append_left _ ht₀, href₀.trans hkey⟩
  · refine List.pairwise_append.mpr ⟨hu.distinct, List.pairwise_singleton _ _, fun a ha b hb => ?_⟩
    rw [List.mem_singleton.mp hb, href]
    exact ⟨unused a ha, code a ha⟩

theorem step_webhookEvents (hu : Ground u) (t : Table WebhookEvent) :
    StepKeeps u { u with webhookEvents := t } := by
  have hg : Grows u { u with webhookEvents := t } := { Grows.refl u with }
  exact ⟨hg, hu.of_grows hg ⟨old, old, old, old, old, old⟩ hu.distinct⟩

/-! ## Every change -/

/-- **Step lemma.** -/
theorem ground_change {op : Op} (hu : Ground u) (hk : Known env c h u)
    (hj : Justified env c h op) (hc : Change op u w) : StepKeeps u w := by
  cases hc with
  | frame same => exact step_frame hu same
  | transactionCreate write => exact step_transactionCreate hu hj write
  | transactionUpdateBuyer write => exact step_transactionUpdateBuyer hu write
  | commit found write payments payouts webhookEvents timeline paystack =>
      exact step_commit hu hk hj write payments payouts timeline paystack
  | paymentCreate write => exact step_paymentCreate hu hk hj.2.1 hj.2.2 write
  | paymentUpdate write => exact step_paymentUpdate hu write
  | paymentBindCharge write =>
      exact step_paymentBindCharge hu (hk.looked _ hj.1 hj.2) write
  | payoutCreate write => exact step_payoutCreate hu hk hj write
  | payoutUpdate write => exact step_payoutUpdate hu hk hj write
  | webhookEventCreate write => exact step_webhookEvents hu _
  | webhookEventUpdate write => exact step_webhookEvents hu _
  | initializeTransaction => exact step_initializeTransaction hu hk hj
  | verifyTransaction asked steady => exact step_verifyTransaction hu
  | initiateTransfer unused code sent =>
      obtain ⟨p, hj⟩ := hj
      exact step_initiateTransfer hu hk hj unused code sent

/-! ## The environment -/

/-- A transfer moves on: only its status changes, not once it failed, and no success is forgotten. -/
structure MovesOn (f : Transfer → Transfer) : Prop where
  later : ∀ t : Transfer, t.Later (f t)
  unsettled : ∀ t, (t.status = .pending ∨ t.status = .failed → t.settled = false) →
    (f t).status = .pending ∨ (f t).status = .failed → (f t).settled = false
  settled : ∀ t, (t.status = .success → t.settled = true) →
    (f t).status = .success → (f t).settled = true

theorem movesOn_settle : MovesOn Transfer.settle where
  later t := by
    unfold Transfer.settle
    split
    · rename_i hst
      exact ⟨rfl, rfl, rfl, rfl, fun _ => rfl, fun hover => by simp [hst] at hover⟩
    · exact .refl t
  unsettled t ht := by unfold Transfer.settle; split <;> simp_all
  settled t ht := by unfold Transfer.settle; split <;> simp_all

theorem movesOn_fail : MovesOn Transfer.fail where
  later t := by
    unfold Transfer.fail
    split
    · rename_i hst
      exact ⟨rfl, rfl, rfl, rfl, id, fun hover => by simp [hst] at hover⟩
    · exact .refl t
  unsettled t ht := by unfold Transfer.fail; split <;> simp_all
  settled t ht := by unfold Transfer.fail; split <;> simp_all

theorem movesOn_reverse : MovesOn Transfer.reverse where
  later t := by
    unfold Transfer.reverse
    split
    · rename_i hst
      exact ⟨rfl, rfl, rfl, rfl, id, fun hover => by
        rcases hst with hst | hst <;> simp [hst] at hover⟩
    · exact .refl t
  unsettled t ht := by unfold Transfer.reverse; split <;> simp_all
  settled t ht := by unfold Transfer.reverse; split <;> simp_all

theorem step_moveTransfer {reference : String} {f : Transfer → Transfer} (hu : Ground u)
    (hf : MovesOn f) : StepKeeps u (u.moveTransfer reference f) := by
  have hmoved : ∀ t : Transfer, t.Later (if t.reference = reference then f t else t) := fun t => by
    split
    · exact hf.later t
    · exact .refl t
  have hg : Grows u (u.moveTransfer reference f) :=
    { Grows.refl u with
      transfers := fun t ht => ⟨_, List.mem_map_of_mem ht, hmoved t⟩ }
  refine hu.of_transfers hg (fun t ht => ?_) ?_
  · obtain ⟨t₀, ht₀, rfl⟩ := List.mem_map.mp ht
    have hold := (hu.transfers t₀ ht₀).mono hg
    refine .inr ⟨?_, ?_, ?_⟩
    · obtain ⟨p, hp, hreason, ham, href, hkey⟩ := hold.payout
      exact ⟨p, hp, (hmoved t₀).reason.trans hreason, (hmoved t₀).amount.trans ham,
        by rw [(hmoved t₀).reference]; exact href, hkey⟩
    · split
      · exact hf.unsettled t₀ hold.unsettled
      · exact hold.unsettled
    · split
      · exact hf.settled t₀ hold.settled
      · exact hold.settled
  · refine List.pairwise_map.mpr (hu.distinct.imp fun {a b} hab => ?_)
    rw [(hmoved a).reference, (hmoved b).reference, (hmoved a).transferCode,
      (hmoved b).transferCode]
    exact hab

theorem step_merge {source target : Uuid} {transactions : Table Transaction}
    {payouts : Table Payout} {invoices : Table Invoice} {disputes : Table Dispute} (hu : Ground u)
    (write : (u.transactions.update (fun _ => true) fun t =>
      { t with
        sellerId := t.sellerId.merged source target
        buyerId := t.buyerId.map fun u => u.merged source target }) = some transactions)
    (write' : (u.payouts.update (fun _ => true) fun p =>
      { p with sellerId := p.sellerId.merged source target }) = some payouts) :
    StepKeeps u { u with transactions, payouts, invoices, disputes } := by
  have hg : Grows u { u with transactions, payouts, invoices, disputes } :=
    { Grows.refl u with
      transactions := Table.exists_update write .refl fun _ _ _ => ⟨rfl, rfl, rfl, rfl, id⟩
      payouts := Table.exists_update write' .refl fun _ _ _ => ⟨rfl, rfl, rfl, rfl⟩ }
  refine ⟨hg, hu.of_grows hg ⟨?_, old, old, old, old, ?_⟩ hu.distinct⟩
  · exact Table.forall_update write'
      (fun p hp _ => .inr (by
        have hp := (hu.payouts p hp).mono hg
        exact ⟨hp.key, hp.transaction, hp.reference, hp.code, hp.failed⟩)) fun p hp => .inl hp
  · exact Table.forall_update write
      (fun t ht _ => .inr ((hu.transactions t ht).mono hg : FundedGround _ t)) fun t ht => .inl ht

/-- **The environment keeps the ground.** -/
theorem ground_drift {m : Move} (hu : Ground u) (hm : drift m u = some w) : StepKeeps u w := by
  cases m with
  | tick elapsed => cases hm; exact step_frame hu ⟨rfl, rfl, rfl, rfl, rfl, rfl⟩
  | settle reference => cases hm; exact step_moveTransfer hu movesOn_settle
  | fail reference => cases hm; exact step_moveTransfer hu movesOn_fail
  | reverse reference => cases hm; exact step_moveTransfer hu movesOn_reverse
  | charge reference =>
      simp only [drift] at hm
      split at hm
      · cases hm
      · rename_i htheirs
        cases hm
        have hg : Grows u { u with paystack := { u.paystack with
            charges := u.paystack.charges ++ [reference] } } :=
          { Grows.refl u with charges := List.subset_append_left _ _ }
        refine hu.of_charges hg fun r hr => ?_
        rcases List.mem_append.mp hr with hr | hr
        · exact .inl hr
        · rw [List.mem_singleton.mp hr]
          exact .inr fun hours => absurd hours htheirs
  | others users sellerProfiles disputes invoices =>
      cases hm
      exact step_frame hu ⟨rfl, rfl, rfl, rfl, rfl, rfl⟩
  | merge source target =>
      obtain ⟨transactions, payouts, invoices, disputes, write, write', -, -, rfl⟩ := drift_merge hm
      exact step_merge hu write write'

/-! ## Every run -/

/-- **The outline of the system.** -/
def ground (env : Env) : Outline (core env) Guard.free where
  inv := Ground
  rel := Grows
  know c h w := Known env c h w
  possible := Possible
  just c h op := Justified env c h op
  rel_refl := Grows.refl
  rel_trans := Grows.trans
  know_nil _ hadm := known_nil hadm
  know_rel hg hk := hk.mono hg
  drift hu hm := (ground_drift hu hm).symm
  exec hu hk hj _ he :=
    have hstep := ground_change hu hk hj (exec_change he)
    ⟨hstep.2, hstep.1, known_cons hk hu hstep.2 hstep.1 he⟩
  answer he := possible_of_exec he
  code hadm := code_justified hadm

variable {G : Guard (core env)} {x : Config (core env)}

theorem Reachable.holds (hx : Reachable env G x) : (ground env).Holds x :=
  ((ground env).holds_reaches ((ground env).holds_init ground_initial) hx.free).1

/-- **Every reachable world is grounded.** -/
theorem Reachable.ground (hx : Reachable env G x) : Ground x.world := hx.holds.inv

/-- A list of steps reaches a configuration that passes a test. -/
theorem reachable_of_run {ls : List (Label (core env))} {test : Config (core env) → Bool}
    (h : (Config.run G ls ⟨World.initial, []⟩).map test = some true) :
    ∃ x, Reachable env G x ∧ test x = true := exists_of_run h

/-- Two lists of steps, one after the other, reach two configurations that pass a test. -/
theorem reachable_of_runs {ls ls' : List (Label (core env))}
    {test : Config (core env) → Config (core env) → Bool}
    (h : ((Config.run G ls ⟨World.initial, []⟩).bind fun x => (Config.run G ls' x).map (test x)) =
      some true) :
    ∃ x y, Reachable env G x ∧ Reaches G x y ∧ test x y = true := exists_of_runs h

/-! ## A sale

The steps of one sale, for the inputs the results are instantiated and refuted at. -/

namespace Demo

/-- A configuration whose webhook bodies parse as given. -/
def config (parse : String → Option PaystackWebhookPayload) : Env where
  digest _ := "ab"
  parse := parse
  dateParse _ := none
  webhookMaxAgeSeconds := 300
  paymentReconcileAfterSeconds := 600
  autoReleaseWindowHours := 72
  appUrl := ""

/-- A configuration that parses no webhook. -/
def silent : Env := config fun _ => none

def seller : Uuid := ⟨"00000000-0000-4000-8000-000000000001", by decide⟩

def buyer : Uuid := ⟨"00000000-0000-4000-8000-000000000002", by decide⟩

/-- The transaction. -/
def sale : Uuid := ⟨"00000000-0000-4000-8000-000000000003", by decide⟩

/-- A payment. -/
def charge : Uuid := ⟨"00000000-0000-4000-8000-000000000004", by decide⟩

/-- A payout. -/
def release : Uuid := ⟨"00000000-0000-4000-8000-000000000005", by decide⟩

def sellers : Table SellerProfile :=
  ⟨[{ userId := seller, providerRecipientCode := some "RCP_1" }], List.pairwise_singleton _ _⟩

variable (env)

/-- The next operation of process `i` is served. -/
def serve (i : Nat) (s : Supply := { id := sale }) : Label (core env) := .perform i (.served s)

/-- The next `n` operations of process `i` are served. -/
def serves (i n : Nat) : List (Label (core env)) := List.replicate n (serve env i)

/-- The seller or the buyer drives the transaction, as process `i`. -/
def drives (i : Nat) (event : TransactionEvent) : List (Label (core env)) :=
  .arrive (.drive { transactionId := sale, event := event, actor := { type := .user } }) ::
    serves env i 2

/-- To a pending payment of a thousand kobo. -/
def checkout : List (Label (core env)) :=
  .drift (.others .empty sellers .empty .empty) ::
  .arrive (.create (.web seller { title := "Phone", amount := 1000 })) :: serves env 0 3 ++
  drives env 1 .sellerPublish ++
  .arrive (.initializeCollection ⟨some sale, none, buyer, "buyer"⟩) :: serves env 2 4 ++
  [serve env 2 { id := charge }, serve env 2 { id := charge }, serve env 2]

/-- The reference of the payment. -/
def reference : String := "mdn_" ++ charge.hex

/-- Paystack verifies the charge. -/
def verified (i : Nat) : Label (core env) :=
  serve env i { id := sale, status := "success", amount := 1000 }

/-- From there to a transaction that is being released. -/
def delivery : List (Label (core env)) :=
  .arrive (.verify reference) :: serve env 3 :: verified env 3 :: serves env 3 3 ++
  drives env 4 .sellerStartDelivery ++ drives env 5 .sellerMarkDelivered ++
  drives env 6 .buyerConfirm

end Demo

end Meduman
