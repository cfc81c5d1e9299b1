import Meduman.Core.Served
import Meduman.Disburse.Once

/-!
# Settlement

A settlement writes the payout and then completes the transaction. A call that finds the payout
settled returns at once, so a call cut off in between is never made up for.

* `code_unique` : no two payouts carry one transfer's code
* **`markPaid_recovers_iff`** : when repeating an interrupted settlement completes it
* `markPaid_halfway` : when it does not
-/

set_option autoImplicit false

namespace Meduman

open Effect Prog

variable {env : Env} {u w w' : World}

/-- The code of a transfer of a payout's transaction is on no other payout. -/
theorem code_unique (hw : Ground w) {p : Payout} (hp : p ∈ w.payouts) {t : Transfer}
    (ht : t ∈ w.paystack.transfers) (hreason : t.reason = transferReason p.transactionId) :
    ∀ q ∈ w.payouts, q.providerTransferCode = some t.transferCode → q = p := by
  intro q hq hcode
  obtain ⟨t', ht', hcode', hreason'⟩ := (hw.payouts q hq).code _ hcode
  have heq := hw.transfer_eq_of_code ht' ht hcode'
  rw [heq, hreason] at hreason'
  have hid := transferReason_injective hreason'
  have hkey : q.idempotencyKey = p.idempotencyKey := by
    rw [(hw.payouts q hq).key, (hw.payouts p hp).key, hid]
  exact Table.eq_of_clash hq hp (by simp [Constrained.clash, hkey])

/-- The transaction of a payout is being released or completed. -/
theorem status_of_payout (hw : Ground w) {p : Payout} {t : Transaction} (hp : p ∈ w.payouts)
    (ht : t ∈ w.transactions) (hid : t.id = p.transactionId) :
    t.status = .releaseProcessing ∨ t.status = .completed := by
  obtain ⟨t', ht', hid', hrel, -⟩ := (hw.payouts p hp).transaction
  have heq : t' = t := Table.eq_of_clash ht' ht (by simp [Constrained.clash, hid', hid])
  rw [heq] at hrel
  revert hrel
  cases t.status <;> decide

/-- **Recovery, in a grounded world.** -/
theorem settles_iff (hw : Ground u) {p : Payout} {t : Transaction} (hp : p ∈ u.payouts)
    (ht : t ∈ u.transactions) (hid : t.id = p.transactionId) {code : String}
    (hcode : ∀ q ∈ u.payouts, q.providerTransferCode = some code → q = p)
    {r : Except Err Payout} (h : Serves env (markPaid p.idempotencyKey code) u r w') :
    (PaidOut w' p.id ∧ IsCompleted w' t.id ↔
      ¬ (p.status = .success ∧ t.status = .releaseProcessing)) ∧
    ((PaidOut w' p.id ↔ IsCompleted w' t.id) ↔
      ¬ (p.status = .success ∧ t.status = .releaseProcessing)) := by
  by_cases hst : p.status = .success
  · obtain ⟨-, rfl⟩ := markPaid_settled hp hst h
    have hpaid : PaidOut w' p.id := ⟨p, hp, rfl, hst⟩
    have hcomp : IsCompleted w' t.id ↔ ¬ t.status = .releaseProcessing := by
      constructor
      · rintro ⟨t', ht', hid', hst'⟩ hrel
        have heq : t' = t := Table.eq_of_clash ht' ht (by simp [Constrained.clash, hid'])
        rw [heq, hrel] at hst'
        cases hst'
      · exact fun hrel => ⟨t, ht, rfl, (status_of_payout hw hp ht hid).resolve_left hrel⟩
    simp only [hpaid, hcomp, hst, true_and, true_iff, iff_self, and_self]
  · obtain ⟨hpaid, hcomp⟩ := markPaid_serves hp ht hid (status_of_payout hw hp ht hid) hst hcode h
    simp only [hpaid, hcomp, hst, false_and, not_false_iff, and_self, iff_self]

/-- **Settlement recovers from a crash.** In every reachable world, after any part of a settlement,
repeating it settles the payout and completes the transaction, and makes the two agree, exactly when
it does not find the payout settled and the transaction still being released. -/
theorem markPaid_recovers_iff {x : Config (core env)} (hx : Reachable env Guard.free x)
    {key code : String} (hadm : admits env (.markPaid key code) x.world = true)
    (hcut : (markPaid key code).Partly (core env) x.world u) {p : Payout} {t : Transaction}
    (hp : p ∈ u.payouts) (hkey : p.idempotencyKey = key) (ht : t ∈ u.transactions)
    (hid : t.id = p.transactionId) {r : Except Err Payout}
    (hagain : Serves env (markPaid key code) u r w') :
    (PaidOut w' p.id ∧ IsCompleted w' t.id ↔
      ¬ (p.status = .success ∧ t.status = .releaseProcessing)) ∧
    ((PaidOut w' p.id ↔ IsCompleted w' t.id) ↔
      ¬ (p.status = .success ∧ t.status = .releaseProcessing)) := by
  subst hkey
  obtain ⟨y, hxy, rfl, -⟩ := Partly.reaches (V := core env)
    (c := .markPaid p.idempotencyKey code) hadm (partly_map hcut)
  obtain ⟨hy, hgrows⟩ := (ground env).holds_reaches hx.holds hxy
  have hw : Ground y.world := hy.inv
  obtain ⟨t₀, ht₀, href, hcode, -⟩ := ((told_of_admits hadm).mono hgrows).settled _ _ ⟨rfl, rfl⟩
  have hreason := hw.reason_of_reference ht₀ (.inl (href.trans (hw.payouts p hp).key))
  refine settles_iff hw hp ht hid ?_ hagain
  rw [← hcode]
  exact code_unique hw hp ht₀ hreason

namespace Demo

variable (env : Env)

/-- A release whose transfer succeeds. -/
def transferred : List (Label (core env)) :=
  checkout env ++ delivery env ++ .arrive (.executeRelease sale) :: serves env 7 2 ++
  [serve env 7 { id := Demo.release }, serve env 7, serve env 7 { id := sale, code := "TRF_0" }] ++
  serves env 7 2 ++ [.drift (.settle (releaseIdempotencyKey sale))]

/-- The settlement is cut off after it wrote the payout. -/
def halfway : List (Label (core env)) :=
  transferred env ++ [.arrive (.markPaid (releaseIdempotencyKey sale) "TRF_0")] ++
  serves env 8 2 ++ [.crash 8]

/-- The settlement, served. -/
def settleAgain (w : World) : Option (Except Err Payout × World) :=
  serveWith (markPaid (releaseIdempotencyKey sale) "TRF_0") (List.replicate 4 { id := sale }) w

/-- The payouts with their keys, and the transactions, with their statuses. -/
def rows (w : World) : List (Uuid × String × PayoutStatus) × List (Uuid × TransactionStatus) :=
  (w.payouts.rows.map fun p => (p.transactionId, p.idempotencyKey, p.status),
    w.transactions.rows.map fun t => (t.id, t.status))

end Demo

theorem of_rows {w : World} {key : String} {s : PayoutStatus} {s' : TransactionStatus} {id id' : Uuid}
    (h : Demo.rows w = ([(id, key, s)], [(id', s')])) :
    (∃ p ∈ w.payouts, p.transactionId = id ∧ p.idempotencyKey = key ∧ p.status = s) ∧
    (∃ t ∈ w.transactions, t.id = id' ∧ t.status = s') ∧ ∀ t ∈ w.transactions, t.status = s' := by
  obtain ⟨hpayouts, htransactions⟩ := Prod.mk.inj h
  obtain ⟨⟨p, hp, hpr⟩, -⟩ := Table.of_map_eq_singleton hpayouts
  obtain ⟨⟨t, ht, htr⟩, hall⟩ := Table.of_map_eq_singleton htransactions
  simp only [Prod.mk.injEq] at hpr htr
  refine ⟨⟨p, hp, hpr⟩, ⟨t, ht, htr⟩, fun t' ht' => ?_⟩
  exact (Prod.mk.inj (hall t' ht')).2

set_option maxRecDepth 20000 in
/-- **A settlement cut off halfway is not made up for.** -/
theorem markPaid_halfway : ¬ ∀ (env : Env) (x : Config (core env)) (key code : String) (u w' : World)
    (p : Payout) (t : Transaction) (r : Except Err Payout), Reachable env Guard.free x →
    admits env (.markPaid key code) x.world = true →
    (markPaid key code).Partly (core env) x.world u → p ∈ u.payouts → p.idempotencyKey = key →
    t ∈ u.transactions → t.id = p.transactionId → Serves env (markPaid key code) u r w' →
    (PaidOut w' p.id ∧ IsCompleted w' t.id) ∧ (PaidOut w' p.id ↔ IsCompleted w' t.id) := by
  intro hall
  have hrun : ((Config.run Guard.free (Demo.halfway Demo.silent) ⟨World.initial, []⟩).map fun x =>
      admits Demo.silent (.markPaid (releaseIdempotencyKey Demo.sale) "TRF_0") x.world &&
        (decide (Demo.rows x.world = ([(Demo.sale, releaseIdempotencyKey Demo.sale, .success)],
          [(Demo.sale, .releaseProcessing)])) &&
        (Demo.settleAgain x.world).any fun rw => decide (Demo.rows rw.2 =
          ([(Demo.sale, releaseIdempotencyKey Demo.sale, .success)],
            [(Demo.sale, .releaseProcessing)])))) = some true := by decide
  obtain ⟨x, hx, htest⟩ := reachable_of_run hrun
  simp only [Bool.and_eq_true, decide_eq_true_eq, Option.any_eq_true] at htest
  obtain ⟨hadm, hrows, ⟨r, w'⟩, hserve, hrows'⟩ := htest
  obtain ⟨⟨p, hp, hptx, hkey, -⟩, ⟨t, ht, hid, -⟩, -⟩ := of_rows hrows
  have hagain : Serves Demo.silent _ _ _ _ := serves_of_serveWith hserve
  obtain ⟨⟨-, t', ht', -, hst⟩, -⟩ := hall Demo.silent x _ _ x.world w' p t r hx hadm
    (.inl (.inl rfl)) hp hkey ht (hid.trans hptx.symm) hagain
  rw [(of_rows hrows').2.2 t' ht'] at hst
  cases hst

set_option maxRecDepth 20000 in
/-- A settlement that was not interrupted settles the payout and completes the sale. -/
theorem markPaid_recovers_iff_sale : ∃ (x : Config (core Demo.silent)) (w' : World) (p : Payout)
    (t : Transaction), Reachable _ Guard.free x ∧ p ∈ World.payouts x.world ∧
      PaidOut w' p.id ∧ IsCompleted w' t.id := by
  have hrun : ((Config.run Guard.free (Demo.transferred Demo.silent) ⟨World.initial, []⟩).map fun x =>
      admits Demo.silent (.markPaid (releaseIdempotencyKey Demo.sale) "TRF_0") x.world &&
        (decide (Demo.rows x.world = ([(Demo.sale, releaseIdempotencyKey Demo.sale, .processing)],
          [(Demo.sale, .releaseProcessing)])) &&
        (Demo.settleAgain x.world).isSome)) = some true := by decide
  obtain ⟨x, hx, htest⟩ := reachable_of_run hrun
  simp only [Bool.and_eq_true, decide_eq_true_eq, Option.isSome_iff_exists] at htest
  obtain ⟨hadm, hrows, ⟨r, w'⟩, hserve⟩ := htest
  obtain ⟨⟨p, hp, hptx, hkey, hst⟩, ⟨t, ht, hid, -⟩, -⟩ := of_rows hrows
  obtain ⟨hpaid, hcomp⟩ := (markPaid_recovers_iff hx hadm (u := x.world) (.inl (.inl rfl)) hp hkey
    ht (hid.trans hptx.symm) (serves_of_serveWith hserve)).1.mpr fun hboth => by
      rw [hst] at hboth; cases hboth.1
  exact ⟨x, w', p, t, hx, hp, hpaid, hcomp⟩

end Meduman
