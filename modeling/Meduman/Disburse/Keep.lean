import Meduman.Disburse.Once

/-!
# What a payout keeps

Every operation on a payout reads its status, awaits other things and writes a status without
looking again. What was recorded in between is lost.

* `writesCurrent` : a payout is written only while it is as it was read
* `Starts`, `Overwrites` : the sender of a transfer, and its write over a recorded failure
* **`payout_kept`** : then a settled payout stays settled, and a sender keeps a failure recorded for
  its transfer
* `payout_lost` : otherwise a settled payout goes back to `PROCESSING`
-/

set_option autoImplicit false

namespace Meduman

open Effect

/-- A write of a payout's status, other than `SUCCESS`, finds the status the call read last. -/
def writesCurrent (env : Env) : Guard (core env) := fun _ h w op =>
  match op with
  | .payoutUpdate key d =>
      match d.status with
      | none | some .success => true
      | some _ =>
          ((World.payouts w).find fun p => p.idempotencyKey == key).all fun p =>
            (lastPayout h).map Payout.status == some p.status
  | _ => true

/-- Process `i` is about to ask for a transfer under a reference Paystack has not seen. -/
def Starts {env : Env} (x : Config (core env)) (i : Nat) : Prop :=
  ∃ p input k, x.procs[i]? = some p ∧ p.prog = some (.call (.initiateTransfer input) k) ∧
    ∀ t ∈ (World.paystack x.world).transfers, t.reference ≠ input.reference

/-- Process `i` is about to write `PROCESSING` over a recorded failure. -/
def Overwrites {env : Env} (G : Guard (core env)) (x : Config (core env)) (i : Nat) : Prop :=
  ∃ p key d k, x.procs[i]? = some p ∧ p.prog = some (.call (.payoutUpdate key d) k) ∧
    d.status = some .processing ∧ G p.call p.hist x.world (.payoutUpdate key d) = true ∧
    ∃ r ∈ World.payouts x.world, r.idempotencyKey = key ∧
      (r.status = .failed ∨ r.status = .reversed)

variable {env : Env} {c : Call} {h : Hist} {u w : World}

/-- A current write finds the row as the call read it. -/
theorem status_of_current {key : String} {d : PayoutUpdate} {s : PayoutStatus} {p q : Payout}
    (hG : writesCurrent env c h u (.payoutUpdate key d) = true) (hs : d.status = some s)
    (hne : s ≠ .success) (hp : p ∈ u.payouts) (hkey : p.idempotencyKey = key)
    (hq : lastPayout h = some q) : p.status = q.status := by
  have hfind : (u.payouts.find fun p => p.idempotencyKey == key) = some p := by
    refine Table.find_eq hp (by simpa using hkey) fun b hb hbk => ?_
    refine Table.eq_of_clash hb hp ?_
    simp [Constrained.clash, hkey, show b.idempotencyKey = key by simpa using hbk]
  simp only [writesCurrent, hs, hfind, Option.all_some, hq, Option.map_some, beq_iff_eq,
    Option.some.injEq] at hG
  exact hG.symm

/-! ## Settled payouts -/

/-- Every settled payout of `u` is settled in `w`. -/
def StaysPaid (u w : World) : Prop :=
  ∀ p ∈ u.payouts, p.status = .success → ∃ p' ∈ w.payouts, p'.id = p.id ∧ p'.status = .success

theorem staysPaid_of_eq (h : w.payouts = u.payouts) : StaysPaid u w :=
  fun p hp hst => ⟨p, by rw [h]; exact hp, rfl, hst⟩

theorem staysPaid_change {op : Op} (hj : Justified env c h op)
    (hG : writesCurrent env c h u op = true) (hc : Change op u w) : StaysPaid u w := by
  cases hc with
  | payoutUpdate write =>
      rename_i key d t
      refine fun p hp hst => ?_
      cases hpk : p.idempotencyKey == key with
      | false => exact ⟨p, Table.mem_update_of_not write hp hpk, rfl, hst⟩
      | true =>
          refine ⟨d.apply p, Table.mem_update_of write hp hpk, rfl, ?_⟩
          cases hd : d.status with
          | none => simp [PayoutUpdate.apply, hd, hst]
          | some s =>
              by_cases hs : s = .success
              · simp [PayoutUpdate.apply, hd, hs]
              · obtain ⟨q, hq, -, hopen⟩ := hj.status s hd
                have heq := status_of_current hG hd hs hp (by simpa using hpk) hq
                exact absurd (heq.symm.trans hst) hopen
  | payoutCreate write =>
      exact fun p hp hst => ⟨p, (Table.mem_create write).mpr (.inl hp), rfl, hst⟩
  | frame same => exact staysPaid_of_eq same.payouts
  | commit found write payments payouts webhookEvents timeline paystack =>
      exact staysPaid_of_eq payouts
  | _ => exact staysPaid_of_eq rfl

theorem staysPaid_drift {m : Move} (hm : drift m u = some w) : StaysPaid u w := by
  cases m with
  | merge source target =>
      obtain ⟨transactions, payouts, invoices, disputes, -, write, -, -, rfl⟩ := drift_merge hm
      exact fun p hp hst => ⟨_, Table.mem_update_of write hp rfl, rfl, hst⟩
  | charge reference =>
      simp only [drift] at hm
      split at hm <;> cases hm
      exact staysPaid_of_eq rfl
  | _ => cases hm; exact staysPaid_of_eq rfl

/-- The layer of runs that write payouts only while they are as read. -/
def settled (env : Env) : Layer (ground env) (writesCurrent env) where
  inv _ := True
  rel := StaysPaid
  know _ _ _ := True
  rel_refl _ := staysPaid_of_eq rfl
  rel_trans huv hvw p hp hst := by
    obtain ⟨p', hp', hid, hst'⟩ := huv p hp hst
    obtain ⟨p'', hp'', hid', hst''⟩ := hvw p' hp' hst'
    exact ⟨p'', hp'', hid'.trans hid, hst''⟩
  know_nil _ _ _ := trivial
  know_rel _ _ _ := trivial
  drift _ _ _ hm := ⟨trivial, staysPaid_drift hm⟩
  exec _ _ hj _ _ _ _ _ hG he := ⟨trivial, staysPaid_change hj hG (exec_change he), trivial⟩

theorem staysPaid_of_reaches {x y : Config (core env)}
    (hx : Reachable env (writesCurrent env) x) (hxy : Reaches (writesCurrent env) x y) :
    StaysPaid x.world y.world := by
  have hinit := (settled env).outline.holds_init ⟨ground_initial, trivial⟩
  exact ((settled env).outline.holds_reaches
    ((settled env).outline.holds_reaches hinit hx).1 hxy).2.2

/-! ## Failures of the transfer in flight -/

/-- A call that starts a transfer saw the payout neither failed nor reversed. -/
theorem unfailed_of_send {i : InitiateTransferInput} {p : Payout} (hk : Known env c h u)
    (hj : TransferSend c h i p) (unused : ∀ t ∈ u.paystack.transfers, t.reference ≠ i.reference) :
    p.status ≠ .failed ∧ p.status ≠ .reversed := by
  rcases hj.reference with ⟨-, hkey⟩ | ⟨-, -, hpending, -⟩
  · -- Paystack holds a transfer under the key of every failed payout
    refine not_or.mp fun hover => ?_
    obtain ⟨t, ht, href, -⟩ := (hk.payout (lastPayout_shown hj.last)).ground.failed hover
    exact unused t ht (href.trans hkey.symm)
  · rw [hpending]
    exact ⟨PayoutStatus.noConfusion, PayoutStatus.noConfusion⟩

/-- What the sender of a transfer saw before it asked for it. -/
theorem sentPayout_of_starts {x y : Config (core env)} (hx : (ground env).Holds x) {i : Nat}
    {choice : Outcome} {G : Guard (core env)} (hstart : Starts x i)
    (hxy : x.next G (.perform i choice) = some y) :
    ∃ q p, y.procs[i]? = some q ∧ sentPayout q.hist = some p ∧ p.status ≠ .failed ∧
      p.status ≠ .reversed := by
  obtain ⟨p, input, k, hp, hprog, unused⟩ := hstart
  have hmem := List.mem_of_getElem? hp
  obtain ⟨payout, hj⟩ : ∃ payout, TransferSend p.call p.hist input payout :=
    hx.justified hmem hprog
  obtain ⟨a, -, -, hy⟩ := Config.next_perform hp hprog hxy
  exact ⟨_, payout, hy, (sentPayout_transfer hj.first).trans hj.last,
    unfailed_of_send (hx.know p hmem) hj unused⟩

theorem not_overwrites {x y z : Config (core env)} (hx : Reachable env (writesCurrent env) x)
    {i : Nat} {choice : Outcome} (hstart : Starts x i)
    (hxy : x.next (writesCurrent env) (.perform i choice) = some y)
    (hyz : Reaches (writesCurrent env) y z) : ¬ Overwrites (writesCurrent env) z i := by
  rintro ⟨q, key, d, k, hq, hprog, hd, hG, r, hr, hkey, hover⟩
  have hxz : Reaches (writesCurrent env) x z := .head ⟨_, hxy⟩ hyz
  have hz := ((ground env).holds_reaches hx.holds hxz.free).1
  obtain ⟨p, sent, hp, hsent, hunfailed⟩ := sentPayout_of_starts hx.holds hstart hxy
  obtain ⟨q', hq', -, l, hl⟩ := hyz.hist hp
  cases hq.symm.trans hq'
  have hj : PayoutWrite env q.call q.hist key d :=
    hz.justified (List.mem_of_getElem? hq) hprog
  obtain ⟨last, sent', hlast, hsent', hst⟩ := hj.processing hd
  have hsame : sent' = sent := by
    rw [← hl, sentPayout_append hsent] at hsent'
    exact (Option.some.inj hsent').symm
  have hrow : r.status = last.status :=
    status_of_current hG hd PayoutStatus.noConfusion hr hkey hlast
  rw [hrow] at hover
  rw [hsame] at hst
  rcases hst with hst | hst <;> rw [hst] at hover
  · exact hover.elim hunfailed.1 hunfailed.2
  · rcases hover with hover | hover <;> cases hover

/-! ## Both -/

/-- **What a payout keeps.** In every run that writes payouts only while they are as read, a settled
payout stays settled, and no sender writes `PROCESSING` over a failure recorded since it started. -/
theorem payout_kept {x : Config (core env)} (hx : Reachable env (writesCurrent env) x) :
    (∀ y, Reaches (writesCurrent env) x y → ∀ p ∈ World.payouts x.world, p.status = .success →
      ∃ p' ∈ World.payouts y.world, p'.id = p.id ∧ p'.status = .success) ∧
    ∀ i choice y z, Starts x i → x.next (writesCurrent env) (.perform i choice) = some y →
      Reaches (writesCurrent env) y z → ¬ Overwrites (writesCurrent env) z i :=
  ⟨fun _ hxy => staysPaid_of_reaches hx hxy, fun _ _ _ _ hstart hxy hyz =>
    not_overwrites hx hstart hxy hyz⟩

namespace Demo

variable (env : Env)

/-- The transfer of a release succeeds and is reported while its sender has yet to record it. -/
def paidInFlight : List (Label (core env)) :=
  checkout env ++ delivery env ++ .arrive (.executeRelease sale) :: serves env 7 2 ++
  [serve env 7 { id := Demo.release }, serve env 7, serve env 7 { id := sale, code := "TRF_0" },
    .drift (.settle (releaseIdempotencyKey sale)),
    .arrive (.markPaid (releaseIdempotencyKey sale) "TRF_0")] ++ serves env 8 2

/-- The sender records its transfer first. -/
def paidAfterwards : List (Label (core env)) :=
  checkout env ++ delivery env ++ .arrive (.executeRelease sale) :: serves env 7 2 ++
  [serve env 7 { id := Demo.release }, serve env 7, serve env 7 { id := sale, code := "TRF_0" }] ++
  serves env 7 2 ++ [.drift (.settle (releaseIdempotencyKey sale)),
    .arrive (.markPaid (releaseIdempotencyKey sale) "TRF_0")] ++ serves env 8 2

def payoutStatuses (w : World) : List PayoutStatus := w.payouts.rows.map Payout.status

end Demo

set_option maxRecDepth 20000 in
/-- **The sender records its transfer over the settlement.** -/
theorem payout_lost : ¬ ∀ (env : Env) (x : Config (core env)), Reachable env Guard.free x →
    (∀ y, Reaches Guard.free x y → ∀ p ∈ World.payouts x.world, p.status = .success →
      ∃ p' ∈ World.payouts y.world, p'.id = p.id ∧ p'.status = .success) ∧
    ∀ i choice y z, Starts x i → x.next Guard.free (.perform i choice) = some y →
      Reaches Guard.free y z → ¬ Overwrites Guard.free z i := by
  intro hall
  have hrun : ((Config.run Guard.free (Demo.paidInFlight Demo.silent)
      ⟨World.initial, []⟩).bind fun x => (Config.run Guard.free [Demo.serve _ 7] x).map fun y =>
        decide (Demo.payoutStatuses x.world = [.success] ∧
          Demo.payoutStatuses y.world = [.processing])) = some true := by decide
  obtain ⟨x, y, hx, hxy, htest⟩ := reachable_of_runs hrun
  obtain ⟨hpaid, hlost⟩ := of_decide_eq_true htest
  obtain ⟨p, hp, hst⟩ := (Table.of_map_eq_singleton hpaid).1
  obtain ⟨p', hp', -, hst'⟩ := (hall _ x hx).1 y hxy p hp hst
  rw [(Table.of_map_eq_singleton hlost).2 p' hp'] at hst'
  cases hst'

set_option maxRecDepth 20000 in
/-- A payout settled after its sender recorded the transfer is still settled once the transaction is
completed. -/
theorem payout_kept_completed : ∃ x y : Config (core Demo.silent),
    Reachable _ (writesCurrent _) x ∧ Reaches (writesCurrent _) x y ∧
      Demo.payoutStatuses x.world = [.success] ∧
      ∃ p' ∈ World.payouts y.world, p'.status = .success := by
  have hrun : ((Config.run (writesCurrent _) (Demo.paidAfterwards Demo.silent)
      ⟨World.initial, []⟩).bind fun x => (Config.run (writesCurrent _)
        (Demo.serves _ 8 2) x).map fun y =>
        decide (Demo.payoutStatuses x.world = [.success])) = some true := by decide
  obtain ⟨x, y, hx, hxy, htest⟩ := reachable_of_runs hrun
  have hpaid := of_decide_eq_true htest
  obtain ⟨p, hp, hst⟩ := (Table.of_map_eq_singleton hpaid).1
  obtain ⟨p', hp', -, hst'⟩ := (payout_kept hx).1 y hxy p hp hst
  exact ⟨x, y, hx, hxy, hpaid, p', hp', hst'⟩

end Meduman
