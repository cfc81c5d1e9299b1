import Meduman.Core.Does
import Meduman.Core.Outline
import Meduman.Effect.Trace

/-!
# At most one disbursement

A release sends one transfer under the payout's key, and Paystack refuses that key afterwards. An
operator's retry sends another one under a fresh reference, which nothing refuses.

* `Transfer.dead` : a transfer that will never succeed
* `retriesWait` : retries send only once the earlier transfers are dead
* `retry_waits` : a retry that runs by itself does, if the payout knows of every transfer that is not dead
* **`disbursed_once`** : then at most one transfer of a transaction ever succeeds
* `disbursed_twice` : two retries that overlap otherwise both pay
-/

set_option autoImplicit false

namespace Meduman

open Effect

/-- It failed or was reversed, and did not succeed before. -/
def Transfer.dead (t : Transfer) : Bool :=
  (t.status == .failed || t.status == .reversed) && !t.settled

/-- The transfers sent for a transaction. -/
def World.transfersFor (w : World) (transactionId : Uuid) : List Transfer :=
  w.paystack.transfers.filter fun t => t.reason == transferReason transactionId

/-- When a retry asks for a transfer, every transfer sent for the transaction before is dead. -/
def retriesWait (env : Env) : Guard (core env) := fun c _ w op =>
  match c, op with
  | .retryTransfer _ _, .initiateTransfer i =>
      (World.paystack w).transfers.all fun t => t.reason != i.reason || t.dead
  | _, _ => true

variable {env : Env} {c : Call} {h : Hist} {u w : World}

/-- Of two transfers of one transaction, the one sent first is dead. -/
def OneAlive (w : World) : Prop :=
  w.paystack.transfers.Pairwise fun a b => a.reason = b.reason → a.dead = true

theorem Transfer.Later.dead {t t' : Transfer} (hl : t.Later t') (hd : t.dead = true) :
    t'.dead = true := by
  simp only [Transfer.dead, Bool.and_eq_true, Bool.or_eq_true, beq_iff_eq] at hd
  rw [hl.terminal hd.1]
  simpa only [Transfer.dead, Bool.and_eq_true, Bool.or_eq_true, beq_iff_eq] using hd

/-- **A transfer is sent over dead ones only.** -/
theorem dead_of_send {i : InitiateTransferInput} {p : Payout} (hu : Ground u)
    (hk : Known env c h u) (hj : TransferSend c h i p)
    (hG : retriesWait env c h u (.initiateTransfer i) = true)
    (unused : ∀ t ∈ u.paystack.transfers, t.reference ≠ i.reference) :
    ∀ t ∈ u.paystack.transfers, t.reason = i.reason → t.dead = true := by
  intro t ht hreason
  rcases hj.reference with ⟨-, hkey⟩ | ⟨⟨k, a, rfl⟩, -⟩
  · -- some transfer of this payout is under its key already, so Paystack refuses the key
    obtain ⟨p', hp', hreason', -, -, t₀, ht₀, href₀⟩ := (hu.transfers t ht).payout
    have hp := (hk.payout (lastPayout_shown hj.last)).ground
    have hid : p'.transactionId = p.transactionId :=
      transferReason_injective (hreason'.symm.trans (hreason.trans hj.reason))
    refine absurd ?_ (unused t₀ ht₀)
    rw [href₀, hkey, (hu.payouts p' hp').key, hp.key, hid]
  · have hdead := List.all_eq_true.mp hG t ht
    simpa [hreason] using hdead

theorem oneAlive_change {op : Op} (hu : Ground u) (hk : Known env c h u)
    (hj : Justified env c h op) (hG : retriesWait env c h u op = true) (ho : OneAlive u)
    (hc : Change op u w) : OneAlive w := by
  cases hc with
  | initiateTransfer unused code sent =>
      rename_i i t
      obtain ⟨p, hj⟩ := hj
      refine List.pairwise_append.mpr ⟨ho, List.pairwise_singleton _ _, fun a ha b hb => ?_⟩
      rw [List.mem_singleton.mp hb]
      intro hreason
      refine dead_of_send hu hk hj hG unused a ha ?_
      rw [hreason, sent]
  | frame same => rw [OneAlive, same.paystack]; exact ho
  | commit found write payments payouts webhookEvents timeline paystack =>
      rw [OneAlive, paystack]; exact ho
  | _ => exact ho

theorem oneAlive_moveTransfer {reference : String} {f : Transfer → Transfer} (hf : MovesOn f)
    (ho : OneAlive u) : OneAlive (u.moveTransfer reference f) := by
  have hmoved : ∀ t : Transfer, t.Later (if t.reference = reference then f t else t) := fun t => by
    split
    · exact hf.later t
    · exact .refl t
  refine List.pairwise_map.mpr (List.Pairwise.imp ?_ ho)
  intro a b hab hreason
  refine (hmoved a).dead (hab ?_)
  rwa [(hmoved a).reason, (hmoved b).reason] at hreason

theorem oneAlive_drift {m : Move} (ho : OneAlive u) (hm : drift m u = some w) : OneAlive w := by
  cases m with
  | settle reference => cases hm; exact oneAlive_moveTransfer movesOn_settle ho
  | fail reference => cases hm; exact oneAlive_moveTransfer movesOn_fail ho
  | reverse reference => cases hm; exact oneAlive_moveTransfer movesOn_reverse ho
  | tick elapsed => cases hm; exact ho
  | others users sellerProfiles disputes invoices => cases hm; exact ho
  | charge reference =>
      simp only [drift] at hm
      split at hm <;> cases hm
      exact ho
  | merge source target =>
      obtain ⟨transactions, payouts, invoices, disputes, -, -, -, -, rfl⟩ := drift_merge hm
      exact ho

/-! ## A retry by itself -/

section Retry

variable {op : Op} {idempotencyKey : String}

/-- The lookup of a transfer is served. -/
def looksUp (op : Op) (o : Outcome) : Prop :=
  match op, o with
  | .fetchTransfer _, .served _ => True
  | .fetchTransfer _, _ => False
  | _, _ => True

/-- Every transfer sent for the payout is dead, or is the one the payout knows of and succeeded. -/
def Awaited (idempotencyKey : String) (w : World) : Prop :=
  ∀ p ∈ w.payouts, p.idempotencyKey = idempotencyKey →
    ∀ t ∈ w.paystack.transfers, t.reason = transferReason p.transactionId → t.dead = true ∨
      t.status = .success ∧ t.reference = p.providerTransferReference.getD p.idempotencyKey

/-- The operation sends no transfer. -/
def Op.sendsNothing : Op → Prop
  | .initiateTransfer _ => False
  | _ => True

theorem retriesWait_of_sendsNothing (hop : op.sendsNothing) : retriesWait env c h u op = true := by
  unfold retriesWait
  split
  · exact hop.elim
  · rfl

theorem markPaid_sendsNothing (key code : String) : (markPaid key code).Uses Op.sendsNothing := by
  refine uses_bind (uses_perform trivial) fun found => ?_
  cases found with
  | none => trivial
  | some payout =>
      dsimp only
      split
      · trivial
      · refine uses_bind (uses_perform trivial) fun updated => uses_bind ?_ fun _ => trivial
        exact apply_uses trivial (fun _ => trivial) fun _ => trivial

theorem verifyTransfer_sendsNothing (reference : String) :
    (verifyTransfer reference).Uses Op.sendsNothing :=
  uses_tryCatch (uses_bind (uses_perform trivial) fun _ => trivial) fun _ => trivial

theorem recordTransferSent_sendsNothing (payout : Payout) (code reference : String) :
    (recordTransferSent payout code reference).Uses Op.sendsNothing :=
  uses_bind (uses_perform trivial) fun _ => uses_bind (uses_perform trivial) fun _ => trivial

/-- What sends nothing passes. -/
theorem waits_of_sendsNothing {α : Type} {p : Program α} (hp : p.Uses Op.sendsNothing) :
    p.Heeds (core env) looksUp (fun h u op => retriesWait env c h u op = true) w h :=
  hp.heeds fun _ _ _ hop => retriesWait_of_sendsNothing hop

/-- A transfer is sent first, and never again. -/
theorem sendTransfer_waits (payout : Payout) (reference : Option String)
    (hdead : ∀ t ∈ w.paystack.transfers, t.reason = transferReason payout.transactionId →
      t.dead = true) :
    (sendTransfer payout reference).Heeds (core env) looksUp
      (fun h u op => retriesWait env c h u op = true) w h := by
  unfold sendTransfer
  split
  · trivial
  · refine heeds_perform_bind (retriesWait_of_sendsNothing trivial) fun o seller u _ he => ?_
    have hsame : u.paystack = w.paystack := by
      cases exec_change he with
      | frame same => exact same.paystack
    cases seller.bind fun seller => truthy seller.providerRecipientCode with
    | none => trivial
    | some recipient =>
        refine heeds_tryCatch (heeds_perform_bind ?_ fun _ _ _ _ _ => ?_) ?_
        · unfold retriesWait
          split
          · rename_i heq
            cases heq
            refine List.all_eq_true.mpr fun t ht => ?_
            rw [hsame] at ht
            by_cases hreason : t.reason = transferReason payout.transactionId
            · simp [hdead t ht hreason]
            · simp [hreason]
          · rfl
        · exact waits_of_sendsNothing (recordTransferSent_sendsNothing _ _ _)
        · refine ensures_any fun r v l e _ => waits_of_sendsNothing ?_
          refine uses_bind (verifyTransfer_sendsNothing _) fun existing => ?_
          cases existing with
          | some existing => exact recordTransferSent_sendsNothing _ _ _
          | none =>
              exact uses_bind (uses_perform trivial) fun _ =>
                uses_bind (uses_perform trivial) fun _ => trivial

/-- **The lookup finds a transfer that succeeded.** -/
theorem verifyTransfer_finds (hw : Ground w) (reference : String) :
    (verifyTransfer reference).Ensures (core env) looksUp
      (fun r u _ => SameCore w u ∧ ∀ prior, r = .ok prior →
        (prior.filter fun p => p.status = "success") = none →
          ∀ t ∈ w.paystack.transfers, t.reference = reference → t.status ≠ .success) w h := by
  unfold verifyTransfer
  rw [ensures_tryCatch, ensures_perform_bind]
  intro o a u hm he
  cases o with
  | lost s message => exact hm.elim
  | failed message => exact hm.elim
  | served s =>
      have heff : (fetchTransfer reference w, w) = (a, u) := Option.some.inj he
      obtain ⟨rfl, rfl⟩ := Prod.mk.inj heff
      unfold fetchTransfer
      cases hfind : w.paystack.transfers.find? fun t => t.reference == reference with
      | none =>
          refine ⟨.refl w, fun _ _ _ t ht href => ?_⟩
          simpa [href] using List.find?_eq_none.mp hfind t ht
      | some found =>
          refine ⟨.refl w, fun prior hprior hnone t ht href hst => ?_⟩
          obtain rfl := Except.ok.inj hprior
          have hfound := List.mem_of_find?_eq_some hfind
          have href' : found.reference = reference := by simpa using List.find?_some hfind
          obtain rfl : t = found := hw.transfer_eq ht hfound (href.trans href'.symm)
          simp [hst, TransferStatus.text] at hnone

/-- **A retry by itself waits:** it looks the last transfer up before it sends one. -/
theorem retryTransfer_waits (hw : Ground w) (hlast : Awaited idempotencyKey w) (adminId : String) :
    (retryTransfer idempotencyKey adminId).Heeds (core env) looksUp
      (fun h u op => retriesWait env c h u op = true) w h := by
  have hpass : ∀ {h u} {op : Op}, op.sendsNothing → retriesWait env c h u op = true :=
    retriesWait_of_sendsNothing
  unfold retryTransfer
  refine heeds_perform_bind (hpass trivial) fun o found u₁ _ he => ?_
  cases found with
  | none => trivial
  | some payout =>
      obtain ⟨hmem, hkey⟩ := exec_answered he
      have hsame₁ : SameCore w u₁ := by
        cases exec_change he with
        | frame same => exact same
      dsimp only
      split
      · trivial
      · split
        · trivial
        · refine heeds_perform_bind (hpass trivial) fun o openDisputes u₂ _ he => ?_
          have hsame₂ : SameCore w u₂ := by
            cases exec_change he with
            | frame same => exact hsame₁.trans same
          split
          · trivial
          · have hw₂ : Ground u₂ := (step_frame hw hsame₂).2
            refine heeds_bind (waits_of_sendsNothing (verifyTransfer_sendsNothing _)) ?_
            refine (verifyTransfer_finds hw₂ _).mono ?_
            rintro r u₃ h₃ ⟨hsame₃, hfinds⟩ prior rfl
            cases hprior : prior.filter fun p => p.status = "success" with
            | some prior =>
                refine waits_of_sendsNothing (uses_bind (uses_perform trivial) fun _ => ?_)
                exact markPaid_sendsNothing _ _
            | none =>
                refine heeds_perform_bind (hpass trivial) fun o _ u₄ _ he => ?_
                have hsame₄ : SameCore w u₄ := by
                  cases exec_change he with
                  | frame same => exact (hsame₂.trans hsame₃).trans same
                refine heeds_perform_bind (hpass trivial) fun o reset u₅ _ he => ?_
                obtain ⟨-, p₀, hp₀, hkey₀, hreset⟩ := exec_answered he
                have hstack : u₅.paystack = w.paystack := by
                  cases exec_change he with
                  | frame same => exact same.paystack.trans hsame₄.paystack
                  | payoutUpdate write => exact hsame₄.paystack
                obtain rfl : p₀ = payout :=
                  Table.eq_of_clash (hsame₄.payouts ▸ hp₀) hmem (by simp [Constrained.clash, hkey₀, hkey])
                refine sendTransfer_waits _ _ fun t ht hreason => ?_
                rw [hstack] at ht
                rw [hreset] at hreason
                refine (hlast p₀ hmem hkey t ht hreason).resolve_right fun hsettled => ?_
                refine hfinds _ rfl hprior t ?_ hsettled.2 hsettled.1
                rw [hsame₂.paystack]
                exact ht

/-- A retry that nothing disturbs keeps to the condition. -/
theorem retry_waits {x : Config (core env)} {i : Nat} {adminId : String} {l : Hist}
    {r : Except Err Reply} (hx : Reachable env (retriesWait env) x)
    (hlast : Awaited idempotencyKey x.world)
    (hi : x.procs[i]? = some ⟨.retryTransfer idempotencyKey adminId, [],
      some (code env (.retryTransfer idempotencyKey adminId))⟩)
    (hr : (code env (.retryTransfer idempotencyKey adminId)).Runs (core env) looksUp x.world l r w) :
    Reachable env (retriesWait env)
      ⟨w, x.procs.set i ⟨.retryTransfer idempotencyKey adminId, l ++ [], some (.done r)⟩⟩ := by
  exact hx.trans (Prog.Heeds.reaches hi
    (heeds_bind (retryTransfer_waits hx.ground hlast adminId) (ensures_any fun _ _ _ _ _ => trivial)) hr)

end Retry

/-! ## Runs -/

/-- The layer of runs whose retries wait. -/
def disburse (env : Env) : Layer (ground env) (retriesWait env) where
  inv := OneAlive
  rel _ _ := True
  know _ _ _ := True
  rel_refl _ := trivial
  rel_trans _ _ := trivial
  know_nil _ _ _ := trivial
  know_rel _ _ _ := trivial
  drift _ _ ho hm := ⟨oneAlive_drift ho hm, trivial⟩
  exec hu hk hj _ _ _ ho _ hG he :=
    ⟨oneAlive_change hu hk hj hG ho (exec_change he), trivial, trivial⟩

theorem oneAlive_of_reachable {x : Config (core env)} (hx : Reachable env (retriesWait env) x) :
    OneAlive x.world :=
  ((disburse env).outline.holds_reaches
    ((disburse env).outline.holds_init ⟨ground_initial, .nil⟩) hx).1.inv.2

theorem length_settled_le_one (ho : OneAlive w) (id : Uuid) :
    ((w.transfersFor id).filter fun t => t.settled).length ≤ 1 := by
  have hpair : ((w.transfersFor id).filter fun t => t.settled).Pairwise fun a b =>
      a.reason = b.reason → a.dead = true :=
    (ho.sublist List.filter_sublist).sublist List.filter_sublist
  have hof : ∀ t ∈ (w.transfersFor id).filter fun t => t.settled,
      t.reason = transferReason id ∧ t.settled = true := fun t ht => by
    obtain ⟨ht, hset⟩ := List.mem_filter.mp ht
    exact ⟨by simpa using (List.mem_filter.mp ht).2, hset⟩
  revert hpair hof
  generalize (w.transfersFor id).filter (fun t => t.settled) = l
  intro hpair hof
  match l with
  | [] => exact Nat.zero_le 1
  | [_] => exact Nat.le_refl 1
  | a :: b :: rest =>
      obtain ⟨hra, hsa⟩ := hof a List.mem_cons_self
      obtain ⟨hrb, -⟩ := hof b (List.mem_cons_of_mem _ List.mem_cons_self)
      have hdead := List.rel_of_pairwise_cons hpair List.mem_cons_self (hra.trans hrb.symm)
      simp [Transfer.dead, hsa] at hdead

/-- **At most one disbursement.** In every run whose retries wait for the death of the earlier
transfers, at most one transfer sent for a transaction ever succeeds. -/
theorem disbursed_once {x : Config (core env)} (hx : Reachable env (retriesWait env) x)
    (id : Uuid) : ((World.transfersFor x.world id).filter fun t => t.settled).length ≤ 1 :=
  length_settled_le_one (oneAlive_of_reachable hx) id

namespace Demo

variable (env : Env)

/-- The release sends a transfer, whose answer is lost. -/
def lostRelease : List (Label (core env)) :=
  checkout env ++ delivery env ++ .arrive (.executeRelease sale) :: serves env 7 2 ++
  [serve env 7 { id := release }, serve env 7,
    .perform 7 (.lost { id := sale, code := "TRF_0" } "timeout")]

/-- That transfer fails, and Paystack reports it. -/
def reportedFailure : List (Label (core env)) :=
  [.drift (.fail (releaseIdempotencyKey sale)),
    .arrive (.markFailed (releaseIdempotencyKey sale) .failed "could not be completed")] ++
  serves env 8 3

/-- A retry, as process `i`, from its lookup of the dispute to the transfer it sends. -/
def resend (i : Nat) (code : String) : List (Label (core env)) :=
  serves env i 5 ++ [serve env i { id := sale, code := code }]

/-- One retry reads the attempt count before the release writes down its failure, another one
after: they send under different references. -/
def overlappingRetries : List (Label (core env)) :=
  lostRelease env ++ reportedFailure env ++
  [.arrive (.retryTransfer (releaseIdempotencyKey sale) "admin"), serve env 9,
    .perform 7 (.failed "timeout")] ++ serves env 7 2 ++
  [.arrive (.retryTransfer (releaseIdempotencyKey sale) "admin"), serve env 10] ++
  resend env 10 "TRF_2" ++ resend env 9 "TRF_1" ++
  [.drift (.settle (retryReference (releaseIdempotencyKey sale) 1)),
    .drift (.settle (retryReference (releaseIdempotencyKey sale) 2))]

/-- One retry. -/
def oneRetry : List (Label (core env)) :=
  lostRelease env ++ reportedFailure env ++
  [.perform 7 (.failed "timeout")] ++ serves env 7 2 ++
  [.arrive (.retryTransfer (releaseIdempotencyKey sale) "admin"), serve env 9] ++
  resend env 9 "TRF_1" ++ [.drift (.settle (retryReference (releaseIdempotencyKey sale) 2))]

def settledSale (w : World) : Nat := ((w.transfersFor sale).filter fun t => t.settled).length

end Demo

set_option maxRecDepth 20000 in
/-- **Two retries both pay.** -/
theorem disbursed_twice : ¬ ∀ (env : Env) (x : Config (core env)) (id : Uuid),
    Reachable env Guard.free x →
      ((World.transfersFor x.world id).filter fun t => t.settled).length ≤ 1 := by
  intro hall
  have hrun : ((Config.run Guard.free (Demo.overlappingRetries Demo.silent)
      ⟨World.initial, []⟩).map fun x => decide (Demo.settledSale x.world = 2)) = some true := by
    decide
  obtain ⟨x, hx, htwo⟩ := reachable_of_run hrun
  have hone : Demo.settledSale x.world ≤ 1 := hall _ x Demo.sale hx
  rw [of_decide_eq_true htwo] at hone
  exact absurd hone (by decide)

set_option maxRecDepth 20000 in
/-- A retry after the first transfer failed pays once. -/
theorem disbursed_once_retry : ∃ x : Config (core Demo.silent),
    Reachable _ (retriesWait _) x ∧ Demo.settledSale x.world = 1 ∧ Demo.settledSale x.world ≤ 1 := by
  have hrun : ((Config.run (retriesWait _) (Demo.oneRetry Demo.silent)
      ⟨World.initial, []⟩).map fun x => decide (Demo.settledSale x.world = 1)) = some true := by
    decide
  obtain ⟨x, hx, hpaid⟩ := reachable_of_run hrun
  exact ⟨x, hx, of_decide_eq_true hpaid, disbursed_once hx Demo.sale⟩

end Meduman
