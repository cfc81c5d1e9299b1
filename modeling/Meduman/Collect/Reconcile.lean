import Meduman.Core.Does
import Meduman.Core.Outline
import Meduman.Effect.Sweep
import Meduman.Effect.Trace
import Mathlib.Data.List.OfFn

/-!
# Reconciliation reaches

A tick re-verifies the hundred oldest payments that are pending past the threshold. An answer of
Paystack's settles a payment or leaves it pending, and a payment left pending is among the oldest again
at the next tick.

* `checks` : the payments a tick re-verified, with the answers
* `settles` : the answers after which a payment is no longer pending
* `Ticks` : ticks one after the other, whatever Paystack answers
* **`reconcile_reaches_iff`** : whether all payments are re-verified in as many ticks as they fill
-/

set_option autoImplicit false

namespace Meduman

open Effect

/-! ## What a tick asked -/

/-- The payments re-verified, with Paystack's answers; the newest first. -/
def checks : Hist → List (Payment × Except Err VerifyTransactionResult)
  | ⟨.verifyTransaction _, a⟩ :: ⟨.paymentFindUnique (.id _), .ok (some p)⟩ :: h => (p, a) :: checks h
  | _ :: h => checks h
  | [] => []

/-- The operation asks Paystack about a charge. -/
def Op.verifies : Op → Bool
  | .verifyTransaction _ => true
  | _ => false

@[simp] theorem checks_nil : checks [] = [] := rfl

@[simp] theorem checks_cons {e : Event Op.Ans Err} (he : e.op.verifies = false) (h : Hist) :
    checks (e :: h) = checks h := by
  obtain ⟨op, a⟩ := e
  cases op <;> first | rfl | cases he

theorem checks_verify (reference : String) (a : Except Err VerifyTransactionResult) (id : Uuid)
    (p : Payment) (h : Hist) :
    checks (⟨.verifyTransaction reference, a⟩ :: ⟨.paymentFindUnique (.id id), .ok (some p)⟩ :: h) =
      (p, a) :: checks h := rfl

theorem checks_append {l h : Hist} (hl : ∀ e ∈ l, e.op.verifies = false) :
    checks (l ++ h) = checks h := by
  induction l with
  | nil => rfl
  | cons e l ih =>
      rw [List.cons_append, checks_cons (hl e List.mem_cons_self),
        ih fun e he => hl e (List.mem_cons_of_mem _ he)]

/-- The answer takes the payment out of `PENDING`: its charge did not succeed, or succeeded for just
its amount. -/
def settles (p : Payment) : Except Err VerifyTransactionResult → Bool
  | .ok v => v.status != "success" || v.amount == p.amount
  | .error _ => false

/-- The payments pending since before `cutoff`, the oldest first. -/
def pendingBefore (w : World) (cutoff : Int) : List Payment :=
  w.payments.filter fun p => p.status == .pending && p.createdAt < cutoff

/-- The answers given settle this payment. -/
def settledBy (l : List (Payment × Except Err VerifyTransactionResult)) (p : Payment) : Bool :=
  l.any fun c => c.1.id == p.id && settles c.1 c.2

/-- Paystack answers anything or fails, everything else is served. -/
def anyAnswer (op : Op) (o : Outcome) : Prop :=
  match op, o with
  | .verifyTransaction _, _ => True
  | _, .served _ => True
  | _, _ => False

/-! ## One payment -/

/-- What follows the update of a payment leaves the payments alone and asks nothing. -/
def Op.aside : Op → Prop
  | .transactionFindWithDisputes .. | .commitTransition _ | .enqueueWebhookDelivery _
  | .invoiceUpdateManyPaid .. | .invoiceFindFirst _ | .auditLogCreate _ | .transactionFindUnique _
  | .enqueueChatOutbound _ => True
  | _ => False

variable {env : Env} {u w : World} {h : Hist} {id : Uuid}

theorem payments_aside {op : Op} {o : Outcome} {a : Except Err op.Ans} (hop : op.aside)
    (he : exec op o u = some (a, w)) : w.payments = u.payments := by
  cases exec_change he with
  | frame same => exact same.payments
  | commit _ _ payments => exact payments
  | _ => exact hop.elim

theorem verifies_of_aside {op : Op} (hop : op.aside) : op.verifies = false := by
  cases op <;> first | rfl | exact hop.elim

theorem markPaidByTransaction_aside (transactionId : Uuid) :
    (markPaidByTransaction transactionId).Uses Op.aside := by
  refine uses_bind (uses_perform trivial) fun count => ?_
  split
  · refine uses_bind (uses_perform trivial) fun invoice => ?_
    cases invoice with
    | none => trivial
    | some invoice => exact uses_perform trivial
  · trivial

theorem notifyProtected_aside (transactionId : Uuid) :
    (notifyProtected transactionId).Uses Op.aside := by
  refine uses_bind (uses_perform trivial) fun tx => ?_
  cases tx with
  | none => trivial
  | some tx =>
      dsimp only
      cases tx.buyerId with
      | none => exact uses_perform trivial
      | some buyerId => exact uses_bind (uses_perform trivial) fun _ => uses_perform trivial

theorem ensures_aside {α : Type} {p : Program α} (hp : p.Uses Op.aside)
    {Q : Except Err α → World → Hist → Prop}
    (hQ : ∀ r w' h', w'.payments = w.payments → checks h' = checks h → Q r w' h') :
    p.Ensures (core env) anyAnswer Q w h := by
  refine Prog.Uses.ensures (K := fun u v : World => v.payments = u.payments) hp (fun _ => rfl)
    (fun huv hvw => hvw.trans huv) (fun hop he => payments_aside hop he)
    fun r w' l hl hsame => hQ r w' _ hsame (checks_append fun e he => verifies_of_aside (hl e he))

/-- The payments after the update of one that was pending. -/
theorem pendingBefore_update {d : PaymentUpdate} {payments : Table Payment}
    (write : u.payments.update (fun p => p.id == id) d.apply = some payments)
    (hd : ∀ p, (d.apply p).status ≠ .pending) (cutoff : Int) :
    pendingBefore { u with payments := payments } cutoff =
      (pendingBefore u cutoff).filter fun p => p.id != id := by
  unfold pendingBefore Table.filter
  rw [Table.rows_update write]
  induction u.payments.rows with
  | nil => rfl
  | cons p rows ih =>
      rw [List.map_cons, List.filter_cons, List.filter_cons, ih]
      by_cases hid : p.id = id
      · have hno : ((d.apply p).status == .pending && decide ((d.apply p).createdAt < cutoff)) =
            false := by
          rw [Bool.and_eq_false_iff]
          exact .inl (by simpa using hd p)
        rw [if_pos (beq_iff_eq.mpr hid), hno, if_neg Bool.false_ne_true]
        split
        · rw [List.filter_cons_of_neg (by simp [hid])]
        · rfl
      · have hsame : (if (p.id == id) = true then d.apply p else p) = p :=
          if_neg (by simpa using hid)
        rw [hsame]
        split
        · rw [List.filter_cons_of_pos (by simpa using hid)]
        · rfl

/-- A served update of a payment that is there goes through. -/
theorem paymentUpdate_done {d : PaymentUpdate} {o : Outcome} {a : Except Err Payment} {p : Payment}
    (hp : p ∈ u.payments) (ho : anyAnswer (.paymentUpdate p.id d) o)
    (he : exec (.paymentUpdate p.id d) o u = some (a, w)) (hd : ∀ p, (d.apply p).status ≠ .pending) :
    (∃ q, a = .ok q) ∧ ∀ cutoff, pendingBefore w cutoff =
      (pendingBefore u cutoff).filter fun q => q.id != p.id := by
  cases o with
  | lost s message => exact ho.elim
  | failed message => exact ho.elim
  | served s =>
      have heff : paymentUpdate p.id d u = (a, w) := Option.some.inj he
      have hfind : (u.payments.find fun q => q.id == p.id) = some p :=
        Table.find_eq hp (by simp) fun b hb hid =>
          Table.eq_of_clash hb hp (by simp [Constrained.clash, beq_iff_eq.mp hid])
      obtain ⟨t, hwrite⟩ := Table.update_isSome (t := u.payments) (p := fun q => q.id == p.id)
        (f := d.apply) fun a _ b _ => by split <;> split <;> rfl
      simp only [paymentUpdate, hfind, hwrite, Prod.mk.injEq] at heff
      obtain ⟨rfl, rfl⟩ := heff
      exact ⟨⟨_, rfl⟩, fun cutoff => pendingBefore_update hwrite hd cutoff⟩

/-- One payment was asked about, and its answer decided whether it is still pending. -/
structure Checked (u w : World) (h h' : Hist) (p : Payment)
    (a : Except Err VerifyTransactionResult) : Prop where
  checks : checks h' = (p, a) :: checks h
  left : ∀ cutoff, pendingBefore w cutoff =
    (pendingBefore u cutoff).filter fun q => !settledBy [(p, a)] q

theorem settledBy_single (p q : Payment) (a : Except Err VerifyTransactionResult) :
    settledBy [(p, a)] q = (p.id == q.id && settles p a) := by
  simp [settledBy]

/-- Payments that are as they were, after an answer that leaves its payment pending. -/
theorem Checked.of_same {h' : Hist} {p : Payment} {a : Except Err VerifyTransactionResult}
    (hchecks : Meduman.checks h' = (p, a) :: Meduman.checks h) (hsame : w.payments = u.payments)
    (hstuck : settles p a = false) : Checked u w h h' p a where
  checks := hchecks
  left cutoff := by
    simp [settledBy_single, hstuck, pendingBefore, hsame]

theorem reconcilePayment_ensures {p : Payment} (hp : p ∈ w.payments) (hst : p.status = .pending)
    {Q : Except Err Payment → World → Hist → Prop}
    (hQ : ∀ r w' h' a, Checked w w' h h' p a → Q r w' h') :
    (reconcilePayment p.id).Ensures (core env) anyAnswer Q w h := by
  have hfind : (w.payments.find fun q => q.id == p.id) = some p :=
    Table.find_eq hp (by simp) fun b hb hid =>
      Table.eq_of_clash hb hp (by simp [Constrained.clash, beq_iff_eq.mp hid])
  unfold reconcilePayment
  rw [ensures_perform_bind]
  intro o a u ho he
  obtain ⟨rfl, rfl⟩ : a = .ok (some p) ∧ u = w := by
    cases o with
    | served s =>
        have heff : ((.ok (w.payments.find fun q => q.id == p.id) : Except Err (Option Payment)), w) =
            (a, u) := Option.some.inj he
        rw [hfind] at heff
        exact ⟨(Prod.mk.inj heff).1.symm, (Prod.mk.inj heff).2.symm⟩
    | lost s message => exact ho.elim
    | failed message => exact ho.elim
  simp only [Prog.EnsuresThen, hst, ne_eq, not_true_eq_false, if_false]
  unfold verifyAndProtectPayment
  rw [if_neg (by rw [hst]; exact PaymentStatus.noConfusion), ensures_perform_bind]
  intro o a v ho he
  -- whatever Paystack answers, the payments are as they were
  have hsame : v.payments = u.payments := by
    cases exec_change he with
    | frame same => exact same.payments
    | verifyTransaction => rfl
  have hmem : p ∈ v.payments := by rw [hsame]; exact hp
  cases a with
  | error e => exact hQ _ _ _ (.error e) (.of_same rfl hsame rfl)
  | ok verified =>
      have hupdate : ∀ (d : PaymentUpdate), (∀ p, (d.apply p).status ≠ .pending) →
          settles p (.ok verified) = true → ∀ {o : Outcome} {a : Except Err Payment} {z : World},
          anyAnswer (.paymentUpdate p.id d) o → exec (.paymentUpdate p.id d) o v = some (a, z) →
          (∃ q, a = .ok q) ∧ ∀ cutoff, pendingBefore z cutoff =
            (pendingBefore u cutoff).filter fun q => !settledBy [(p, .ok verified)] q := by
        intro d hd hset o a z ho he
        obtain ⟨hok, hleft⟩ := paymentUpdate_done hmem ho he hd
        refine ⟨hok, fun cutoff => ?_⟩
        have hpending : pendingBefore v cutoff = pendingBefore u cutoff := by
          rw [pendingBefore, hsame]; rfl
        rw [hleft, hpending]
        refine List.filter_congr fun q _ => ?_
        rw [settledBy_single, hset, Bool.and_true, bne, BEq.comm]
      simp only [Prog.EnsuresThen]
      split
      · rename_i hfail
        intro o a z ho he
        have hset : settles p (.ok verified) = true := by simp [settles, hfail]
        obtain ⟨-, hleft⟩ := hupdate _ (fun q => by
          simp only [PaymentUpdate.apply, Option.getD_some]
          split <;> exact PaymentStatus.noConfusion) hset ho he
        exact hQ _ _ _ (.ok verified) ⟨rfl, hleft⟩
      · rename_i hsuccess
        split
        · rename_i hamount
          refine hQ _ _ _ (.ok verified) (.of_same rfl hsame ?_)
          simpa [settles, hamount] using not_not.mp hsuccess
        · rename_i hamount
          have hset : settles p (.ok verified) = true := by
            simp [settles, not_not.mp hamount]
          rw [ensures_perform_bind]
          intro o a z ho he
          obtain ⟨⟨updated, rfl⟩, hleft⟩ := hupdate _ (fun q => by
            simp only [PaymentUpdate.apply, Option.getD_some]
            exact PaymentStatus.noConfusion) hset ho he
          refine ensures_aside ?_ fun r w' h' hpay hchecks => hQ r w' h' (.ok verified) ⟨?_, ?_⟩
          · refine uses_bind (apply_uses trivial (fun _ => trivial) fun _ => trivial) fun _ => ?_
            refine uses_bind (markPaidByTransaction_aside _) fun _ => ?_
            exact uses_bind (notifyProtected_aside _) fun _ => trivial
          · rw [hchecks]; rfl
          · intro cutoff
            rw [← hleft, pendingBefore, hpay]
            rfl

/-! ## One tick -/

/-- The time a payment is stranded since, at this time. -/
def World.cutoff (env : Env) (w : World) : Int := w.clock - env.paymentReconcileAfterSeconds * 1000

theorem settledBy_cons (c : Payment × Except Err VerifyTransactionResult)
    (l : List (Payment × Except Err VerifyTransactionResult)) (q : Payment) :
    settledBy (c :: l) q = (settledBy [c] q || settledBy l q) := by
  simp [settledBy]

/-- What a tick that began in `u` did by now: what it asked, and who is still pending. -/
structure Progress (u w : World) (h : Hist) (asked : List Payment) : Prop where
  asked : (checks h).map Prod.fst = asked.reverse
  left : ∀ cutoff, pendingBefore w cutoff =
    (pendingBefore u cutoff).filter fun q => !settledBy (checks h) q

theorem Progress.checked {h' : Hist} {v : World} {asked : List Payment} {p : Payment}
    {a : Except Err VerifyTransactionResult} (hp : Progress u w h asked) (hc : Checked w v h h' p a) :
    Progress u v h' (asked ++ [p]) where
  asked := by
    rw [hc.checks, List.map_cons, hp.asked, List.reverse_append, List.reverse_singleton,
      List.singleton_append]
  left cutoff := by
    rw [hc.left, hp.left, List.filter_filter, hc.checks]
    refine List.filter_congr fun q _ => ?_
    rw [settledBy_cons (p, a) (checks h), Bool.not_or]

/-- A payment not asked about yet is still pending. -/
theorem Progress.mem {asked : List Payment} {p : Payment} {cutoff : Int} (hp : Progress u w h asked)
    (hmem : p ∈ pendingBefore u cutoff) (hnew : ∀ q ∈ asked, q.id ≠ p.id) :
    p ∈ w.payments ∧ p.status = .pending := by
  have hleft : p ∈ pendingBefore w cutoff := by
    rw [hp.left, List.mem_filter]
    refine ⟨hmem, ?_⟩
    rw [Bool.not_eq_true', settledBy, List.any_eq_false]
    intro c hc
    have hasked : c.1 ∈ asked := by
      rw [← List.mem_reverse, ← hp.asked]
      exact List.mem_map_of_mem hc
    simp [hnew _ hasked]
  obtain ⟨hpay, hsel⟩ := Table.mem_filter.mp hleft
  rw [Bool.and_eq_true, beq_iff_eq] at hsel
  exact ⟨hpay, hsel.1⟩

theorem reconcileEach_ensures {asked rest : List Payment} {cutoff : Int} (n : Nat)
    (hprogress : Progress u w h asked) (hmem : ∀ p ∈ rest, p ∈ pendingBefore u cutoff)
    (hnodup : ((asked ++ rest).map Payment.id).Nodup) {Q : Except Err Nat → World → Hist → Prop}
    (hQ : ∀ r w' h', Progress u w' h' (asked ++ rest) → Q r w' h') :
    (reconcileEach rest n).Ensures (core env) anyAnswer Q w h := by
  induction rest generalizing w h asked n with
  | nil => exact hQ _ _ _ (by rwa [List.append_nil])
  | cons p rest ih =>
      have hnew : ∀ q ∈ asked, q.id ≠ p.id := by
        rw [List.map_append, List.nodup_append] at hnodup
        exact fun q hq => hnodup.2.2 _ (List.mem_map_of_mem hq) _ List.mem_cons_self
      obtain ⟨hp, hst⟩ := hprogress.mem (hmem p List.mem_cons_self) hnew
      have hrest : ∀ n w' h' a, Checked w w' h h' p a →
          (reconcileEach rest n).Ensures (core env) anyAnswer Q w' h' := by
        intro n w' h' a hc
        refine ih n (hprogress.checked hc) (fun q hq => hmem q (List.mem_cons_of_mem _ hq)) ?_ ?_
        · rwa [List.append_assoc]
        · intro r w'' h'' hp''
          rw [List.append_assoc] at hp''
          exact hQ r w'' h'' hp''
      unfold reconcileEach
      rw [ensures_bind, ensures_tryCatch, ensures_bind]
      refine reconcilePayment_ensures hp hst fun r w' h' a hc => ?_
      cases r with
      | ok result => exact hrest _ w' h' a hc
      | error e => exact hrest _ w' h' a hc

theorem nodup_pendingBefore (w : World) (cutoff : Int) :
    ((pendingBefore w cutoff).map Payment.id).Nodup := by
  refine List.pairwise_map.mpr ((w.payments.distinct.filter _).imp fun hab heq => ?_)
  simp [Constrained.clash, heq] at hab

/-- The page of a tick that begins in `w`. -/
def page (env : Env) (w : World) : List Payment := (pendingBefore w (w.cutoff env)).take 100

/-- **What a tick does.** It asks about its page, and leaves pending what the answers do not settle. -/
theorem reconcilePending_ensures (env : Env) (w : World) :
    (reconcilePending env).Ensures (core env) anyAnswer
      (fun _ w' h' => Progress w w' h' (page env w)) w [] := by
  unfold reconcilePending
  rw [ensures_perform_bind]
  intro o a u ho he
  obtain ⟨rfl, rfl⟩ : a = .ok w.clock ∧ u = w := by
    cases o with
    | served s => cases he; exact ⟨rfl, rfl⟩
    | lost s message => exact ho.elim
    | failed message => exact ho.elim
  simp only [Prog.EnsuresThen]
  rw [ensures_perform_bind]
  intro o a v ho he
  obtain ⟨rfl, rfl⟩ : a = .ok (page env u) ∧ v = u := by
    cases o with
    | served s => cases he; exact ⟨rfl, rfl⟩
    | lost s message => exact ho.elim
    | failed message => exact ho.elim
  simp only [Prog.EnsuresThen]
  rw [ensures_bind]
  have hstart : Progress v v [⟨.paymentFindMany .pending (v.cutoff env) 100, .ok (page env v)⟩,
      ⟨.now, .ok v.clock⟩] [] := ⟨rfl, fun cutoff => by simp [checks, settledBy]⟩
  have hpending : ∀ p ∈ page env v, p ∈ pendingBefore v (v.cutoff env) :=
    fun p hp => List.mem_of_mem_take hp
  refine reconcileEach_ensures 0 hstart hpending ?_ fun r w' h' hp => ?_
  · rw [List.nil_append]
    exact (nodup_pendingBefore _ _).sublist ((List.take_sublist _ _).map _)
  · cases r <;> exact hp

/-! ## Tick after tick -/

/-- Ticks one after the other, each by the operations listed. Between them time passes and the payments
stay as they are. -/
inductive Ticks (env : Env) (w : World) : List Hist → World → Prop
  | nil : Ticks env w [] w
  | snoc {hs : List Hist} {h : Hist} {u v w' : World} {r : Except Err (Nat × Nat)}
      (before : Ticks env w hs u)
      (tick : (reconcilePending env).Runs (core env) anyAnswer u h r v)
      (payments : w'.payments = v.payments) (later : u.clock ≤ w'.clock) :
      Ticks env w (hs ++ [h]) w'

/-- The payments in the order they were created, as the scan asks for them. -/
def OldestFirst (w : World) : Prop :=
  w.payments.rows.Pairwise fun p q => p.createdAt ≤ q.createdAt

/-- A tick asked Paystack about the payment. -/
def Reverified (h : Hist) (p : Payment) : Prop := ∃ c ∈ checks h, c.1.id = p.id

/-- How many answers of a tick left their payment pending. -/
def stuck (h : Hist) : Nat := (checks h).countP fun c => !settles c.1 c.2

variable {hs : List Hist}

theorem Progress.of_runs {v : World} {r : Except Err (Nat × Nat)}
    (tick : (reconcilePending env).Runs (core env) anyAnswer u h r v) :
    Progress u v h (page env u) := by
  have hp := (reconcilePending_ensures env u).runs tick
  rwa [List.append_nil] at hp

/-- Ticks only take payments out of `PENDING`. -/
theorem Ticks.left (ht : Ticks env w hs u) : w.clock ≤ u.clock ∧ ∃ keep : Payment → Bool,
    ∀ cutoff, pendingBefore u cutoff = (pendingBefore w cutoff).filter keep := by
  induction ht with
  | nil => exact ⟨Int.le_refl _, fun _ => true, fun cutoff => by simp⟩
  | @snoc hs h u v w' r before tick payments later ih =>
      obtain ⟨hclock, keep, hkeep⟩ := ih
      refine ⟨Int.le_trans hclock later, fun q => keep q && !settledBy (checks h) q, fun cutoff => ?_⟩
      have hsame : pendingBefore w' cutoff = pendingBefore v cutoff := by
        rw [pendingBefore, payments]; rfl
      rw [hsame, (Progress.of_runs tick).left, hkeep, List.filter_filter]
      exact List.filter_congr fun q _ => Bool.and_comm _ _

/-- The oldest of an ordered list come first. -/
theorem filter_before {l : List Payment} (hl : l.Pairwise fun p q => p.createdAt ≤ q.createdAt)
    (sel : Payment → Bool) {c c' : Int} (hc : c ≤ c') :
    l.filter (fun p => sel p && p.createdAt < c') =
      l.filter (fun p => sel p && p.createdAt < c) ++
        l.filter fun p => sel p && (c ≤ p.createdAt && p.createdAt < c') := by
  induction l with
  | nil => rfl
  | cons p l ih =>
      rw [List.pairwise_cons] at hl
      by_cases hp : p.createdAt < c
      · have hp' : p.createdAt < c' := by omega
        have hnot : ¬ c ≤ p.createdAt := by omega
        simp only [List.filter_cons, hp, hp', hnot, decide_true, decide_false, Bool.and_true,
          Bool.and_false, Bool.false_eq_true, if_false, ih hl.2]
        split <;> simp
      · -- the others are no older
        have hnone : ∀ l' : List Payment, (∀ q ∈ l', p.createdAt ≤ q.createdAt) →
            l'.filter (fun q => sel q && q.createdAt < c) = [] := by
          intro l' hl'
          rw [List.filter_eq_nil_iff]
          intro q hq hsel
          have hold := hl' q hq
          simp only [Bool.and_eq_true, decide_eq_true_eq] at hsel
          omega
        have hall : ∀ q ∈ p :: l, p.createdAt ≤ q.createdAt := by
          intro q hq
          rcases List.mem_cons.mp hq with rfl | hq
          · exact Int.le_refl _
          · exact hl.1 q hq
        rw [hnone _ hall, List.nil_append]
        refine List.filter_congr fun q hq => ?_
        have hold := hall q hq
        have hge : c ≤ q.createdAt := by omega
        simp [hge]

/-- The payments stranded when a first tick begins are in front of those that got stranded later. -/
theorem Ticks.pending_split (ht : Ticks env w hs u) (hw : OldestFirst w) :
    ∃ rest, pendingBefore u (u.cutoff env) = pendingBefore u (w.cutoff env) ++ rest ∧
      ∀ p ∈ rest, p ∉ pendingBefore w (w.cutoff env) := by
  obtain ⟨hclock, keep, hkeep⟩ := ht.left
  have hle : w.cutoff env ≤ u.cutoff env := by
    unfold World.cutoff
    omega
  refine ⟨(w.payments.rows.filter fun p => p.status == .pending &&
    (w.cutoff env ≤ p.createdAt && p.createdAt < u.cutoff env)).filter keep, ?_, fun p hp hmem => ?_⟩
  · rw [hkeep, hkeep, ← List.filter_append]
    exact congrArg (List.filter keep) (filter_before hw (fun p => p.status == .pending) hle)
  · have hlate := (List.mem_filter.mp (List.mem_filter.mp hp).1).2
    have hearly := (Table.mem_filter.mp hmem).2
    simp only [Bool.and_eq_true, decide_eq_true_eq] at hlate hearly
    omega

/-- Of the payments stranded at first, a tick asks about the hundred oldest left. -/
theorem Ticks.reverified_iff (ht : Ticks env w hs u) (hw : OldestFirst w) {v : World} {h : Hist}
    (hp : Progress u v h (page env u)) {p : Payment} (hmem : p ∈ pendingBefore w (w.cutoff env)) :
    Reverified h p ↔ p ∈ (pendingBefore u (w.cutoff env)).take 100 := by
  obtain ⟨rest, hsplit, hlate⟩ := ht.pending_split hw
  obtain ⟨-, keep, hkeep⟩ := ht.left
  have hpage : page env u = (pendingBefore u (w.cutoff env)).take 100 ++
      rest.take (100 - (pendingBefore u (w.cutoff env)).length) := by
    rw [page, hsplit, List.take_append]
  constructor
  · rintro ⟨c, hc, hid⟩
    have hasked : c.1 ∈ page env u := by
      rw [← List.mem_reverse, ← hp.asked]
      exact List.mem_map_of_mem hc
    have hrow : c.1 ∈ w.payments := by
      have hpend := List.mem_of_mem_take hasked
      rw [hkeep] at hpend
      exact (Table.mem_filter.mp (List.mem_filter.mp hpend).1).1
    have heq : c.1 = p := Table.eq_of_clash hrow (Table.mem_filter.mp hmem).1
      (by simp [Constrained.clash, hid])
    rw [heq, hpage, List.mem_append] at hasked
    rcases hasked with htake | hrest
    · exact htake
    · exact absurd hmem (hlate p (List.mem_of_mem_take hrest))
  · intro htake
    have hasked : p ∈ (checks h).map Prod.fst := by
      rw [hp.asked, List.mem_reverse, hpage]
      exact List.mem_append_left _ htake
    obtain ⟨c, hc, rfl⟩ := List.mem_map.mp hasked
    exact ⟨c, hc, rfl⟩

/-- Asked about once each, a payment is settled by its own answer. -/
theorem settledBy_self {l : List (Payment × Except Err VerifyTransactionResult)}
    (hl : (l.map fun c => c.1.id).Nodup) {c : Payment × Except Err VerifyTransactionResult}
    (hc : c ∈ l) : settledBy l c.1 = settles c.1 c.2 := by
  rw [Bool.eq_iff_iff, settledBy, List.any_eq_true]
  constructor
  · rintro ⟨c', hc', hsel⟩
    rw [Bool.and_eq_true, beq_iff_eq] at hsel
    have heq : c' = c := List.inj_on_of_nodup_map hl hc' hc hsel.1
    rw [← heq]
    exact hsel.2
  · exact fun hset => ⟨c, hc, by rw [hset, beq_self_eq_true]; rfl⟩

/-- A full page, and what stuck of it. -/
theorem Progress.swept {v : World} {cutoff : Int}
    (hp : Progress u v h ((pendingBefore u cutoff).take 100)) :
    pendingBefore v cutoff =
      ((pendingBefore u cutoff).take 100).filter (fun q => !settledBy (checks h) q) ++
        (pendingBefore u cutoff).drop 100 ∧
    (((pendingBefore u cutoff).take 100).filter fun q => !settledBy (checks h) q).length =
      stuck h := by
  have hids : (pendingBefore u cutoff).Nodup :=
    List.Nodup.of_map _ (nodup_pendingBefore u cutoff)
  have hnodup : ((checks h).map fun c => c.1.id).Nodup := by
    have hmap : (checks h).map (fun c => c.1.id) = ((checks h).map Prod.fst).map Payment.id := by
      rw [List.map_map]; rfl
    rw [hmap, hp.asked, List.map_reverse, List.nodup_reverse]
    exact (nodup_pendingBefore u cutoff).sublist ((List.take_sublist _ _).map _)
  constructor
  · rw [hp.left]
    conv_lhs => rw [← List.take_append_drop 100 (pendingBefore u cutoff), List.filter_append]
    congr 1
    rw [List.filter_eq_self]
    intro q hq
    rw [Bool.not_eq_true', settledBy, List.any_eq_false]
    intro c hc
    have hasked : c.1 ∈ (pendingBefore u cutoff).take 100 := by
      rw [← List.mem_reverse, ← hp.asked]
      exact List.mem_map_of_mem hc
    have hne : c.1.id ≠ q.id := fun heq => by
      have hsame := List.inj_on_of_nodup_map (nodup_pendingBefore u cutoff)
        (List.mem_of_mem_take hasked) (List.mem_of_mem_drop hq) heq
      exact List.disjoint_take_drop hids (Nat.le_refl 100) (hsame ▸ hasked) hq
    simp [hne]
  · rw [← List.countP_eq_length_filter, stuck, ← List.countP_reverse, ← hp.asked, List.countP_map]
    refine List.countP_congr fun c hc => ?_
    simp only [Function.comp_apply, settledBy_self hnodup hc]

/-- **Full ticks are sweeps.** -/
theorem Ticks.swept (ht : Ticks env w hs u) (hw : OldestFirst w)
    (hfull : 100 * hs.length ≤ (pendingBefore w (w.cutoff env)).length) :
    ∃ pages, Swept 100 (pendingBefore w (w.cutoff env)) pages (pendingBefore u (w.cutoff env)) ∧
      pages.length = hs.length ∧ pages.map (fun page => page.2.length) = hs.map stuck ∧
      ∀ p ∈ pendingBefore w (w.cutoff env), (∃ h ∈ hs, Reverified h p) ↔
        ∃ page ∈ pages, p ∈ page.1 := by
  induction ht with
  | nil => exact ⟨[], .nil, rfl, rfl, fun p _ => by simp⟩
  | @snoc hs h u v w' r before tick payments later ih =>
      rw [List.length_append, List.length_singleton] at hfull
      obtain ⟨pages, hswept, hlen, hstuck, hasked⟩ := ih (by omega)
      have hp := Progress.of_runs tick
      have hlong : 100 ≤ (pendingBefore u (w.cutoff env)).length :=
        hswept.page_full (by rw [hlen]; exact hfull)
      have hpage : page env u = (pendingBefore u (w.cutoff env)).take 100 := by
        obtain ⟨rest, hsplit, -⟩ := before.pending_split hw
        rw [page, hsplit, List.take_append_of_le_length hlong]
      have hreverified := fun p hmem => before.reverified_iff hw hp (p := p) hmem
      rw [hpage] at hp
      obtain ⟨hleft, hcount⟩ := hp.swept
      have hsame : pendingBefore w' (w.cutoff env) = pendingBefore v (w.cutoff env) := by
        rw [pendingBefore, payments]; rfl
      have hnext := hswept.snoc (List.filter_sublist (p := fun q => !settledBy (checks h) q))
      rw [← hleft, ← hsame] at hnext
      refine ⟨_, hnext, ?_, ?_, fun p hmem => ?_⟩
      · rw [List.length_append, List.length_append, hlen]
        rfl
      · rw [List.map_append, List.map_append, hstuck, List.map_singleton, List.map_singleton, hcount]
      · simp only [List.mem_append, List.mem_singleton, or_and_right, exists_or, exists_eq_left]
        rw [hasked p hmem, hreverified p hmem]

/-- The payments pending past the threshold. -/
def stranded (env : Env) (w : World) : List Payment := pendingBefore w (w.cutoff env)

/-- Ticks that fill as many pages: all stranded payments are re-verified just when the answers that left
their payment pending, before the last tick, find room in the last page. -/
theorem reached_iff (hw : OldestFirst w) (ht : Ticks env w hs u)
    (hticks : hs.length = ((stranded env w).length + 99) / 100) :
    (∀ p ∈ stranded env w, ∃ h ∈ hs, Reverified h p) ↔
      (hs.dropLast.map stuck).sum + (stranded env w).length ≤ 100 * hs.length := by
  cases ht with
  | nil =>
      have hnone : (stranded env u).length = 0 := by
        rw [List.length_nil] at hticks
        omega
      rw [List.length_eq_zero_iff.mp hnone]
      simp
  | @snoc hs h v v' _ r before tick payments later =>
      rw [List.length_append, List.length_singleton] at hticks ⊢
      obtain ⟨pages, hswept, hlen, hstuck, hasked⟩ := before.swept hw (by
        rw [stranded] at hticks
        omega)
      have hlength := hswept.length_add (by
        rw [hlen]
        rw [stranded] at hticks
        omega)
      rw [hstuck, hlen] at hlength
      have hiff := hswept.all_paged_iff (List.Nodup.of_map _ (nodup_pendingBefore w _))
      rw [List.dropLast_concat]
      calc (∀ p ∈ stranded env w, ∃ h' ∈ hs ++ [h], Reverified h' p)
          ↔ ∀ p ∈ stranded env w, p ∈ (pendingBefore v (w.cutoff env)).take 100 ∨
              ∃ page ∈ pages, p ∈ page.1 := by
            refine forall₂_congr fun p hmem => ?_
            simp only [List.mem_append, List.mem_singleton, or_and_right, exists_or, exists_eq_left]
            rw [hasked p hmem, before.reverified_iff hw (Progress.of_runs tick) hmem, or_comm]
        _ ↔ (pendingBefore v (w.cutoff env)).length ≤ 100 := hiff
        _ ↔ (hs.map stuck).sum + (stranded env w).length ≤ 100 * (hs.length + 1) := by
            rw [stranded]
            omega

/-- **Reconciliation reaches every stranded payment just when few enough stick.** Of `n` stranded
payments, as many ticks as `n` payments fill pages re-verify every one if and only if the answers that
leave their payment pending, an error or a success with another amount, number at most
`100 * ⌈n / 100⌉ - n` in the ticks before the last. -/
theorem reconcile_reaches_iff (env : Env) {w w' : World} {hs : List Hist} (hw : OldestFirst w)
    (hrun : Ticks env w hs w') (hticks : hs.length = ((stranded env w).length + 99) / 100) :
    (∀ p ∈ stranded env w, ∃ h ∈ hs, Reverified h p) ↔
      (hs.dropLast.map stuck).sum + (stranded env w).length ≤ 100 * hs.length :=
  reached_iff hw hrun hticks

/-! ## The order of the payments -/

/-- The payments are in order, and none is from the future. -/
structure Dated (w : World) : Prop where
  ordered : OldestFirst w
  past : ∀ p ∈ w.payments, p.createdAt ≤ w.clock

theorem effect_clock (op : Op) (s : Supply) (u : World) : (effect s u op).2.clock = u.clock := by
  cases op with
  | commitTransition d =>
      rcases commitTransition_world d s u with heq | ⟨t, transactions, -, -, heq⟩
      · exact congrArg World.clock heq
      · exact (congrArg World.clock heq).trans rfl
  | paymentUpdate _ _ | payoutUpdate _ _ | disputeUpdate _ _ | invoiceUpdate _ _
  | transactionCreate _ | paymentCreate _ | payoutCreate _ | invoiceCreate _
  | invoiceCounterUpsert _ | userUpdateRoleFlags _ _ | transactionUpdateBuyer _ _ | disputeCreate _
  | webhookEventCreate _ | webhookEventUpdate _ _ | initializeTransaction _
  | invoiceUpdateManyPaid _ _ | invoiceUpdateManySent _ _ _ | invoiceUpdateManyViewed _
  | invoiceUpdateManyOverdue _ | paymentBindCharge _ _ | initiateTransfer _ | enqueueRelease _
  | startReleaseJob _ | completeReleaseJob _ _ | failReleaseJob _ _ =>
      simp only [effect, paymentUpdate, payoutUpdate, disputeUpdate, invoiceUpdate,
        invoiceCounterUpsert, invoiceUpdateManyPaid, invoiceUpdateMany, paymentBindCharge,
        initiateTransfer, enqueueRelease, startReleaseJob, completeReleaseJob, failReleaseJob]
      repeat' split
      all_goals rfl
  | _ => rfl

theorem Dated.of_update {q : Payment → Bool} {f : Payment → Payment} {t : Table Payment}
    (hu : Dated u) (write : u.payments.update q f = some t)
    (hf : ∀ p, (f p).createdAt = p.createdAt) : Dated { u with payments := t } where
  ordered := by
    rw [OldestFirst, Table.rows_update write, List.pairwise_map]
    refine hu.ordered.imp fun {a b} hab => ?_
    have hkeep : ∀ p, (if q p = true then f p else p).createdAt = p.createdAt := fun p => by
      split
      · exact hf p
      · rfl
    rw [hkeep, hkeep]
    exact hab
  past := Table.forall_update write (fun p hp _ => by rw [hf]; exact hu.past p hp) hu.past

theorem dated_exec {op : Op} {o : Outcome} {a : Except Err op.Ans} (hu : Dated u)
    (he : exec op o u = some (a, w)) : Dated w := by
  rcases exec_cases he with ⟨rfl, -⟩ | ⟨s, hfit, rfl, -⟩
  · exact hu
  have hclock := effect_clock op s u
  by_cases hcreate : ∃ d, op = .paymentCreate d
  · obtain ⟨d, rfl⟩ := hcreate
    simp only [effect]
    split
    · split
      · exact hu
      · rename_i t hwrite
        refine ⟨?_, fun p hp => ?_⟩
        · rw [OldestFirst, Table.rows_create hwrite]
          refine List.pairwise_append.mpr ⟨hu.ordered, List.pairwise_singleton _ _, ?_⟩
          intro p hp q hq
          rw [List.mem_singleton.mp hq]
          exact hu.past p hp
        · rcases (Table.mem_create hwrite).mp hp with hp | rfl
          · exact hu.past p hp
          · exact Int.le_refl _
    · exact hu
  · have hsame : ∀ {t : Table Payment}, (effect s u op).2.payments = t →
        Dated { u with payments := t } → Dated (effect s u op).2 := by
      rintro t rfl hd
      exact ⟨hd.ordered, by rw [hclock]; exact hd.past⟩
    have hchange := effect_change hfit
    generalize hw : (effect s u op).2 = w at hchange hsame
    cases hchange with
    | frame same => exact hsame same.payments hu
    | commit _ _ payments => exact hsame payments hu
    | paymentCreate => exact absurd ⟨_, rfl⟩ hcreate
    | paymentUpdate write => exact hu.of_update write fun _ => rfl
    | paymentBindCharge write => exact hu.of_update write fun _ => rfl
    | _ => exact ⟨hu.ordered, hu.past⟩

theorem dated_drift {m : Move} (hu : Dated u) (hm : drift m u = some w) : Dated w := by
  cases m with
  | tick elapsed =>
      cases hm
      exact ⟨hu.ordered, fun p hp => Int.le_trans (hu.past p hp) (by dsimp only; omega)⟩
  | merge source target =>
      obtain ⟨_, _, _, _, -, -, -, -, rfl⟩ := drift_merge hm
      exact ⟨hu.ordered, hu.past⟩
  | charge reference =>
      simp only [drift] at hm
      split at hm <;> cases hm
      exact ⟨hu.ordered, hu.past⟩
  | _ => cases hm; exact ⟨hu.ordered, hu.past⟩

/-- **In every reachable world the payments are in the order they were created.** -/
theorem Reachable.oldestFirst {G : Guard (core env)} {x : Config (core env)}
    (hx : Reachable env G x) : OldestFirst x.world := by
  suffices hdated : Dated x.world from hdated.ordered
  induction hx with
  | refl => exact ⟨.nil, fun p hp => absurd hp (Table.not_mem_empty p)⟩
  | @tail y z _ hstep ih =>
      obtain ⟨l, hl⟩ := hstep
      rcases (Config.next_step hl).world_cases with heq | ⟨_, _, _, _, _, _, -, -, -, he, -⟩ |
        ⟨m, -, hm⟩
      · rw [heq]; exact ih
      · exact dated_exec ih he
      · exact dated_drift ih hm

/-! ## Ticks that Paystack refuses -/

/-- Every answer in the history is an error. -/
def Refused (h : Hist) : Prop :=
  ∀ reference a, (⟨.verifyTransaction reference, a⟩ : Event Op.Ans Err) ∈ h → ∃ e, a = .error e

theorem Refused.append {h h' : Hist} (hr : Refused h) (hr' : Refused h') : Refused (h ++ h') := by
  intro reference a hmem
  rcases List.mem_append.mp hmem with hmem | hmem
  · exact hr reference a hmem
  · exact hr' reference a hmem

/-- The answers of a tick are in its history. -/
theorem answer_mem {c : Payment × Except Err VerifyTransactionResult} (hc : c ∈ checks h) :
    ∃ reference, (⟨.verifyTransaction reference, c.2⟩ : Event Op.Ans Err) ∈ h := by
  induction h using checks.induct with
  | case1 reference a id p h ih =>
      rw [checks_verify] at hc
      rcases List.mem_cons.mp hc with rfl | hc
      · exact ⟨reference, List.mem_cons_self⟩
      · obtain ⟨reference', hmem⟩ := ih hc
        exact ⟨reference', List.mem_cons_of_mem _ (List.mem_cons_of_mem _ hmem)⟩
  | case2 e h hnot ih =>
      rw [checks] at hc
      · obtain ⟨reference', hmem⟩ := ih hc
        exact ⟨reference', List.mem_cons_of_mem _ hmem⟩
      · exact hnot
  | case3 => cases hc

theorem stuck_refused (hr : Refused h) : stuck h = (checks h).length := by
  rw [stuck, List.countP_eq_length]
  intro c hc
  obtain ⟨reference, hmem⟩ := answer_mem hc
  obtain ⟨e, he⟩ := hr reference c.2 hmem
  rw [he]
  rfl

/-- A payment whose verification is refused stays as it is. -/
theorem reconcilePayment_refused (env : Env) {p : Payment} (hp : p ∈ w.payments) (hst : p.status = .pending) :
    ∃ l e, Refused l ∧ (reconcilePayment p.id).Runs (core env) anyAnswer w l (.error e) w := by
  have hfind : (w.payments.find fun q => q.id == p.id) = some p :=
    Table.find_eq hp (by simp) fun b hb hid =>
      Table.eq_of_clash hb hp (by simp [Constrained.clash, beq_iff_eq.mp hid])
  have hserved : (core env).exec (.paymentFindUnique (.id p.id))
      (Outcome.served ⟨p.id, "", "", 0, ⟨none, none, none⟩⟩) w =
        some (.ok (w.payments.find fun q => q.id == p.id), w) := rfl
  have hload : (await (.paymentFindUnique (.id p.id))).Runs (core env) anyAnswer w
      [⟨.paymentFindUnique (.id p.id), .ok (some p)⟩] (.ok (some p)) w :=
    runs_perform (hserved.trans (congrArg (fun found => some (Except.ok found, w)) hfind)) trivial
  have hverify : ∀ reference, (await (.verifyTransaction reference)).Runs (core env) anyAnswer w
      [⟨.verifyTransaction reference, .error (.badGateway "")⟩] (.error (.badGateway "")) w :=
    fun reference => by
      have hfailed : (core env).exec (.verifyTransaction reference) (Outcome.failed "") w =
          some (.error (.badGateway ""), w) := rfl
      exact runs_perform hfailed trivial
  refine ⟨[⟨.verifyTransaction (p.providerChargeReference.getD p.providerReference),
    .error (.badGateway "")⟩] ++ [⟨.paymentFindUnique (.id p.id), .ok (some p)⟩], .badGateway "",
    ?_, runs_bind hload ?_⟩
  · intro reference a hmem
    rcases List.mem_append.mp hmem with hmem | hmem
    · cases List.mem_singleton.mp hmem
      exact ⟨_, rfl⟩
    · cases List.mem_singleton.mp hmem
  · dsimp only
    rw [if_neg (not_not.mpr hst), verifyAndProtectPayment,
      if_neg (by rw [hst]; exact PaymentStatus.noConfusion)]
    exact runs_bind_error (hverify _)

theorem reconcileEach_refused (env : Env) {rest : List Payment} (n : Nat)
    (hrest : ∀ p ∈ rest, p ∈ w.payments ∧ p.status = .pending) :
    ∃ l, Refused l ∧ (reconcileEach rest n).Runs (core env) anyAnswer w l (.ok n) w := by
  induction rest with
  | nil => exact ⟨[], fun _ _ hmem => absurd hmem List.not_mem_nil, runs_pure (V := core env) n w⟩
  | cons p rest ih =>
      obtain ⟨hp, hst⟩ := hrest p List.mem_cons_self
      obtain ⟨l, e, hl, hrun⟩ := reconcilePayment_refused env hp hst
      obtain ⟨l', hl', hrun'⟩ := ih fun q hq => hrest q (List.mem_cons_of_mem _ hq)
      refine ⟨l' ++ ([] ++ l), hl'.append hl, ?_⟩
      have hskip : ((do
          let result ← reconcilePayment p.id
          pure (if result.status = .success then 1 else 0) : Program Nat).tryCatch fun _ =>
            pure 0).Runs (core env) anyAnswer w ([] ++ l) (.ok 0) w :=
        runs_tryCatch_error (runs_bind_error hrun) (runs_pure (V := core env) 0 w)
      exact runs_bind hskip hrun'

/-- A tick whose verifications are all refused leaves the world as it is. -/
theorem tick_refused (env : Env) (w : World) :
    ∃ l r, (reconcilePending env).Runs (core env) anyAnswer w l r w ∧
      stuck l = (page env w).length := by
  have hpage : ∀ p ∈ page env w, p ∈ w.payments ∧ p.status = .pending := by
    intro p hp
    obtain ⟨hpay, hsel⟩ := Table.mem_filter.mp (List.mem_of_mem_take hp)
    rw [Bool.and_eq_true, beq_iff_eq] at hsel
    exact ⟨hpay, hsel.1⟩
  obtain ⟨l, hl, hrun⟩ := reconcileEach_refused env 0 hpage
  have hclock : (core env).exec .now (Outcome.served ⟨Demo.sale, "", "", 0, ⟨none, none, none⟩⟩) w =
      some (.ok w.clock, w) := rfl
  have hnow : (await .now).Runs (core env) anyAnswer w [⟨.now, .ok w.clock⟩] (.ok w.clock) w :=
    runs_perform hclock trivial
  have hselect : (core env).exec (.paymentFindMany .pending (w.cutoff env) 100)
      (Outcome.served ⟨Demo.sale, "", "", 0, ⟨none, none, none⟩⟩) w =
        some (.ok (page env w), w) := rfl
  have hscan : (await (.paymentFindMany .pending (w.cutoff env) 100)).Runs (core env) anyAnswer w
      [⟨.paymentFindMany .pending (w.cutoff env) 100, .ok (page env w)⟩] (.ok (page env w)) w :=
    runs_perform hselect trivial
  have htick : (reconcilePending env).Runs (core env) anyAnswer w
      ((([] ++ l) ++ [⟨.paymentFindMany .pending (w.cutoff env) 100, .ok (page env w)⟩]) ++
        [⟨.now, .ok w.clock⟩]) (.ok ((page env w).length, 0)) w :=
    runs_bind hnow (runs_bind hscan (runs_bind hrun (runs_pure (V := core env) _ w)))
  refine ⟨_, _, htick, ?_⟩
  have hasked := congrArg List.length (Progress.of_runs htick).asked
  rw [List.length_map, List.length_reverse] at hasked
  rw [stuck_refused, hasked]
  refine (hl.append ?_).append ?_
  · intro reference a hmem
    cases List.mem_singleton.mp hmem
  · intro reference a hmem
    cases List.mem_singleton.mp hmem

namespace Demo

/-- The last two places of an identifier. -/
def places (i : Fin 101) : List Char := [Nat.digitChar (i / 16), Nat.digitChar (i % 16)]

/-- The number the places show. -/
def shown (l : List Char) : Nat :=
  l.foldl (fun n c => 16 * n + if c.isDigit then c.toNat - 48 else c.toNat - 87) 0

theorem shown_places : ∀ i : Fin 101, shown (places i) = i.val := by decide

/-- All but the last two places. -/
def leading : List Char := "00000000-0000-4000-8000-0000000000".toList

def numberText (i : Fin 101) : String := String.ofList (leading ++ places i)

theorem places_hex : ∀ i : Fin 101, ((places i).all fun c =>
    c.isDigit || ('a'.val ≤ c.val && c.val ≤ 'f'.val)) = true := by decide

theorem leading_canonical : (leading.zipIdx.all fun (c, i) =>
    if i == 8 || i == 13 || i == 18 || i == 23 then c == '-'
    else c.isDigit || ('a'.val ≤ c.val && c.val ≤ 'f'.val)) = true := by decide

theorem isUuid_numberText (i : Fin 101) : isUuid (numberText i) = true := by
  have hfirst := List.all_eq_true.mp (places_hex i) _ List.mem_cons_self
  have hsecond := List.all_eq_true.mp (places_hex i) _
    (List.mem_cons_of_mem _ List.mem_cons_self)
  rw [isUuid, numberText, String.toList_ofList, List.zipIdx_append, List.all_append, leading_canonical,
    Bool.true_and, Bool.and_eq_true]
  refine ⟨rfl, ?_⟩
  simp only [places, List.zipIdx_cons, List.zipIdx_nil, List.all_cons, List.all_nil, Bool.and_true,
    Bool.and_eq_true]
  exact ⟨hfirst, hsecond⟩

/-- A hundred and one identifiers. -/
def number (i : Fin 101) : Uuid := ⟨numberText i, isUuid_numberText i⟩

theorem number_injective {i j : Fin 101} (h : numberText i = numberText j) : i = j := by
  have hplaces : places i = places j :=
    List.append_cancel_left (String.ofList_injective h)
  exact Fin.ext (by rw [← shown_places i, ← shown_places j, hplaces])

/-- A payment into a virtual account whose own reference Paystack never saw. -/
def unseen (i : Fin 101) : Payment where
  id := number i
  transactionId := number i
  providerReference := numberText i
  providerChargeReference := none
  providerCustomerCode := none
  providerDedicatedAccountId := none
  virtualAccountNumber := none
  virtualAccountBank := none
  amount := 1000
  currency := "NGN"
  status := .pending
  rawPayload := none
  createdAt := 0

/-- The first `n` of these payments, past the threshold. -/
def strandedWorld (n : Nat) (hn : n ≤ 101) : World :=
  { World.initial with
    clock := 600001
    payments := {
      rows := List.ofFn fun i : Fin n => unseen (i.castLE hn)
      distinct := by
        refine List.pairwise_ofFn.mpr fun i j hij => ?_
        have hne : numberText (i.castLE hn) ≠ numberText (j.castLE hn) := fun heq => by
          have := Fin.castLE_injective hn (number_injective heq)
          omega
        have hid : number (i.castLE hn) ≠ number (j.castLE hn) := fun heq =>
          hne (congrArg Uuid.text heq)
        simp [Constrained.clash, unseen, hne, hid, sameValue] } }

theorem oldestFirst_strandedWorld {n : Nat} (hn : n ≤ 101) : OldestFirst (strandedWorld n hn) :=
  List.pairwise_ofFn.mpr fun _ _ _ => Int.le_refl _

theorem length_strandedWorld {n : Nat} (hn : n ≤ 101) :
    (stranded silent (strandedWorld n hn)).length = n := by
  have hall : stranded silent (strandedWorld n hn) = List.ofFn fun i : Fin n => unseen (i.castLE hn) :=
    List.filter_eq_self.mpr fun p hp => by
      obtain ⟨i, rfl⟩ := List.mem_ofFn.mp hp
      rfl
  rw [hall, List.length_ofFn]

end Demo

/-- **A payment nobody asks about.** A hundred older payments, whose references Paystack does not know,
fill the page of either tick. -/
theorem reconcile_starves : ¬ ∀ (env : Env) (w w' : World) (hs : List Hist), OldestFirst w →
    Ticks env w hs w' → hs.length = ((stranded env w).length + 99) / 100 →
      ∀ p ∈ stranded env w, ∃ h ∈ hs, Reverified h p := by
  intro hall
  have hn : 101 ≤ 101 := Nat.le_refl _
  obtain ⟨l, r, hrun, hstuck⟩ := tick_refused Demo.silent (Demo.strandedWorld 101 hn)
  have hticks : Ticks Demo.silent (Demo.strandedWorld 101 hn) [l, l] (Demo.strandedWorld 101 hn) :=
    .snoc (show Ticks _ _ [l] _ from .snoc .nil hrun rfl (Int.le_refl _)) hrun rfl (Int.le_refl _)
  have hlen := Demo.length_strandedWorld hn
  have hcount : ([l, l] : List Hist).length =
      ((stranded Demo.silent (Demo.strandedWorld 101 hn)).length + 99) / 100 := by rw [hlen]; rfl
  have hroom := (reached_iff (Demo.oldestFirst_strandedWorld hn) hticks hcount).mp
    (hall _ _ _ _ (Demo.oldestFirst_strandedWorld hn) hticks hcount)
  have hpage : (page Demo.silent (Demo.strandedWorld 101 hn)).length = 100 := by
    rw [page, List.length_take]
    rw [stranded] at hlen
    rw [hlen]
    rfl
  rw [hlen, List.dropLast_cons_cons, List.dropLast_singleton, List.map_singleton,
    List.sum_singleton, hstuck, hpage, List.length_cons, List.length_singleton] at hroom
  omega

/-- A hundred payments are all reached by one tick. -/
theorem reconcile_reaches_hundred : ∃ (w : World) (l : Hist), (stranded Demo.silent w).length = 100 ∧
    ∀ p ∈ stranded Demo.silent w, ∃ h ∈ [l], Reverified h p := by
  have hn : 100 ≤ 101 := by decide
  obtain ⟨l, r, hrun, -⟩ := tick_refused Demo.silent (Demo.strandedWorld 100 hn)
  have hlen := Demo.length_strandedWorld hn
  refine ⟨Demo.strandedWorld 100 hn, l, hlen, ?_⟩
  refine (reconcile_reaches_iff Demo.silent (Demo.oldestFirst_strandedWorld hn)
    (.snoc .nil hrun rfl (Int.le_refl _)) (by rw [hlen]; rfl)).mpr ?_
  rw [hlen]
  exact Nat.le_refl 100

end Meduman
