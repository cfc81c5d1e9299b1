import Meduman.Collect.Bind
import Meduman.Collect.Recover

/-!
# Transfers protect

The charge that is bound to a virtual account's payment first is the only one that will ever be verified
for it. When that charge verifies for exactly the payment's amount, every delivery of such a charge
leaves the transaction protected, or a call in progress is protecting it.

* `told` : what Paystack reports and verifies of its charges
* `undisturbed` : no delivery fails, and no collection is left unprotected
* `bindsExactly` : only exact charges are bound
* **`transfer_protects`** : then every delivery of an exact charge protects
* `transfer_ignored` : otherwise a delivery may be ignored
-/

set_option autoImplicit false

namespace Meduman

open Effect

variable {env : Env} {h : Hist} {u w : World} {id : Uuid}

/-! ## Checked out -/

/-- The transaction was checked out, and its payment did not lapse. -/
def TransactionStatus.checkedOut : TransactionStatus → Bool
  | draft | linkActive | cancelled | expired => false
  | _ => true

theorem edges_checkedOut : ∀ e ∈ edges, emitted e.2.1 = true → e.1.checkedOut = true →
    e.2.2.checkedOut = true := by decide

/-- The transaction was protected. -/
def WasProtected (w : World) (id : Uuid) : Prop :=
  InStates (fun s => s.checkedOut && s != .paymentPending) w id

theorem wasProtected_of (hout : InStates TransactionStatus.checkedOut w id)
    (ha : awaits w id = false) : WasProtected w id := by
  obtain ⟨t, ht, hid, hst⟩ := hout
  refine ⟨t, ht, hid, ?_⟩
  have hne : t.status ≠ .paymentPending := fun hp => by
    rw [awaits_iff.mpr ⟨t, ht, hid, hp⟩] at ha
    cases ha
  simp [hst, hne]

section Reach

variable {x y : Config (core env)} {l : Label (core env)}

theorem inStates_step {S : TransactionStatus → Bool} (hS : ∀ e ∈ edges, emitted e.2.1 = true →
      S e.1 = true → S e.2.2 = true) (hx : Reachable env Guard.free x) (hs : x.Step y l)
    (ho : InStates S x.world id) : InStates S y.world id := by
  cases hs with
  | arrive _ hw _ => rw [hw]; exact ho
  | perform hp hk he _ =>
      exact inStates_change hS (moving hx (List.mem_of_getElem? hp) hk).1 (exec_change he) ho
  | crash _ hw _ => rw [hw]; exact ho
  | drift hm _ => exact inStates_drift hm ho

/-- Whoever won a checkout checked its transaction out. -/
theorem checkedOut_of_won (hx : Reachable env Guard.free x) : ∀ p ∈ x.procs, ∀ id, Won p.hist id →
    InStates TransactionStatus.checkedOut x.world id := by
  induction hx with
  | refl => exact fun p hp => absurd hp List.not_mem_nil
  | @tail x y hx hstep ih =>
      obtain ⟨l, hl⟩ := hstep
      have hs := Config.next_step hl
      intro q hq id hw
      obtain ⟨j, hj⟩ := List.getElem?_of_mem hq
      have hold : ∀ p ∈ x.procs, Won p.hist id → InStates TransactionStatus.checkedOut y.world id :=
        fun p hp hw => inStates_step edges_checkedOut hx hs (ih p hp id hw)
      rcases hs.hist_cases hj with ⟨p, hp, -, hh⟩ | hh | ⟨p, op, k, o, a, hp, -, -, he, -, hh⟩
      · exact hold p (List.mem_of_getElem? hp) (hh ▸ hw)
      · rw [hh] at hw
        exact absurd hw (committed_nil _ _)
      · rw [hh] at hw
        rcases committed_cons hw with ⟨d, a, heq, rfl, hd⟩ | hw
        · cases heq
          obtain ⟨hmem, hid, hst, -⟩ := exec_answered he
          exact ⟨a.1, hmem, hid, by rw [hst, hd]; rfl⟩
        · exact hold p (List.mem_of_getElem? hp) hw

/-- **The transaction of a payment is checked out.** -/
theorem checkedOut_of_payment (hx : Reachable env Guard.free x) {p : Payment}
    (hp : p ∈ World.payments x.world) :
    InStates TransactionStatus.checkedOut x.world p.transactionId := by
  obtain ⟨q, hq, hwon, -⟩ := (sole_of_reachable hx).charged p hp
  exact checkedOut_of_won hx q hq _ hwon

/-! ## Shown payments -/

/-- A payment that was shown is there. -/
theorem shown_mem {op : Op} {o : Outcome} {a : Except Err op.Ans} {p : Payment}
    (he : exec op o u = some (a, w)) (hp : paymentOf ⟨op, a⟩ = some p) : p ∈ w.payments := by
  cases op with
  | paymentCreate d =>
      cases a with
      | error e => cases hp
      | ok a => cases hp; exact (exec_answered he).1
  | paymentUpdate id d =>
      cases a with
      | error e => cases hp
      | ok a => cases hp; exact (exec_answered he).1
  | paymentFindUnique key =>
      rcases a with e | _ | a
      · cases hp
      · cases hp
      · cases hp
        cases exec_change he with
        | frame same => exact same.payments ▸ (exec_answered he).1
  | paymentFindFirst query =>
      rcases a with e | _ | a
      · cases hp
      · cases hp
      · cases hp
        cases exec_change he with
        | frame same => exact same.payments ▸ (exec_answered he).1
  | _ => cases a <;> cases hp

/-- The rows of one payment, past and present. -/
structure Payment.Becomes (p p' : Payment) : Prop extends p.Later p' where
  providerCustomerCode : p'.providerCustomerCode = p.providerCustomerCode

theorem Payment.Becomes.refl (p : Payment) : p.Becomes p := ⟨.refl p, rfl⟩

theorem Payment.Becomes.trans {a b c : Payment} (hab : a.Becomes b) (hbc : b.Becomes c) :
    a.Becomes c :=
  ⟨hab.toLater.trans hbc.toLater, hbc.providerCustomerCode.trans hab.providerCustomerCode⟩

theorem becomes_change {op : Op} (hc : Change op u w) {p : Payment} (hp : p ∈ u.payments) :
    ∃ p' ∈ w.payments, p.Becomes p' := by
  have hupdate {q : Payment → Bool} {f : Payment → Payment} {t : Table Payment}
      (write : u.payments.update q f = some t) (hf : ∀ p, q p = true → p.Becomes (f p)) :
      ∃ p' ∈ t, p.Becomes p' := by
    cases hq : q p with
    | true => exact ⟨f p, Table.mem_update_of write hp hq, hf p hq⟩
    | false => exact ⟨p, Table.mem_update_of_not write hp hq, .refl p⟩
  cases hc with
  | frame same => exact ⟨p, same.payments ▸ hp, .refl p⟩
  | commit _ _ payments => exact ⟨p, payments ▸ hp, .refl p⟩
  | paymentCreate write => exact ⟨p, (Table.mem_create write).mpr (.inl hp), .refl p⟩
  | paymentUpdate write => exact hupdate write fun p _ => ⟨⟨rfl, rfl, rfl, rfl, fun _ h => h⟩, rfl⟩
  | paymentBindCharge write =>
      refine hupdate write fun p hsel => ⟨⟨rfl, rfl, rfl, rfl, fun r hr => ?_⟩, rfl⟩
      rw [hr] at hsel
      simp at hsel
  | _ => exact ⟨p, hp, .refl p⟩

/-- A payment stays, with its customer. -/
theorem becomes_step (hs : x.Step y l) {p : Payment} (hp : p ∈ World.payments x.world) :
    ∃ p' ∈ World.payments y.world, p.Becomes p' := by
  rcases hs.world_cases with hw | ⟨i, o, q, op, k, a, -, -, -, he, -⟩ | ⟨m, -, hm⟩
  · exact ⟨p, by rw [hw]; exact hp, .refl p⟩
  · exact becomes_change (exec_change he) hp
  · exact ⟨p, by rw [payments_drift hm]; exact hp, .refl p⟩

/-- **What a call was shown of a payment** is still so, up to its status. -/
theorem shown_becomes (hx : Reachable env Guard.free x) : ∀ q ∈ x.procs, ∀ p,
    PaymentShown q.hist p → ∃ p' ∈ World.payments x.world, p.Becomes p' := by
  induction hx with
  | refl => exact fun p hp => absurd hp List.not_mem_nil
  | @tail x y hx hstep ih =>
      obtain ⟨l, hl⟩ := hstep
      have hs := Config.next_step hl
      intro q hq p hshown
      obtain ⟨j, hj⟩ := List.getElem?_of_mem hq
      have hold : ∀ q ∈ x.procs, PaymentShown q.hist p →
          ∃ p' ∈ World.payments y.world, p.Becomes p' := fun q hq hshown => by
        obtain ⟨p₁, hp₁, hb⟩ := ih q hq p hshown
        obtain ⟨p₂, hp₂, hb'⟩ := becomes_step hs hp₁
        exact ⟨p₂, hp₂, hb.trans hb'⟩
      rcases hs.hist_cases hj with ⟨q₀, hq₀, -, hh⟩ | hh | ⟨q₀, op, k, o, a, hq₀, -, -, he, -, hh⟩
      · exact hold q₀ (List.mem_of_getElem? hq₀) (hh ▸ hshown)
      · rw [hh] at hshown
        obtain ⟨e, he, -⟩ := hshown
        exact absurd he List.not_mem_nil
      · rw [hh] at hshown
        obtain ⟨e, hmem, hp⟩ := hshown
        rcases List.mem_cons.mp hmem with rfl | hmem
        · exact ⟨p, shown_mem he hp, .refl p⟩
        · exact hold q₀ (List.mem_of_getElem? hq₀) ⟨e, hmem, hp⟩

end Reach

/-! ## Paystack, and the condition -/

/-- Whose charge a reference is, and the amount it verifies for; none for a charge that does not
succeed. -/
abbrev Charges := String → Option (String × Int)

/-- A report of a successful charge names its customer. -/
def Call.names (env : Env) (charges : Charges) (c : Call) : Bool :=
  match c.charge env with
  | some (reference, customer) =>
      (charges reference).all fun charge => customer == some charge.1
  | none => true

/-- A successful charge verifies as such, for its amount. -/
def Op.verifiesAs (charges : Charges) (o : Outcome) : Op → Bool
  | .verifyTransaction reference => match o with
      | .served s =>
          (charges reference).all fun charge => s.status == "success" && s.amount == charge.2
      | _ => true
  | _ => true

/-- What Paystack tells of its charges. -/
def told (env : Env) (charges : Charges) : Policy (core env) := fun x l =>
  match l with
  | .arrive c => c.names env charges
  | .perform i o => match x.pending i with
      | some (_, ⟨op, _⟩) => op.verifiesAs charges o
      | none => true
  | _ => true

/-- The call collected a payment of a transaction that is up for payment, and has yet to protect it. -/
def unprotecting (w : World) (h : Hist) : Bool :=
  match left h with
  | some (.unprotected id) => awaits w id
  | _ => false

/-- The operation takes place, and is answered. -/
def Outcome.isServed : Outcome → Bool
  | .served _ => true
  | _ => false

/-- A collection whose call does not learn of it. -/
def Op.collectsUnheard (o : Outcome) (w : World) : Op → Bool
  | .paymentUpdate id d => (Op.paymentUpdate id d).slips o w
  | _ => false

/-- No delivery of a charge is cut off, and none of its operations fails; and no call is cut off or fails
between a collection and the transition that protects the transaction. -/
def undisturbed (env : Env) : Policy (core env) := fun x l =>
  match l with
  | .perform i o => match x.pending i with
      | some (p, ⟨op, _⟩) => ((p.call.charge env).isNone || o.isServed) &&
          !op.collectsUnheard o x.world &&
          (!unprotecting x.world p.hist || op.carriedOut o x.world)
      | none => true
  | .crash i => match (x.procs[i]? : Option (Process (core env))) with
      | some p => (p.call.charge env).isNone && !unprotecting x.world p.hist
      | none => true
  | _ => true

/-- A binding to a payment whose transaction is up for payment is of a charge that verifies for exactly
the payment's amount. -/
def Op.bindsExactly (charges : Charges) (w : World) : Op → Bool
  | .paymentBindCharge id reference => w.payments.rows.all fun p =>
      p.id != id || p.providerChargeReference.isSome || !awaits w p.transactionId ||
        (charges reference).any fun charge => charge.2 == p.amount
  | _ => true

/-- Only exact charges are bound. -/
def bindsExactly (env : Env) (charges : Charges) : Policy (core env) := fun x l =>
  match l with
  | .perform i _ => match x.pending i with
      | some (_, ⟨op, _⟩) => op.bindsExactly charges x.world
      | none => true
  | _ => true

/-- Paystack is truthful, and no delivery is disturbed. -/
def promptly (env : Env) (charges : Charges) : Policy (core env) := fun x l =>
  told env charges x l && undisturbed env x l

/-- The runs in which an exact transfer protects. -/
def exactly (env : Env) (charges : Charges) : Policy (core env) := fun x l =>
  promptly env charges x l && bindsExactly env charges x l

/-! ## The invariant -/

/-- What a delivery heard is fair. -/
structure Fair (charges : Charges) (w : World) (h : Hist) : Prop where
  served : ∀ (op : Op) (e : Err), op.handlesPayment = true → (⟨op, .error e⟩ : Event Op.Ans Err) ∉ h
  found : ∀ id, ¬ Saw h (.paymentFindUnique (.id id)) none
  verified : ∀ reference v charge, Saw h (.verifyTransaction reference) v →
    charges reference = some charge → v.status = "success" ∧ v.amount = charge.2
  refused : ∀ id reference e, (⟨.paymentBindCharge id reference, .error e⟩ : Event Op.Ans Err) ∈ h →
    ∃ p ∈ w.payments, p.id ≠ id ∧ p.providerChargeReference = some reference
  late : ∀ id reference n, Saw h (.paymentBindCharge id reference) n → n ≠ 1 →
    ∃ p ∈ w.payments, p.id = id ∧ p.providerChargeReference ≠ none

/-- A call that is verifying the charge it bound. -/
def Verifying (x : Config (core env)) (id : Uuid) : Prop :=
  ∃ q ∈ x.procs, q.InProgress ∧ ∃ reference, Saw q.hist (.paymentBindCharge id reference) 1

/-- **What is collected is being protected, and what is bound is being verified.** -/
structure Underway (charges : Charges) (x : Config (core env)) : Prop where
  named : ∀ q ∈ x.procs, q.call.names env charges = true
  uncut : ∀ q ∈ x.procs, q.prog = none →
    q.call.charge env = none ∧ unprotecting x.world q.hist = false
  fair : ∀ q ∈ x.procs, q.call.charge env ≠ none → Fair charges x.world q.hist
  customers : ∀ p ∈ World.payments x.world, ∀ reference, p.providerChargeReference = some reference →
    ∀ charge, charges reference = some charge → p.providerCustomerCode = some charge.1
  exact : ∀ p ∈ World.payments x.world, ∀ reference, p.providerChargeReference = some reference →
    awaits x.world p.transactionId = true → ∃ charge, charges reference = some charge ∧
      charge.2 = p.amount
  uncollected : ∀ p ∈ World.payments x.world, awaits x.world p.transactionId = true →
    p.status ≠ .success ∨ Busy x (.unprotected p.transactionId)
  seen : ∀ q ∈ x.procs, ∀ p, PaymentShown q.hist p → p.status = .success →
    awaits x.world p.transactionId = true → Busy x (.unprotected p.transactionId)
  bound : ∀ p ∈ World.payments x.world, p.providerChargeReference ≠ none →
    awaits x.world p.transactionId = true → Busy x (.unprotected p.transactionId) ∨ Verifying x p.id

variable {charges : Charges}

theorem underway_initial : Underway charges (⟨World.initial, []⟩ : Config (core env)) where
  named _ hp := absurd hp List.not_mem_nil
  uncut _ hp := absurd hp List.not_mem_nil
  fair _ hp := absurd hp List.not_mem_nil
  customers _ hp := absurd hp (Table.not_mem_empty _)
  exact _ hp := absurd hp (Table.not_mem_empty _)
  uncollected _ hp := absurd hp (Table.not_mem_empty _)
  seen _ hp := absurd hp List.not_mem_nil
  bound _ hp := absurd hp (Table.not_mem_empty _)

theorem Fair.mono {h : Hist} (hf : Fair charges u h)
    (hkeep : ∀ p ∈ u.payments, ∃ p' ∈ w.payments, p.Becomes p') : Fair charges w h where
  served := hf.served
  found := hf.found
  verified := hf.verified
  refused id reference e hmem := by
    obtain ⟨p, hp, hne, hr⟩ := hf.refused id reference e hmem
    obtain ⟨p', hp', hb⟩ := hkeep p hp
    exact ⟨p', hp', by rw [hb.id]; exact hne, hb.providerChargeReference _ hr⟩
  late id reference n hsaw hne := by
    obtain ⟨p, hp, hid, hr⟩ := hf.late id reference n hsaw hne
    obtain ⟨p', hp', hb⟩ := hkeep p hp
    obtain ⟨r, hr⟩ := Option.ne_none_iff_exists'.mp hr
    exact ⟨p', hp', hb.id.trans hid, by
      rw [hb.providerChargeReference r hr]; exact Option.some_ne_none _⟩

/-! ## What a binding meets -/

/-- A binding that is refused: the charge is bound to another payment. -/
theorem bind_refused {reference : String} {e : Err}
    (h : (paymentBindCharge id reference w).1 = .error e) :
    ∃ p ∈ w.payments, p.id ≠ id ∧ p.providerChargeReference = some reference := by
  by_contra hno
  simp only [not_exists, not_and] at hno
  suffices hupdate : ∃ t, (w.payments.update
      (fun p => p.id == id && p.providerChargeReference.isNone) fun p =>
        { p with providerChargeReference := some reference }) = some t by
    obtain ⟨t, hwrite⟩ := hupdate
    simp [paymentBindCharge, hwrite] at h
  by_cases hsel : ∃ a ∈ w.payments, (a.id == id && a.providerChargeReference.isNone) = true
  · obtain ⟨a, ha, hsel⟩ := hsel
    have haid : a.id = id := beq_iff_eq.mp (Bool.and_eq_true_iff.mp hsel).1
    have honly : ∀ b ∈ w.payments, b.id = a.id → b = a := fun b hb heq =>
      Table.eq_of_clash hb ha (by simp [Constrained.clash, heq])
    refine Table.update_one_isSome ha hsel (by simp [Constrained.clash]) (fun b hb hbsel => ?_)
      fun b hb hne => ?_
    · exact honly b hb ((beq_iff_eq.mp (Bool.and_eq_true_iff.mp hbsel).1).trans haid.symm)
    · have hid : a.id ≠ b.id := fun heq => hne (honly b hb heq.symm)
      have hreference : a.providerReference ≠ b.providerReference := fun heq =>
        hne (Table.eq_of_clash hb ha (by simp [Constrained.clash, heq]))
      have hcharge : some reference ≠ b.providerChargeReference := fun heq =>
        hno b hb (fun hbid => hid (haid.trans hbid.symm)) heq.symm
      simp [Constrained.clash, sameValue, hid, hreference, hcharge]
  · have hnone : ∀ a ∈ w.payments,
        ¬ (a.id == id && a.providerChargeReference.isNone) = true := fun a ha hsel' =>
      hsel ⟨a, ha, hsel'⟩
    refine Table.update_isSome fun a ha b hb => ?_
    rw [if_neg (hnone a ha), if_neg (hnone b hb)]

/-- A binding that comes too late: another charge is bound to the payment. -/
theorem bind_late {reference : String} {n : Nat} {p : Payment}
    (h : (paymentBindCharge id reference w).1 = .ok n) (hp : p ∈ w.payments) (hid : p.id = id)
    (hn : n ≠ 1) : p.providerChargeReference ≠ none := by
  intro hnone
  unfold paymentBindCharge at h
  dsimp only at h
  split at h
  · cases h
  · cases h
    refine hn (Table.count_one hp ?_ (by simp [Constrained.clash]) fun b hb hsel => ?_)
    · simp [hid, hnone]
    · have hbid : b.id = id := beq_iff_eq.mp (Bool.and_eq_true_iff.mp hsel).1
      exact Table.eq_of_clash hb hp (by simp [Constrained.clash, hbid, hid])

/-- A charge reference of a payment was there, or was bound just now. -/
theorem bound_rows {op : Op} (hc : Change op u w) {p : Payment} (hp : p ∈ w.payments)
    {reference : String} (hr : p.providerChargeReference = some reference) :
    (∃ p₀ ∈ u.payments, p₀.Becomes p ∧ p₀.providerChargeReference = some reference) ∨
    (op = .paymentBindCharge p.id reference ∧
      ∃ p₀ ∈ u.payments, p₀.Becomes p ∧ p₀.providerChargeReference = none) := by
  cases hc with
  | frame same => exact .inl ⟨p, same.payments ▸ hp, .refl p, hr⟩
  | commit _ _ payments => exact .inl ⟨p, payments ▸ hp, .refl p, hr⟩
  | paymentCreate write =>
      rcases (Table.mem_create write).mp hp with hp | rfl
      · exact .inl ⟨p, hp, .refl p, hr⟩
      · cases hr
  | paymentUpdate write =>
      obtain ⟨p₀, hp₀, rfl⟩ := (Table.mem_update write).mp hp
      refine .inl ⟨p₀, hp₀, ?_⟩
      split at hr
      · rename_i hsel
        rw [if_pos hsel]
        exact ⟨⟨⟨rfl, rfl, rfl, rfl, fun _ h => h⟩, rfl⟩, hr⟩
      · rename_i hsel
        rw [if_neg hsel]
        exact ⟨.refl p₀, hr⟩
  | @paymentBindCharge id' reference' _ _ write =>
      obtain ⟨p₀, hp₀, rfl⟩ := (Table.mem_update write).mp hp
      split at hr
      · rename_i hsel
        obtain ⟨hid, hnone⟩ := Bool.and_eq_true_iff.mp hsel
        obtain rfl : p₀.id = id' := beq_iff_eq.mp hid
        have hnone : p₀.providerChargeReference = none := Option.isNone_iff_eq_none.mp hnone
        obtain rfl : reference' = reference := Option.some.inj hr
        rw [if_pos hsel]
        refine .inr ⟨rfl, p₀, hp₀, ⟨⟨rfl, rfl, rfl, rfl, fun r hr => ?_⟩, rfl⟩, hnone⟩
        rw [hnone] at hr
        cases hr
      · rename_i hsel
        rw [if_neg hsel]
        exact .inl ⟨p₀, hp₀, .refl p₀, hr⟩
  | _ => exact .inl ⟨p, hp, .refl p, hr⟩

/-! ## One step -/

section Step

variable {x y : Config (core env)} {l : Label (core env)} {reference : String}
  {customer : Option String}

/-- What a delivery promises of its next operation. -/
theorem binds_own (hx : Reachable env Guard.free x) {p : Process (core env)} (hp : p ∈ x.procs)
    {op : Op} {k : Except Err op.Ans → Prog Op.Ans Err Reply} (hk : p.prog = some (.call op k))
    (hcharge : p.call.charge env = some (reference, customer)) :
    BindsOwn reference customer p.hist op :=
  (promises (fun _ => code_concludes env _) hx p hp _ hk).1 reference customer hcharge

/-- How a delivery that ended did. -/
theorem charge_ended (hx : Reachable env Guard.free x) {p : Process (core env)} (hp : p ∈ x.procs)
    {r : Except Err Reply} (hdone : p.prog = some (.done r))
    (hcharge : p.call.charge env = some (reference, customer)) :
    Ended reference customer p.hist :=
  promises (R := EndsCharge env) (fun _ => code_concludes env _) hx p hp _ hdone reference customer
    hcharge

theorem charge_of_reports {c : Call} (h : ReportsCharge env c reference) :
    ∃ customer, c.charge env = some (reference, customer) := by
  cases c with
  | paystackWebhook rawBody signature =>
      obtain ⟨-, payload, hparse, hr, hevent⟩ := h
      refine ⟨payload.dataOrEmpty.customerCode, ?_⟩
      simp [Call.charge, hparse, PaystackWebhookPayload.charge, hevent, hr]
  | _ => exact h.elim

/-- Only deliveries bind, and only their own charge. -/
theorem charge_of_bind (hx : Reachable env Guard.free x) {p : Process (core env)} (hp : p ∈ x.procs)
    {a : Except Err Nat}
    (hmem : (⟨.paymentBindCharge id reference, a⟩ : Event Op.Ans Err) ∈ p.hist) :
    ∃ customer, p.call.charge env = some (reference, customer) := by
  let binds (c : Call) (e : Event Op.Ans Err) : Prop := ∀ id r, e.op = .paymentBindCharge id r →
    ∃ customer, c.charge env = some (r, customer)
  have hall : ∀ p ∈ x.procs, ∀ e ∈ p.hist, binds p.call e := by
    refine hx.histories (J := fun c h => ∀ e l, h = e :: l → binds c e)
      (T := fun c h => ∀ e ∈ h, binds c e) (fun {z} hz q hq op k hk a e l heq id r hop => ?_)
      (fun _ _ he => absurd he List.not_mem_nil) fun c e h hJ hT e' he' => ?_
    · obtain ⟨rfl, -⟩ := List.cons.inj heq
      obtain rfl : op = _ := hop
      exact charge_of_reports ((Reachable.holds hz).justified hq hk).1
    · rcases List.mem_cons.mp he' with rfl | he'
      · exact hJ _ _ rfl
      · exact hT _ he'
  exact hall p hp _ hmem id reference rfl

/-- A step of the policy in which a call performs an operation. -/
structure Proper (charges : Charges) (w : World) (p : Process (core env)) (op : Op) (o : Outcome) :
    Prop where
  verifiesAs : op.verifiesAs charges o = true
  served : p.call.charge env = none ∨ ∃ s, o = .served s
  heard : op.collectsUnheard o w = false
  carried : unprotecting w p.hist = true → op.carriedOut o w = true
  exact : op.bindsExactly charges w = true

theorem proper_of_exactly {i : Nat} {o : Outcome} {p : Process (core env)} {op : Op}
    {k : Except Err op.Ans → Prog Op.Ans Err Reply} (hp : x.procs[i]? = some p)
    (hk : p.prog = some (.call op k)) (hP : exactly env charges x (.perform i o) = true) :
    Proper charges x.world p op o := by
  simp only [exactly, promptly, told, undisturbed, bindsExactly, Config.pending_eq hp hk,
    Bool.and_eq_true, Bool.or_eq_true, Bool.not_eq_eq_eq_not, Bool.not_true,
    Option.isNone_iff_eq_none] at hP
  obtain ⟨⟨hverifies, ⟨hserved, hheard⟩, hcarried⟩, hexact⟩ := hP
  refine ⟨hverifies, hserved.imp_right fun ho => ?_, hheard, fun hun => ?_, hexact⟩
  · cases o with
    | served s => exact ⟨s, rfl⟩
    | lost s m => cases ho
    | failed m => cases ho
  · exact hcarried.resolve_left (by rw [hun]; exact Bool.noConfusion)

/-- What is being protected stays so, until it is protected. -/
theorem unprotected_step (hx : Reachable env Guard.free x) (hP : exactly env charges x l = true)
    (hs : x.Step y l) (hb : Busy x (.unprotected id)) (ha : awaits y.world id = true) :
    Busy y (.unprotected id) := by
  refine (busy_of_carried hx hs (fun i o p op k hl hp hk hleft => ?_) hb ha).resolve_right fun h => h
  subst hl
  have hopened := begun_of_reachable hx p (List.mem_of_getElem? hp) _ hleft
  refine (proper_of_exactly hp hk hP).carried ?_
  rw [unprotecting, hleft]
  exact awaits_step hx hs hopened ha

/-- **What a delivery hears next** is fair. -/
theorem fair_cons (hx : Reachable env Guard.free x) {i : Nat} {o : Outcome}
    {p : Process (core env)} {op : Op} {k : Except Err op.Ans → Prog Op.Ans Err Reply}
    {a : Except Err op.Ans} (hp : x.procs[i]? = some p) (hk : p.prog = some (.call op k))
    (he : exec op o x.world = some (a, y.world)) (hproper : Proper charges x.world p op o)
    (hcharge : p.call.charge env = some (reference, customer))
    (hkeep : ∀ p ∈ World.payments x.world, ∃ p' ∈ World.payments y.world, p.Becomes p')
    (hf : Fair charges x.world p.hist) : Fair charges y.world (⟨op, a⟩ :: p.hist) := by
  have hmem := List.mem_of_getElem? hp
  have hown := binds_own hx hmem hk hcharge
  obtain ⟨s, rfl⟩ := hproper.served.resolve_left (by rw [hcharge]; exact Option.some_ne_none _)
  have hold := hf.mono hkeep
  have heffect : a = (effect s x.world op).1 ∧ op.fits s x.world = true := by
    simp only [exec] at he
    split at he
    · exact ⟨(Prod.ext_iff.mp (Option.some.inj he)).1.symm, ‹_›⟩
    · cases he
  refine ⟨fun op' e hop hmem' => ?_, fun id hsaw => ?_, fun r v charge hsaw hr => ?_,
    fun id r e hmem' => ?_, fun id r n hsaw hn => ?_⟩
  · rcases List.mem_cons.mp hmem' with heq | hmem'
    · cases heq
      cases op with
      | paymentFindUnique key => cases heffect.1
      | paymentFindFirst query => cases heffect.1
      | verifyTransaction r => cases heffect.1
      | paymentUpdate id d =>
          obtain ⟨st, hst⟩ := Option.ne_none_iff_exists'.mp (show d.status ≠ none from hown)
          obtain ⟨⟨q, hq, rfl, -⟩, -⟩ := (moving hx hmem hk).1 st hst
          obtain ⟨q', hq', hb⟩ := shown_becomes hx p hmem q (lastPayment_shown hq)
          obtain ⟨t, hupdate⟩ := paymentUpdate_ok hq' d
          rw [hb.id] at hupdate
          have herr := heffect.1
          simp only [effect, hupdate] at herr
          cases herr
      | _ => cases hop
    · exact hold.served _ _ hop hmem'
  · rcases List.mem_cons.mp hsaw with heq | hsaw
    · cases heq
      obtain ⟨q, hq, rfl⟩ := hown
      obtain ⟨q', hq', hb⟩ := shown_becomes hx p hmem q hq
      have hnone := exec_answered he q' hq'
      simp [PaymentKey.selects, hb.id] at hnone
    · exact hold.found id hsaw
  · rcases List.mem_cons.mp hsaw with heq | hsaw
    · cases heq
      obtain rfl := (Except.ok.inj heffect.1)
      have hverifies := hproper.verifiesAs
      simp only [Op.verifiesAs, hr, Option.all_some, Bool.and_eq_true, beq_iff_eq] at hverifies
      exact hverifies
    · exact hold.verified r v charge hsaw hr
  · rcases List.mem_cons.mp hmem' with heq | hmem'
    · cases heq
      obtain ⟨q, hq, hne, hqr⟩ := bind_refused heffect.1.symm
      obtain ⟨q', hq', hb⟩ := hkeep q hq
      exact ⟨q', hq', by rw [hb.id]; exact hne, hb.providerChargeReference _ hqr⟩
    · exact hold.refused id r e hmem'
  · rcases List.mem_cons.mp hsaw with heq | hsaw
    · cases heq
      obtain ⟨-, code, q, -, hq, -, rfl⟩ := hown
      obtain ⟨q', hq', hb⟩ := shown_becomes hx p hmem q ⟨_, hq, rfl⟩
      have hbound := bind_late heffect.1.symm hq' hb.id hn
      obtain ⟨q'', hq'', hb'⟩ := hkeep q' hq'
      obtain ⟨r', hr'⟩ := Option.ne_none_iff_exists'.mp hbound
      refine ⟨q'', hq'', hb'.id.trans hb.id, ?_⟩
      rw [hb'.providerChargeReference r' hr']
      exact Option.some_ne_none _
    · exact hold.late id r n hsaw hn

theorem fair_step (hx : Reachable env Guard.free x) (hI : Underway charges x)
    (hP : exactly env charges x l = true) (hs : x.Step y l) :
    ∀ q ∈ y.procs, q.call.charge env ≠ none → Fair charges y.world q.hist := by
  intro q hq hcharge
  obtain ⟨j, hj⟩ := List.getElem?_of_mem hq
  have hkeep : ∀ p ∈ World.payments x.world, ∃ p' ∈ World.payments y.world, p.Becomes p' :=
    fun p hp => becomes_step hs hp
  rcases hs.hist_cases hj with ⟨p, hp, hcall, hh⟩ | hh |
    ⟨p, op, k, o, a, hp, hk, rfl, he, hcall, hh⟩
  · rw [hcall] at hcharge
    rw [hh]
    exact (hI.fair p (List.mem_of_getElem? hp) hcharge).mono hkeep
  · rw [hh]
    exact ⟨fun _ _ _ hmem => absurd hmem List.not_mem_nil, fun _ hsaw => absurd hsaw List.not_mem_nil,
      fun _ _ _ hsaw => absurd hsaw List.not_mem_nil, fun _ _ _ hmem => absurd hmem List.not_mem_nil,
      fun _ _ _ hsaw => absurd hsaw List.not_mem_nil⟩
  · rw [hcall] at hcharge
    obtain ⟨⟨r, customer⟩, hr⟩ := Option.ne_none_iff_exists'.mp hcharge
    rw [hh]
    exact fair_cons hx hp hk he (proper_of_exactly hp hk hP) hr hkeep
      (hI.fair p (List.mem_of_getElem? hp) hcharge)

theorem named_step (hI : Underway charges x) (hP : exactly env charges x l = true)
    (hs : x.Step y l) : ∀ q ∈ y.procs, q.call.names env charges = true := by
  intro q hq
  cases hs with
  | @arrive c hadm hw hprocs =>
      rw [hprocs] at hq
      rcases List.mem_append.mp hq with hq | hq
      · exact hI.named q hq
      · rw [List.mem_singleton.mp hq]
        have htold := (Bool.and_eq_true_iff.mp (Bool.and_eq_true_iff.mp hP).1).1
        exact htold
  | perform hp hk he hprocs =>
      rw [hprocs] at hq
      rcases List.mem_or_eq_of_mem_set hq with hq | rfl
      · exact hI.named q hq
      · have hnamed := hI.named _ (List.mem_of_getElem? hp)
        exact hnamed
  | crash hp hw hprocs =>
      rw [hprocs] at hq
      rcases List.mem_or_eq_of_mem_set hq with hq | rfl
      · exact hI.named q hq
      · have hnamed := hI.named _ (List.mem_of_getElem? hp)
        exact hnamed
  | drift hm hprocs => exact hI.named q (hprocs ▸ hq)

theorem unprotecting_step (hx : Reachable env Guard.free x) (hs : x.Step y l)
    {p : Process (core env)} (hp : p ∈ x.procs) (hun : unprotecting x.world p.hist = false) :
    unprotecting y.world p.hist = false := by
  unfold unprotecting at hun ⊢
  split at hun
  · rename_i id hleft
    rw [Bool.eq_false_iff] at hun ⊢
    exact fun ha => hun (awaits_step hx hs (begun_of_reachable hx p hp _ hleft) ha)
  · rfl

theorem delivery_uncut (hx : Reachable env Guard.free x) (hI : Underway charges x)
    (hP : exactly env charges x l = true) (hs : x.Step y l) : ∀ q ∈ y.procs, q.prog = none →
      q.call.charge env = none ∧ unprotecting y.world q.hist = false := by
  intro q hq hcut
  have hold : q ∈ x.procs → q.call.charge env = none ∧ unprotecting y.world q.hist = false :=
    fun hq => ⟨(hI.uncut q hq hcut).1, unprotecting_step hx hs hq (hI.uncut q hq hcut).2⟩
  cases hs with
  | arrive hadm hw hprocs =>
      rw [hprocs] at hq
      rcases List.mem_append.mp hq with hq | hq
      · exact hold hq
      · rw [List.mem_singleton.mp hq] at hcut
        cases hcut
  | perform hp hk he hprocs =>
      rw [hprocs] at hq
      rcases List.mem_or_eq_of_mem_set hq with hq | rfl
      · exact hold hq
      · cases hcut
  | crash hp hw hprocs =>
      rw [hprocs] at hq
      rcases List.mem_or_eq_of_mem_set hq with hq | rfl
      · exact hold hq
      · have hundisturbed := (Bool.and_eq_true_iff.mp (Bool.and_eq_true_iff.mp hP).1).2
        simp only [undisturbed, hp, Bool.and_eq_true, Option.isNone_iff_eq_none,
          Bool.not_eq_eq_eq_not, Bool.not_true] at hundisturbed
        rw [hw]
        exact hundisturbed
  | drift hm hprocs => exact hold (hprocs ▸ hq)

/-- A bound charge is one of the payment's customer. -/
theorem customers_step (hx : Reachable env Guard.free x) (hI : Underway charges x)
    (hs : x.Step y l) {p : Payment} (hp : p ∈ World.payments y.world)
    (hr : p.providerChargeReference = some reference) {charge : String × Int}
    (hcharge : charges reference = some charge) : p.providerCustomerCode = some charge.1 := by
  rcases hs.world_cases with hw | ⟨i, o, q, op, k, a, -, hq, hk, he, -⟩ | ⟨m, -, hm⟩
  · rw [hw] at hp
    exact hI.customers p hp reference hr charge hcharge
  · rcases bound_rows (exec_change he) hp hr with ⟨p₀, hp₀, hb, hr₀⟩ | ⟨rfl, p₀, hp₀, hb, -⟩
    · rw [hb.providerCustomerCode]
      exact hI.customers p₀ hp₀ reference hr₀ charge hcharge
    · have hmem := List.mem_of_getElem? hq
      obtain ⟨customer, hc⟩ := charge_of_reports (moving hx hmem hk).1.1
      obtain ⟨-, code, q₁, rfl, hsaw, hcode, hid⟩ := binds_own hx hmem hk hc
      have hnamed := hI.named q hmem
      simp only [Call.names, hc, hcharge, Option.all_some, beq_iff_eq, Option.some.injEq] at hnamed
      obtain ⟨q₂, hq₂, hb₂⟩ := shown_becomes hx q hmem q₁ ⟨_, hsaw, rfl⟩
      have hsame : q₂ = p₀ := Table.eq_of_clash hq₂ hp₀
        (by simp [Constrained.clash, hb₂.id, hid, hb.id])
      rw [hb.providerCustomerCode, ← hsame, hb₂.providerCustomerCode, hcode, hnamed]
  · rw [payments_drift hm] at hp
    exact hI.customers p hp reference hr charge hcharge

/-- A charge bound while the transaction is up for payment is exact. -/
theorem exact_step (hx : Reachable env Guard.free x) (hI : Underway charges x)
    (hP : exactly env charges x l = true) (hs : x.Step y l) {p : Payment}
    (hp : p ∈ World.payments y.world) (hr : p.providerChargeReference = some reference)
    (ha : awaits y.world p.transactionId = true) :
    ∃ charge, charges reference = some charge ∧ charge.2 = p.amount := by
  have hbefore : ∀ p₀ ∈ World.payments x.world, p₀.Becomes p →
      awaits x.world p₀.transactionId = true := fun p₀ hp₀ hb =>
    awaits_step hx hs (opened_of_payment hx hp₀) (by rw [← hb.transactionId]; exact ha)
  have hold : ∀ p₀ ∈ World.payments x.world, p₀.Becomes p →
      p₀.providerChargeReference = some reference →
      ∃ charge, charges reference = some charge ∧ charge.2 = p.amount := fun p₀ hp₀ hb hr₀ => by
    rw [hb.amount]
    exact hI.exact p₀ hp₀ reference hr₀ (hbefore p₀ hp₀ hb)
  rcases hs.world_cases with hw | ⟨i, o, q, op, k, a, rfl, hq, hk, he, -⟩ | ⟨m, -, hm⟩
  · rw [hw] at hp
    exact hold p hp (.refl p) hr
  · rcases bound_rows (exec_change he) hp hr with ⟨p₀, hp₀, hb, hr₀⟩ | ⟨rfl, p₀, hp₀, hb, hnone⟩
    · exact hold p₀ hp₀ hb hr₀
    · have hexact := (proper_of_exactly hq hk hP).exact
      simp only [Op.bindsExactly, List.all_eq_true, Bool.or_eq_true, bne_iff_ne,
        Bool.not_eq_eq_eq_not, Bool.not_true, Option.any_eq_true, beq_iff_eq] at hexact
      rcases hexact p₀ hp₀ with ((hne | hsome) | hawait) | ⟨charge, hcharge, hamount⟩
      · exact absurd hb.id.symm hne
      · rw [hnone] at hsome
        cases hsome
      · rw [hbefore p₀ hp₀ hb] at hawait
        cases hawait
      · exact ⟨charge, hcharge, by rw [hb.amount]; exact hamount⟩
  · rw [payments_drift hm] at hp
    exact hold p hp (.refl p) hr

/-- A collected payment is being protected. -/
theorem collected_step (hx : Reachable env Guard.free x) (hI : Underway charges x)
    (hP : exactly env charges x l = true) (hs : x.Step y l) {p : Payment}
    (hp : p ∈ World.payments y.world) (ha : awaits y.world p.transactionId = true) :
    p.status ≠ .success ∨ Busy y (.unprotected p.transactionId) := by
  refine uncollected_step hx hs hI.uncollected (fun _ hb ha => unprotected_step hx hP hs hb ha)
    ?_ hp ha
  intro i s m q id d k hl hq hk
  subst hl
  exact (proper_of_exactly hq hk hP).heard

/-- Who saw a payment collected. -/
theorem seen_step (hx : Reachable env Guard.free x) (hI : Underway charges x)
    (hP : exactly env charges x l = true) (hs : x.Step y l) {q : Process (core env)}
    (hq : q ∈ y.procs) {p : Payment} (hshown : PaymentShown q.hist p) (hst : p.status = .success)
    (ha : awaits y.world p.transactionId = true) : Busy y (.unprotected p.transactionId) := by
  have hold : ∀ q₀ ∈ x.procs, PaymentShown q₀.hist p → Busy y (.unprotected p.transactionId) := by
    intro q₀ hq₀ hshown
    obtain ⟨p', hp', hb⟩ := shown_becomes hx q₀ hq₀ p hshown
    have hopened := opened_of_payment hx hp'
    rw [hb.transactionId] at hopened
    exact unprotected_step hx hP hs (hI.seen q₀ hq₀ p hshown hst (awaits_step hx hs hopened ha)) ha
  obtain ⟨j, hj⟩ := List.getElem?_of_mem hq
  rcases hs.hist_cases hj with ⟨q₀, hq₀, -, hh⟩ | hh | ⟨q₀, op, k, o, a, hq₀, -, -, he, -, hh⟩
  · exact hold q₀ (List.mem_of_getElem? hq₀) (hh ▸ hshown)
  · rw [hh] at hshown
    obtain ⟨e, he, -⟩ := hshown
    exact absurd he List.not_mem_nil
  · rw [hh] at hshown
    obtain ⟨e, hmem, hp⟩ := hshown
    rcases List.mem_cons.mp hmem with rfl | hmem
    · exact (collected_step hx hI hP hs (shown_mem he hp) ha).resolve_left fun hne => hne hst
    · exact hold q₀ (List.mem_of_getElem? hq₀) ⟨e, hmem, hp⟩

/-- The row of a payment the call's charge is bound to. -/
theorem IsBound.row (hx : Reachable env Guard.free x) {q : Process (core env)} (hq : q ∈ x.procs)
    {p : Payment} (hp : PaymentShown q.hist p) (hb : IsBound q.hist p reference) :
    ∃ p' ∈ World.payments x.world, p.Becomes p' ∧ p'.providerChargeReference = some reference := by
  obtain ⟨p', hp', hbecomes⟩ := shown_becomes hx q hq p hp
  refine ⟨p', hp', hbecomes, ?_⟩
  rcases hb with hr | hsaw
  · exact hbecomes.providerChargeReference _ hr
  · obtain ⟨p'', hp'', hid, hr⟩ := (hx.holds.know q hq).remembered _ _ hsaw Nat.one_pos
    have hsame : p'' = p' := Table.eq_of_clash hp'' hp'
      (by simp [Constrained.clash, hid, hbecomes.id])
    rw [← hsame]
    exact hr

/-- **A delivery that settles its charge** leaves the collected payment being protected. -/
theorem settles_busy (hx : Reachable env Guard.free x)
    (fair : ∀ q ∈ x.procs, q.call.charge env ≠ none → Fair charges x.world q.hist)
    (seen : ∀ q ∈ x.procs, ∀ p, PaymentShown q.hist p → p.status = .success →
      awaits x.world p.transactionId = true → Busy x (.unprotected p.transactionId))
    {q : Process (core env)} (hq : q ∈ x.procs)
    (hcharge : q.call.charge env = some (reference, customer)) (hs : Settles q.hist reference)
    {p : Payment} (hp : p ∈ World.payments x.world)
    (hr : p.providerChargeReference = some reference)
    (hexact : ∃ charge, charges reference = some charge ∧ charge.2 = p.amount)
    (ha : awaits x.world p.transactionId = true) : Busy x (.unprotected p.transactionId) := by
  -- only one payment is bound to the charge
  have hrow : ∀ {p₁}, PaymentShown q.hist p₁ → IsBound q.hist p₁ reference → p₁.Becomes p := by
    intro p₁ hp₁ hb₁
    obtain ⟨p', hp', hb, hr'⟩ := IsBound.row hx hq hp₁ hb₁
    have hsame : p' = p := Table.eq_of_clash hp' hp (by simp [Constrained.clash, hr', hr])
    exact hsame ▸ hb
  have hfair := fair q hq (by rw [hcharge]; exact Option.some_ne_none _)
  rcases hs with ⟨p₁, p₂, hp₁, hb₁, hp₂, hid, hst⟩ | hspoilt
  · obtain ⟨p', hp', hb⟩ := shown_becomes hx q hq p₂ hp₂
    have hsame : p' = p := Table.eq_of_clash hp' hp
      (by simp [Constrained.clash, hb.id, hid, (hrow hp₁ hb₁).id])
    have htx : p₂.transactionId = p.transactionId := by rw [← hsame]; exact hb.transactionId.symm
    rw [← htx] at ha ⊢
    exact seen q hq p₂ hp₂ hst ha
  · exfalso
    cases hspoilt with
    | failed handles event => exact hfair.served _ _ handles event
    | gone saw => exact hfair.found _ saw
    | inexact shown bound asked inexact =>
        obtain ⟨charge, hcharge, hamount⟩ := hexact
        obtain ⟨hsucc, hv⟩ := hfair.verified _ _ _ asked hcharge
        exact inexact ⟨hsucc, by rw [hv, hamount, (hrow shown bound).amount]⟩

/-- A payment that is bound is being verified, or protected. -/
theorem bound_step (hx : Reachable env Guard.free x) (hy : Reachable env Guard.free y)
    (hI : Underway charges x) (hP : exactly env charges x l = true) (hs : x.Step y l) {p : Payment}
    (hp : p ∈ World.payments y.world) (hbound : p.providerChargeReference ≠ none)
    (ha : awaits y.world p.transactionId = true) :
    Busy y (.unprotected p.transactionId) ∨ Verifying y p.id := by
  obtain ⟨reference, hr⟩ := Option.ne_none_iff_exists'.mp hbound
  -- whoever binds is verifying, or is done and collected
  have binder : (∃ q ∈ y.procs, ∃ r, Saw q.hist (.paymentBindCharge p.id r) 1) →
      Busy y (.unprotected p.transactionId) ∨ Verifying y p.id := by
    rintro ⟨q, hq, r, hsaw⟩
    obtain ⟨customer, hcharge⟩ := charge_of_bind hy hq hsaw
    have huncut : q.prog ≠ none := fun hcut => by
      have hnone := (delivery_uncut hx hI hP hs q hq hcut).1
      rw [hcharge] at hnone
      cases hnone
    obtain ⟨k, hk⟩ := Option.ne_none_iff_exists'.mp huncut
    cases k with
    | call op k => exact .inr ⟨q, hq, ⟨op, k, hk⟩, r, hsaw⟩
    | done res =>
        have hended := charge_ended hy hq hk hcharge
        obtain ⟨p', hp', hid, hr'⟩ := (hy.holds.know q hq).remembered _ _ hsaw Nat.one_pos
        obtain rfl : p' = p := Table.eq_of_clash hp' hp (by simp [Constrained.clash, hid])
        exact .inl (settles_busy hy (fair_step hx hI hP hs)
          (fun q hq p₁ hp₁ hst ha => seen_step hx hI hP hs hq hp₁ hst ha) hq hcharge
          (hended.settles _ hsaw) hp hr' (exact_step hx hI hP hs hp hr' ha) ha)
  have hold : ∀ p₀ ∈ World.payments x.world, p₀.Becomes p → p₀.providerChargeReference ≠ none →
      Busy y (.unprotected p.transactionId) ∨ Verifying y p.id := by
    intro p₀ hp₀ hb hbound₀
    have hbefore : awaits x.world p₀.transactionId = true :=
      awaits_step hx hs (opened_of_payment hx hp₀) (by rw [← hb.transactionId]; exact ha)
    rcases hI.bound p₀ hp₀ hbound₀ hbefore with hbusy | ⟨q, hq, -, r, hsaw⟩
    · rw [← hb.transactionId] at hbusy
      exact .inl (unprotected_step hx hP hs hbusy ha)
    · rw [← hb.id] at hsaw
      obtain ⟨q', hq', hsaw'⟩ := hs.exists_hist (φ := fun _ h => Saw h (.paymentBindCharge p.id r) 1)
        (fun _ _ _ hsaw => List.mem_cons_of_mem _ hsaw) ⟨q, hq, hsaw⟩
      exact binder ⟨q', hq', r, hsaw'⟩
  rcases hs.world_cases with hw | ⟨i, o, q, op, k, a, rfl, hq, hk, he, hq'⟩ | ⟨m, -, hm⟩
  · rw [hw] at hp
    exact hold p hp (.refl p) hbound
  · rcases bound_rows (exec_change he) hp hr with ⟨p₀, hp₀, hb, hr₀⟩ | ⟨rfl, p₀, hp₀, hb, hnone⟩
    · exact hold p₀ hp₀ hb (by rw [hr₀]; exact Option.some_ne_none _)
    · obtain ⟨customer, hcharge⟩ := charge_of_reports (moving hx (List.mem_of_getElem? hq) hk).1.1
      obtain ⟨s, rfl⟩ := (proper_of_exactly hq hk hP).served.resolve_left
        (by rw [hcharge]; exact Option.some_ne_none _)
      have heffect : paymentBindCharge p.id reference x.world = (a, y.world) := Option.some.inj he
      cases a with
      | ok n =>
          by_cases hn : n = 1
          · subst hn
            exact binder ⟨_, List.mem_of_getElem? hq', reference, List.mem_cons_self⟩
          · exact absurd hnone (bind_late (congrArg Prod.fst heffect) hp₀ hb.id.symm hn)
      | error e =>
          -- a refused binding changes nothing
          have hsame : x.world = y.world := by
            unfold paymentBindCharge at heffect
            dsimp only at heffect
            split at heffect
            · exact congrArg Prod.snd heffect
            · cases heffect
          rw [← hsame] at hp
          have heq : p₀ = p := Table.eq_of_clash hp₀ hp (by simp [Constrained.clash, hb.id])
          rw [heq, hr] at hnone
          cases hnone
  · rw [payments_drift hm] at hp
    exact hold p hp (.refl p) hbound

/-- **Step lemma.** -/
theorem underway_step (hx : Reachable env Guard.free x) (hI : Underway charges x)
    (hP : exactly env charges x l = true) (hl : x.next Guard.free l = some y) :
    Underway charges y := by
  have hs := Config.next_step hl
  have hy : Reachable env Guard.free y := Relation.ReflTransGen.tail hx ⟨l, hl⟩
  exact
    { named := named_step hI hP hs
      uncut := delivery_uncut hx hI hP hs
      fair := fair_step hx hI hP hs
      customers := fun p hp _ hr _ hcharge => customers_step hx hI hs hp hr hcharge
      exact := fun p hp _ hr ha => exact_step hx hI hP hs hp hr ha
      uncollected := fun p hp ha => collected_step hx hI hP hs hp ha
      seen := fun q hq p hshown hst ha => seen_step hx hI hP hs hq hshown hst ha
      bound := fun p hp hbound ha => bound_step hx hy hI hP hs hp hbound ha }

end Step

/-! ## Runs -/

section Run

variable {x₀ x : Config (core env)}

theorem underway_of_follows (hx : Follows (exactly env charges) ⟨World.initial, []⟩ x) :
    Underway charges x :=
  hx.invariant (I := Underway charges) underway_initial fun hu hI hP hl => underway_step hu hI hP hl

/-- A payment stays in its run. -/
theorem becomes_of_reaches (hxy : Reaches Guard.free x₀ x) {p : Payment}
    (hp : p ∈ World.payments x₀.world) : ∃ p' ∈ World.payments x.world, p.Becomes p' := by
  induction hxy with
  | refl => exact ⟨p, hp, .refl p⟩
  | tail hrun hstep ih =>
      obtain ⟨l, hl⟩ := hstep
      obtain ⟨p', hp', hb⟩ := ih
      obtain ⟨p'', hp'', hb'⟩ := becomes_step (Config.next_step hl) hp'
      exact ⟨p'', hp'', hb.trans hb'⟩

/-- A delivery that arrived when the payment was there finds a payment of its customer. -/
theorem finds_customer (hxy : Reaches Guard.free x₀ x) {p : Payment}
    (hp : p ∈ World.payments x₀.world) {code : String} (hcode : p.providerCustomerCode = some code)
    {i : Nat} (hi : x₀.procs.length ≤ i) {q : Process (core env)} (hq : x.procs[i]? = some q) :
    ¬ Saw q.hist (.paymentFindFirst { providerCustomerCode := .equals code }) none := by
  induction hxy generalizing q with
  | refl =>
      rw [List.getElem?_eq_none hi] at hq
      cases hq
  | @tail x y hrun hstep ih =>
      obtain ⟨l, hl⟩ := hstep
      rcases (Config.next_step hl).hist_cases hq with ⟨q₀, hq₀, -, hh⟩ | hh |
        ⟨q₀, op, k, o, a, hq₀, -, -, he, -, hh⟩
      · rw [hh]
        exact ih hq₀
      · rw [hh]
        exact List.not_mem_nil
      · rw [hh]
        intro hsaw
        rcases List.mem_cons.mp hsaw with heq | hsaw
        · cases heq
          obtain ⟨p', hp', hb⟩ := becomes_of_reaches hrun hp
          cases o with
          | lost s m => cases he
          | failed m => cases he
          | served s =>
              have hnone := Except.ok.inj (congrArg Prod.fst (Option.some.inj he))
              have hsel := Table.findNewest_none hnone hp'
              rw [← hb.providerCustomerCode] at hcode
              simp [PaymentWhere.selects, CustomerFilter.selects, hcode] at hsel
        · exact ih hq₀ hsaw

/-- Who is protecting is in progress. -/
theorem busy_inProgress (hx : Reachable env Guard.free x) (hI : Underway charges x)
    (hb : Busy x (.unprotected id)) (ha : awaits x.world id = true) :
    ∃ q ∈ x.procs, q.InProgress ∧ left q.hist = some (.unprotected id) := by
  obtain ⟨q, hq, hleft⟩ := hb
  refine ⟨q, hq, hx.inProgress (P := Possible) (J := fun _ => Proceeds) possible_of_exec
    code_tidy hq (fun hnone => by cases hleft.symm.trans hnone) fun hcut => ?_, hleft⟩
  have hun := (hI.uncut q hq hcut).2
  rw [unprotecting, hleft] at hun
  exact Bool.eq_false_iff.mp hun ha

end Run

/-- **An exact transfer protects,** in every run in which only exact charges are bound to payments that
are up for payment. Once the delivery of a charge of the payment's own customer that verifies for exactly
its amount is over, the transaction was protected, or a call in progress is protecting it. -/
theorem transfer_protects (env : Env) (charges : Charges) {x₀ x : Config (core env)}
    (h₀ : Follows (exactly env charges) ⟨World.initial, []⟩ x₀)
    (h : Follows (exactly env charges) x₀ x) {p : Payment} (hp : p ∈ World.payments x₀.world)
    {code : String} (hcode : p.providerCustomerCode = some code) (hne : code ≠ "")
    (hown : ∀ q ∈ World.payments x.world, q.providerCustomerCode = some code → q.id = p.id)
    {reference : String} (hcharge : charges reference = some (code, p.amount))
    (htheirs : isOurReference reference = false) {i : Nat} (hi : x₀.procs.length ≤ i)
    {q : Process (core env)} (hq : x.procs[i]? = some q)
    (hdelivers : q.call.charge env = some (reference, some code)) (hrecorded : IsRecorded q.hist)
    {r : Except Err Reply} (hdone : q.prog = some (.done r)) :
    WasProtected x.world p.transactionId ∨ ∃ q' ∈ x.procs, q'.InProgress ∧
      (left q'.hist = some (.unprotected p.transactionId) ∨
        ∃ r, Saw q'.hist (.paymentBindCharge p.id r) 1) := by
  have hx : Reachable env Guard.free x := Follows.reaches (h₀.trans h)
  have hI : Underway charges x := underway_of_follows (h₀.trans h)
  obtain ⟨p', hp', hb⟩ := becomes_of_reaches h.reaches hp
  have hcode' : p'.providerCustomerCode = some code := hb.providerCustomerCode.trans hcode
  cases ha : awaits x.world p.transactionId with
  | false =>
      have hout := checkedOut_of_payment hx hp'
      rw [hb.transactionId] at hout
      exact .inl (wasProtected_of hout ha)
  | true =>
      have hmem := List.mem_of_getElem? hq
      rw [← hb.transactionId] at ha
      have hfair := hI.fair q hmem (by rw [hdelivers]; exact Option.some_ne_none _)
      -- the only payment of the customer, and the only one the charge is bound to
      have honly : ∀ p₁ ∈ World.payments x.world, p₁.providerCustomerCode = some code → p₁ = p' :=
        fun p₁ hp₁ hc => Table.eq_of_clash hp₁ hp'
          (by simp [Constrained.clash, hown p₁ hp₁ hc, hb.id])
      have hbusy : Busy x (.unprotected p'.transactionId) ∨ Verifying x p'.id →
          ∃ q' ∈ x.procs, q'.InProgress ∧ (left q'.hist = some (.unprotected p.transactionId) ∨
            ∃ r, Saw q'.hist (.paymentBindCharge p.id r) 1) := by
        rw [← hb.transactionId, ← hb.id]
        rintro (hbusy | ⟨q', hq', hprog, hsaw⟩)
        · obtain ⟨q', hq', hprog, hleft⟩ := busy_inProgress hx hI hbusy ha
          exact ⟨q', hq', hprog, .inl hleft⟩
        · exact ⟨q', hq', hprog, .inr hsaw⟩
      refine .inr (hbusy ?_)
      -- a payment its charge is bound to is that payment
      have hbound : ∀ {p₁}, PaymentShown q.hist p₁ → IsBound q.hist p₁ reference →
          p'.providerChargeReference = some reference := fun hshown hbound => by
        obtain ⟨p₂, hp₂, -, hr₂⟩ := IsBound.row hx hmem hshown hbound
        rw [← honly p₂ hp₂ (hI.customers p₂ hp₂ reference hr₂ _ hcharge)]
        exact hr₂
      cases (charge_ended hx hmem hdone hdelivers).concludes hrecorded with
      | settles hsettles =>
          have hr : p'.providerChargeReference = some reference := by
            rcases hsettles with ⟨p₁, p₂, hp₁, hb₁, -⟩ | hspoilt
            · exact hbound hp₁ hb₁
            · cases hspoilt with
              | failed handles event => exact absurd event (hfair.served _ _ handles)
              | gone saw => exact absurd saw (hfair.found _)
              | inexact shown bound asked inexact => exact hbound shown bound
          exact .inl (settles_busy hx hI.fair hI.seen hmem hdelivers hsettles hp' hr
            (hI.exact p' hp' reference hr ha) ha)
      | hosted saw owns =>
          have hground := ((hx.holds.know q hmem).payment ⟨_, saw, rfl⟩).ground
          have hours := hground.ours
          rw [owns, htheirs] at hours
          cases hours
      | unnamed hname =>
          rw [truthy, Option.filter_some, if_pos (by simpa using hne)] at hname
          cases hname
      | nobody named saw =>
          cases named
          exact absurd saw (finds_customer h.reaches hp hcode hi hq)
      | refused named owns event =>
          cases named
          obtain ⟨p₁, hp₁, hne₁, hr₁⟩ := hfair.refused _ _ _ event
          have hc₁ := hI.customers p₁ hp₁ reference hr₁ _ hcharge
          obtain ⟨p₂, hp₂, hb₂⟩ := shown_becomes hx q hmem _ owns.1
          have h₂ := honly p₂ hp₂ (hb₂.providerCustomerCode.trans owns.2)
          exact absurd ((congrArg Payment.id (honly p₁ hp₁ hc₁)).trans
            ((congrArg Payment.id h₂).symm.trans hb₂.id)) hne₁
      | late named owns taken n_ne =>
          cases named
          obtain ⟨p₁, hp₁, hid₁, htaken⟩ := hfair.late _ _ _ taken n_ne
          obtain ⟨p₂, hp₂, hb₂⟩ := shown_becomes hx q hmem _ owns.1
          have h₂ := honly p₂ hp₂ (hb₂.providerCustomerCode.trans owns.2)
          obtain rfl : p₁ = p' := Table.eq_of_clash hp₁ hp'
            (by simp [Constrained.clash, hid₁, ← h₂, hb₂.id])
          exact hI.bound p₁ hp₁ htaken ha

namespace Demo

/-- The report that the customer's charge under this reference succeeded. -/
def chargePayload (reference : String) : PaystackWebhookPayload where
  event := "charge.success"
  data := some ⟨none, some reference, none, none, none, some "CUS_0", none, none, none, none⟩

/-- A configuration in which a report's body is the reference of a charge. -/
def receiving : Env := config fun body => some (chargePayload body)

/-- The customer sent an exact transfer, and one that is short of the price. -/
def transfers : Charges
  | "exact" => some ("CUS_0", 1000)
  | "short" => some ("CUS_0", 900)
  | _ => none

/-- To a virtual account for a thousand kobo. -/
def account : List (Label (core receiving)) :=
  .drift (.others .empty sellers .empty .empty) ::
  .arrive (.create (.web seller { title := "Phone", amount := 1000 })) :: serves _ 0 3 ++
  drives _ 1 .sellerPublish ++
  .arrive (.initializeVirtualAccount sale buyer "buyer") :: serves _ 2 6 ++
  [serve _ 2 { id := sale, code := "CUS_0" }, serve _ 2, serve _ 2 { id := charge }]

/-- The short transfer is bound, and refused. -/
def short : List (Label (core receiving)) :=
  [.drift (.charge "short"), .arrive (.paystackWebhook "short" "ab"), serve _ 3 { id := seller }] ++
  serves _ 3 5 ++ [serve _ 3 { id := sale, status := "success", amount := 900 }, serve _ 3]

/-- The exact transfer is reported to process `i`, which looks up its payment. -/
def exactReported (i : Nat) : List (Label (core receiving)) :=
  [.drift (.charge "exact"), .arrive (.paystackWebhook "exact" "ab"), serve _ i { id := buyer }] ++
  serves _ i 5

/-- It is verified. -/
def exactVerified (i : Nat) : List (Label (core receiving)) :=
  serve _ i { id := sale, status := "success", amount := 1000 } :: serves _ i 8

/-- The payments with their customers, and the transactions with their statuses. -/
def accounts (w : World) :
    List (Uuid × Uuid × Int × Option String) × List (Uuid × TransactionStatus) :=
  (w.payments.rows.map fun p => (p.id, p.transactionId, p.amount, p.providerCustomerCode),
    w.transactions.rows.map fun t => (t.id, t.status))

/-- The account of the sale. -/
def opened (s : TransactionStatus) :
    List (Uuid × Uuid × Int × Option String) × List (Uuid × TransactionStatus) :=
  ([(charge, sale, 1000, some "CUS_0")], [(sale, s)])

/-- Process `i` recorded the exact transfer, and is done. -/
def concluded (x : Config (core receiving)) (i : Nat) : Bool :=
  match x.procs[i]? with
  | some ⟨.paystackWebhook "exact" "ab", h, some (.done _)⟩ => h.any fun e => match e with
      | ⟨.webhookEventCreate _, .ok _⟩ => true
      | _ => false
  | _ => false

theorem concluded_process {x : Config (core receiving)} {i : Nat} (h : concluded x i = true) :
    ∃ q, x.procs[i]? = some q ∧ q.call = .paystackWebhook "exact" "ab" ∧ IsRecorded q.hist ∧
      ∃ r, q.prog = some (.done r) := by
  unfold concluded at h
  split at h
  · rename_i hist r hq
    refine ⟨_, hq, rfl, ?_, r, rfl⟩
    obtain ⟨e, he, hstore⟩ := List.any_eq_true.mp h
    split at hstore
    · rename_i d record
      exact ⟨d, record, he⟩
    · cases hstore
  · cases h

/-- Two configurations around the delivery of the exact transfer, as process `i`. -/
def around (i : Nat) (s : TransactionStatus) (x₀ x : Config (core receiving)) : Bool :=
  decide (accounts x₀.world = opened .paymentPending) && decide (accounts x.world = opened s) &&
  decide (x₀.procs.length = i) && concluded x i && x.atRest

end Demo

/-- The account of the sale is its customer's only one. -/
theorem of_opened {s : TransactionStatus} (h : Demo.accounts w = Demo.opened s) :
    (∃ p ∈ w.payments, p.id = Demo.charge ∧ p.transactionId = Demo.sale ∧ p.amount = 1000 ∧
      p.providerCustomerCode = some "CUS_0") ∧ (∀ p ∈ w.payments, p.id = Demo.charge) ∧
    ∀ t ∈ w.transactions, t.status = s := by
  obtain ⟨hpayments, htransactions⟩ := Prod.mk.inj h
  obtain ⟨⟨p, hp, hrow⟩, hall⟩ := Table.of_map_eq_singleton hpayments
  simp only [Prod.mk.injEq] at hrow hall
  exact ⟨⟨p, hp, hrow⟩, fun p hp => (hall p hp).1,
    fun t ht => (Prod.mk.inj ((Table.of_map_eq_singleton htransactions).2 t ht)).2⟩

set_option maxRecDepth 20000 in
/-- **An exact transfer that comes second is ignored.** -/
theorem transfer_ignored : ¬ ∀ (env : Env) (charges : Charges) (x₀ x : Config (core env)),
    Follows (promptly env charges) ⟨World.initial, []⟩ x₀ → Follows (promptly env charges) x₀ x →
    ∀ p ∈ World.payments x₀.world, ∀ code, p.providerCustomerCode = some code → code ≠ "" →
    (∀ q ∈ World.payments x.world, q.providerCustomerCode = some code → q.id = p.id) →
    ∀ reference, charges reference = some (code, p.amount) → isOurReference reference = false →
    ∀ i, x₀.procs.length ≤ i → ∀ q : Process (core env), x.procs[i]? = some q →
    q.call.charge env = some (reference, some code) → IsRecorded q.hist →
    ∀ r, q.prog = some (.done r) →
    WasProtected x.world p.transactionId ∨ ∃ q' ∈ x.procs, q'.InProgress ∧
      (left q'.hist = some (.unprotected p.transactionId) ∨
        ∃ r, Saw q'.hist (.paymentBindCharge p.id r) 1) := by
  intro hall
  have hrun : ((Config.follow (promptly _ Demo.transfers) (Demo.account ++ Demo.short)
      ⟨World.initial, []⟩).bind fun x₀ => (Config.follow (promptly _ Demo.transfers)
        (Demo.exactReported 4 ++ [Demo.serve _ 4]) x₀).map
          (Demo.around 4 .paymentPending x₀)) = some true := by decide
  obtain ⟨x₀, x, hx₀, hx, htest⟩ := exists_of_follows hrun
  simp only [Demo.around, Bool.and_eq_true, decide_eq_true_eq] at htest
  obtain ⟨⟨⟨⟨hbefore, hafter⟩, hlen⟩, hdone⟩, hrest⟩ := htest
  obtain ⟨⟨p, hp, hid, htx, hamount, hcode⟩, -, -⟩ := of_opened hbefore
  obtain ⟨-, honly, hpending⟩ := of_opened hafter
  obtain ⟨q, hq, hcall, hrecorded, r, hprog⟩ := Demo.concluded_process hdone
  rcases hall _ _ x₀ x hx₀ hx p hp "CUS_0" hcode (by decide) (fun q hq _ => (honly q hq).trans hid.symm)
    "exact" (by rw [hamount]; rfl) (by decide) 4 (Nat.le_of_eq hlen) q hq (by rw [hcall]; rfl)
    hrecorded r hprog with ⟨t, ht, -, hst⟩ | ⟨q', hq', hin, -⟩
  · rw [hpending t ht] at hst
    cases hst
  · exact Config.not_inProgress hrest hq' hin

set_option maxRecDepth 20000 in
/-- An exact transfer that comes first protects the sale. -/
theorem transfer_protects_sale : ∃ x : Config (core Demo.receiving),
    Follows (exactly _ Demo.transfers) ⟨World.initial, []⟩ x ∧ x.atRest = true ∧
      WasProtected x.world Demo.sale := by
  have hrun : ((Config.follow (exactly _ Demo.transfers) Demo.account ⟨World.initial, []⟩).bind fun x₀ =>
      (Config.follow (exactly _ Demo.transfers) (Demo.exactReported 3 ++ Demo.exactVerified 3) x₀).map
        (Demo.around 3 .paymentProtected x₀)) = some true := by decide
  obtain ⟨x₀, x, hx₀, hx, htest⟩ := exists_of_follows hrun
  simp only [Demo.around, Bool.and_eq_true, decide_eq_true_eq] at htest
  obtain ⟨⟨⟨⟨hbefore, hafter⟩, hlen⟩, hdone⟩, hrest⟩ := htest
  obtain ⟨⟨p, hp, hid, htx, hamount, hcode⟩, -, -⟩ := of_opened hbefore
  obtain ⟨-, honly, -⟩ := of_opened hafter
  obtain ⟨q, hq, hcall, hrecorded, r, hprog⟩ := Demo.concluded_process hdone
  have hprotects := transfer_protects _ Demo.transfers hx₀ hx hp hcode (by decide)
    (fun q hq _ => (honly q hq).trans hid.symm)
    (show Demo.transfers "exact" = some ("CUS_0", p.amount) by rw [hamount]; rfl)
    (by decide) (Nat.le_of_eq hlen) hq (by rw [hcall]; rfl) hrecorded hprog
  rw [htx] at hprotects
  exact ⟨x, hx₀.trans hx, hrest, hprotects.resolve_right fun ⟨q', hq', hin, _⟩ =>
    Config.not_inProgress hrest hq' hin⟩

end Meduman
