import Meduman.Dispute.Agree
import Meduman.Invoice.Steps
import Meduman.Linking.Phase
import Meduman.Model.Sellers

/-!
# Who owns what is written

Transactions, payouts, invoices, disputes, seller profiles and chat identities name their users. A row gets
its owner from whoever makes the call, from a transaction the call read before it writes, or from whom it
minted.

* `Owning` : operations, and the user each makes an owner
* `Call.ownsFor` : the users a call of the core writes rows for
* **`code_owns`** : every call writes rows for them only
* `Disowned`, **`exec_disowned`** : no row of the core names a user, and none does after an operation that
  makes somebody else an owner
* `Sellers.code_ownedBy` : an onboarding writes for its seller
* `Linking.nameless` : whom a message minted, and has yet to give an identity
-/

set_option autoImplicit false

namespace Meduman

open Effect

/-- Operations, and the user each makes the owner of a row. -/
class Owning (Op : Type) where
  owner : Op → Option Uuid

section Owning

variable {Op : Type} [Owning Op] {op : Op} {u : Uuid}

/-- Nobody but this user becomes an owner. -/
def OwnedBy (u : Uuid) (op : Op) : Prop := ∀ v, Owning.owner op = some v → v = u

/-- The operation makes nobody an owner. -/
def Ownerless (op : Op) : Prop := Owning.owner op = none

theorem Ownerless.ownedBy (hop : Ownerless op) : OwnedBy u op := by
  intro v hv
  rw [hop] at hv
  cases hv

theorem ownedBy_of_owner (hop : Owning.owner op = some u) : OwnedBy u op := by
  intro v hv
  exact (Option.some.inj (hop.symm.trans hv)).symm

/-- Nobody but these users becomes an owner. -/
def OwnedIn (S : Uuid → Bool) (op : Op) : Prop := ∀ v, Owning.owner op = some v → S v = true

theorem Ownerless.ownedIn {S : Uuid → Bool} (hop : Ownerless op) : OwnedIn S op := by
  intro v hv
  rw [hop] at hv
  cases hv

variable {Ans : Op → Type} {Err α β : Type} {p : Prog Ans Err α} {P : Event Ans Err → Prop}
  {f : History Ans Err → Uuid → Bool} {h : History Ans Err}

/-- The program makes nobody an owner but whom it may, by what it has done. -/
abbrev OwnsOnly (P : Event Ans Err → Prop) (f : History Ans Err → Uuid → Bool) (p : Prog Ans Err α)
    (h : History Ans Err) : Prop :=
  p.Along P (fun h => OwnedIn (f h)) (fun _ _ => True) h

theorem ownerless_only (hp : p.Uses Ownerless) : OwnsOnly P f p h :=
  hp.along (fun _ _ hop => hop.ownedIn) fun _ _ _ => trivial

theorem ownedBy_only (hp : p.Uses (OwnedBy u)) (hf : ∀ h, f h u = true) : OwnsOnly P f p h :=
  hp.along (fun h _ hop v hv => hop v hv ▸ hf h) fun _ _ _ => trivial

theorem only_map {g : α → β} (hp : OwnsOnly P f p h) : OwnsOnly P f (g <$> p) h := by
  rw [OwnsOnly, Prog.map_eq, along_bind]
  refine Prog.Along.mono hp fun r h' _ => ?_
  cases r <;> trivial

/-- **In another service** a program makes those owners that it made before. -/
theorem only_embed {Op' : Type} [Owning Op'] {Ans' : Op' → Type} {Err' : Type}
    {ι : Embedding Ans Err Ans' Err'} (howner : ∀ op, Owning.owner (ι.op op) = Owning.owner op)
    {P' : Event Ans' Err' → Prop} {f' : History Ans' Err' → Uuid → Bool}
    (inner : History Ans' Err' → History Ans Err)
    (hcons : ∀ op a h, inner (⟨ι.op op, a⟩ :: h) = ⟨op, ι.back op a⟩ :: inner h)
    (hP : ∀ op a, P' ⟨ι.op op, a⟩ → P ⟨op, ι.back op a⟩)
    (hf : ∀ h u, f (inner h) u = true → f' h u = true) {h' : History Ans' Err'}
    (hp : OwnsOnly P f p (inner h')) : OwnsOnly P' f' (p.embed ι) h' :=
  along_embed inner hcons hP (fun h op hop u hu => hf h u (hop u ((howner op).symm.trans hu)))
    (fun _ _ _ => trivial) (fun _ _ _ => trivial) hp

end Owning

/-- The user an operation makes an owner. -/
def Op.owner : Op → Option Uuid
  | .transactionCreate d => some d.sellerId
  | .transactionUpdateBuyer _ buyerId => some buyerId
  | .payoutCreate d => some d.sellerId
  | .disputeCreate d => some d.openedBy
  | .invoiceCreate d => some d.sellerId
  | _ => none

instance : Owning Op := ⟨Op.owner⟩

/-- The users a call writes rows for: whoever it acts for, or the seller of a transaction it read. -/
def Call.ownsFor (c : Call) (h : Hist) (u : Uuid) : Bool :=
  match c with
  | .create request => request.draft.any fun d => d.sellerId == u
  | .initializeCollection input => input.buyerId == u
  | .initializeVirtualAccount _ buyerId _ => buyerId == u
  | .executeRelease _ | .processRelease _ =>
      h.any fun e => (transactionOf e).any fun t => t.sellerId == u
  | .raiseDispute input => input.openedBy == u
  | .createInvoice sellerId _ | .sendInvoice sellerId _ => sellerId == u
  | _ => false

/-- A row an operation writes is for one of the users of its call. -/
abbrev Owns (c : Call) (h : Hist) : Op → Prop := OwnedIn (c.ownsFor h)

variable {env : Env} {c : Call} {h : Hist} {u w : World} {source : Uuid} {P : Event Op.Ans Err → Prop}

/-! ## Programs for one user -/

theorem apply_ownerless (input : ApplyTransitionInput) : (apply input).Uses Ownerless :=
  apply_uses rfl (fun _ => rfl) fun _ => rfl

theorem load_ownerless (id : Uuid) : (getById id).Uses Ownerless :=
  uses_bind (uses_perform rfl) fun found => by cases found <;> trivial

theorem createDraft_ownedBy (input : CreateDraftInput) :
    (createDraft input).Uses (OwnedBy input.sellerId) := by
  refine uses_bind (uses_perform fun v hv => by cases hv) fun uuid => ?_
  refine uses_bind (uses_perform fun v hv => (Option.some.inj hv).symm) fun tx => ?_
  exact uses_bind (grantRoleFlag_uses (Ownerless.ownedBy rfl) fun _ => Ownerless.ownedBy rfl)
    fun _ => trivial

theorem raise_ownedBy (input : RaiseDisputeInput) :
    (raise input).Uses (OwnedBy input.openedBy) := by
  refine uses_bind ((apply_ownerless _).mono fun _ hop => hop.ownedBy) fun _ => ?_
  exact uses_perform fun v hv => (Option.some.inj hv).symm

theorem getById_ownerless (id : Uuid) : (Invoices.getById id).Uses Ownerless :=
  uses_bind (uses_perform rfl) fun invoice => by cases invoice <;> trivial

theorem send_ownedBy (sellerId id : Uuid) :
    (Invoices.send sellerId id).Uses (OwnedBy sellerId) := by
  have hget : (Invoices.getById id).Uses (OwnedBy sellerId) :=
    (getById_ownerless id).mono fun _ hop => hop.ownedBy
  refine uses_bind (uses_bind hget fun invoice => ?_) fun invoice => ?_
  · split <;> trivial
  · split
    · trivial
    · split
      · trivial
      · refine uses_bind (createDraft_ownedBy (Invoices.transactionDraft sellerId invoice))
          fun tx => ?_
        refine uses_bind ((apply_ownerless _).mono fun _ hop => hop.ownedBy) fun _ => ?_
        refine uses_bind (uses_bind (uses_perform (Ownerless.ownedBy rfl)) fun _ => trivial)
          fun number => ?_
        refine uses_bind (uses_perform (Ownerless.ownedBy rfl)) fun count => ?_
        split
        · exact hget
        · refine uses_bind (uses_perform (Ownerless.ownedBy rfl)) fun _ => ?_
          exact uses_bind (uses_perform (Ownerless.ownedBy rfl)) fun _ => hget

theorem createInvoice_ownedBy (sellerId : Uuid) (dto : CreateInvoiceDto) :
    (Invoices.createDraft sellerId dto).Uses (OwnedBy sellerId) := by
  refine uses_bind (uses_perform (Ownerless.ownedBy rfl)) fun uuid => ?_
  exact uses_perform fun v hv => (Option.some.inj hv).symm

/-! ## Payouts -/

theorem verifyTransfer_ownerless (reference : String) :
    (verifyTransfer reference).Uses Ownerless :=
  uses_tryCatch (uses_bind (uses_perform rfl) fun _ => trivial) fun _ => trivial

theorem recordTransferSent_ownerless (payout : Payout) (code reference : String) :
    (recordTransferSent payout code reference).Uses Ownerless :=
  uses_bind (uses_perform rfl) fun _ => uses_bind (uses_perform rfl) fun _ => trivial

theorem sendTransfer_ownerless (payout : Payout) (reference : Option String) :
    (sendTransfer payout reference).Uses Ownerless := by
  unfold sendTransfer
  split
  · trivial
  · refine uses_bind (uses_perform rfl) fun seller => ?_
    split
    · trivial
    · refine uses_tryCatch ?_ fun err => ?_
      · exact uses_bind (uses_perform rfl) fun _ => recordTransferSent_ownerless payout _ _
      · refine uses_bind (verifyTransfer_ownerless _) fun existing => ?_
        cases existing with
        | some existing => exact recordTransferSent_ownerless payout _ _
        | none =>
            refine uses_bind (uses_perform rfl) fun _ => ?_
            exact uses_bind (uses_perform rfl) fun _ => trivial

theorem retryTransfer_ownerless (key adminId : String) :
    (retryTransfer key adminId).Uses Ownerless := by
  have hpaid (code : String) : (markPaid key code).Uses Ownerless := by
    refine uses_bind (uses_perform rfl) fun payout => ?_
    cases payout with
    | none => trivial
    | some payout =>
        dsimp only
        split
        · trivial
        · refine uses_bind (uses_perform rfl) fun updated => ?_
          exact uses_bind (apply_ownerless _) fun _ => trivial
  refine uses_bind (uses_perform rfl) fun payout => ?_
  cases payout with
  | none => trivial
  | some payout =>
      dsimp only
      split
      · trivial
      · split
        · trivial
        · refine uses_bind (uses_perform rfl) fun openDisputes => ?_
          split
          · trivial
          · refine uses_bind (verifyTransfer_ownerless _) fun prior => ?_
            split
            · exact uses_bind (uses_perform rfl) fun _ => hpaid _
            · refine uses_bind (uses_perform rfl) fun _ => ?_
              exact uses_bind (uses_perform rfl) fun reset => sendTransfer_ownerless reset _

/-- The call runs a release. -/
def Call.runsRelease : Call → Bool
  | .executeRelease _ | .processRelease _ => true
  | _ => false

theorem ownsFor_release (hc : c.runsRelease = true) {t : Transaction} (ht : TransactionShown h t) :
    c.ownsFor h t.sellerId = true := by
  obtain ⟨e, he, heq⟩ := ht
  have hany : (h.any fun e => (transactionOf e).any fun t' => t'.sellerId == t.sellerId) = true :=
    List.any_eq_true.mpr ⟨e, he, by simp [heq]⟩
  cases c with
  | executeRelease _ => exact hany
  | processRelease _ => exact hany
  | _ => cases hc

/-- **A release makes the seller it read an owner.** -/
theorem executeRelease_owns (hc : c.runsRelease = true) (transactionId : Uuid) :
    (executeRelease transactionId).Along P (Owns c) done h := by
  unfold executeRelease
  rw [along_perform_bind]
  refine ⟨Ownerless.ownedIn rfl, fun _ _ => trivial, fun found _ => ?_⟩
  cases found with
  | none => trivial
  | some tx =>
      dsimp only
      split
      · trivial
      · rw [along_perform_bind]
        refine ⟨Ownerless.ownedIn rfl, fun _ _ => trivial, fun openDisputes _ => ?_⟩
        split
        · trivial
        · have hshown (h' : Hist) : TransactionShown
              (⟨.disputeCount tx.id .open, .ok openDisputes⟩ ::
                ⟨.transactionFindUnique (.id transactionId), .ok (some tx)⟩ :: h') tx :=
            ⟨_, List.mem_cons_of_mem _ List.mem_cons_self, rfl⟩
          have hsend (r : Except Err Payout) (h' : Hist) : Prog.Then P (Owns c) done
              (fun payout => sendTransfer payout none) r h' := by
            cases r with
            | error e => trivial
            | ok payout => exact ownerless_only (sendTransfer_ownerless payout none)
          unfold authorizePayout
          rw [along_bind, along_tryCatch]
          refine (along_perform _ _).mpr
            ⟨fun v hv => ?_, fun e _ => ?_, fun payout _ => hsend (.ok payout) _⟩
          · cases hv
            exact ownsFor_release hc (hshown h)
          · rw [rescue_error]
            refine Prog.Along.mono (ownerless_only ?_) fun r h' _ => hsend r h'
            split
            · exact uses_bind (uses_perform rfl) fun existing => by cases existing <;> trivial
            · trivial

theorem processRelease_owns (transactionId : Uuid) :
    (processRelease transactionId).Along P (Owns (.processRelease transactionId)) done
      h := by
  unfold processRelease
  rw [along_perform_bind]
  refine ⟨Ownerless.ownedIn rfl, fun _ _ => trivial, fun start _ => ?_⟩
  rw [along_bind, along_tryCatch, along_bind]
  refine Prog.Along.mono (executeRelease_owns rfl transactionId) fun r h' _ => ?_
  cases r with
  | error e =>
      exact ownerless_only (uses_perform rfl)
  | ok payout =>
      exact ownerless_only (uses_perform rfl)

/-! ## Every call -/

/-- The operation inserts no owned row. -/
def Op.Inserts : Op → Prop
  | .transactionCreate _ | .payoutCreate _ | .disputeCreate _ | .invoiceCreate _ => True
  | _ => False

/-- Of the calls that insert no owned row, only a checkout makes somebody an owner. -/
theorem owns_of_does {op : Op} (hdoes : c.Does op) (hop : ¬ op.Inserts) : Owns c h op := by
  cases op with
  | transactionUpdateBuyer id buyerId =>
      rintro v ⟨⟩
      replace hdoes : c.ChecksOut buyerId := hdoes
      cases c with
      | initializeCollection input => exact beq_iff_eq.mpr hdoes
      | initializeVirtualAccount t b e => exact beq_iff_eq.mpr hdoes
      | _ => exact hdoes.elim
  | transactionCreate d => exact absurd trivial hop
  | payoutCreate d => exact absurd trivial hop
  | disputeCreate d => exact absurd trivial hop
  | invoiceCreate d => exact absurd trivial hop
  | _ => exact Ownerless.ownedIn rfl

theorem owns_of_uses {α : Type} {p : Program α} (hp : p.Uses c.Does)
    (hc : ∀ op, c.Does op → ¬ op.Inserts) : p.Along P (Owns c) done h :=
  hp.along (fun _ op hdoes => owns_of_does hdoes (hc op hdoes)) fun _ _ _ => trivial

/-- The calls that insert owned rows, or go on to a payout. -/
def Call.inserts : Call → Bool
  | .create _ | .raiseDispute _ | .createInvoice .. | .sendInvoice .. | .executeRelease _
  | .processRelease _ | .retryTransfer .. => true
  | _ => false

theorem not_inserts (hc : c.inserts = false) {op : Op} (hdoes : c.Does op) : ¬ op.Inserts := by
  intro hop
  cases op with
  | transactionCreate d =>
      rcases hdoes.2 with ⟨r, rfl⟩ | ⟨s, id, rfl⟩ <;> cases hc
  | payoutCreate d =>
      replace hdoes : c.Disburses := hdoes
      cases c with
      | executeRelease _ | processRelease _ | retryTransfer _ _ => cases hc
      | _ => exact hdoes
  | disputeCreate d =>
      obtain ⟨i, rfl, -⟩ := hdoes
      cases hc
  | invoiceCreate d =>
      obtain ⟨s, dto, rfl⟩ := hdoes
      cases hc
  | _ => exact hop

/-- **Every call writes rows for its own users only.** -/
theorem code_owns (env : Env) (c : Call) : (code env c).Along P (Owns c) done [] := by
  have hself (v : Uuid) : (v == v) = true := beq_self_eq_true v
  cases hins : c.inserts with
  | false => exact owns_of_uses (code_does env c) fun op => not_inserts hins
  | true =>
      cases c with
      | create request =>
          rw [code]
          split
          · trivial
          · rename_i input hdraft
            refine only_map (ownedBy_only (createDraft_ownedBy input) fun h => ?_)
            simp [Call.ownsFor, hdraft]
      | raiseDispute input =>
          exact only_map (ownedBy_only (raise_ownedBy input) fun _ => hself _)
      | createInvoice sellerId dto =>
          exact only_map (ownedBy_only (createInvoice_ownedBy sellerId dto) fun _ => hself _)
      | sendInvoice sellerId id =>
          exact only_map (ownedBy_only (send_ownedBy sellerId id) fun _ => hself _)
      | executeRelease id => exact only_map (executeRelease_owns rfl id)
      | processRelease id => exact only_map (processRelease_owns id)
      | retryTransfer key adminId =>
          exact only_map (ownerless_only (retryTransfer_ownerless key adminId))
      | _ => cases hins

/-! ## A user without rows -/

/-- No row of the core names this user. -/
structure Disowned (source : Uuid) (w : World) : Prop where
  transactions : ∀ t ∈ w.transactions, t.sellerId ≠ source ∧ t.buyerId ≠ some source
  payouts : ∀ p ∈ w.payouts, p.sellerId ≠ source
  invoices : ∀ i ∈ w.invoices, i.sellerId ≠ source
  disputes : ∀ d ∈ w.disputes, d.openedBy ≠ source
  sellerProfiles : ∀ p ∈ w.sellerProfiles, p.userId ≠ source

section Disowned

variable {op : Op} {o : Outcome} {a : Except Err op.Ans}

theorem transactions_disowned (hc : Change op u w) (hown : op.owner ≠ some source)
    (hu : ∀ t ∈ u.transactions, t.sellerId ≠ source ∧ t.buyerId ≠ some source) :
    ∀ t ∈ w.transactions, t.sellerId ≠ source ∧ t.buyerId ≠ some source := by
  cases hc with
  | frame same => rw [same.transactions]; exact hu
  | transactionCreate write =>
      exact Table.forall_create write ⟨fun heq => hown (congrArg some heq), nofun⟩ hu
  | transactionUpdateBuyer write =>
      exact Table.forall_update write (fun t ht _ => ⟨(hu t ht).1, hown⟩) hu
  | commit found write => exact Table.forall_update write (fun t ht _ => hu t ht) hu
  | _ => exact hu

theorem payouts_disowned (hc : Change op u w) (hown : op.owner ≠ some source)
    (hu : ∀ p ∈ u.payouts, p.sellerId ≠ source) : ∀ p ∈ w.payouts, p.sellerId ≠ source := by
  cases hc with
  | frame same => rw [same.payouts]; exact hu
  | payoutCreate write =>
      exact Table.forall_create write (fun heq => hown (congrArg some heq)) hu
  | payoutUpdate write => exact Table.forall_update write (fun p hp _ => hu p hp) hu
  | commit found write payments payouts => rw [payouts]; exact hu
  | _ => exact hu

theorem invoices_disowned (hc : InvoiceChange op u w) (hown : op.owner ≠ some source)
    (hu : ∀ i ∈ u.invoices, i.sellerId ≠ source) : ∀ i ∈ w.invoices, i.sellerId ≠ source := by
  cases hc with
  | frame same => rw [same]; exact hu
  | create write => exact Table.forall_create write (fun heq => hown (congrArg some heq)) hu
  | update write => exact Table.forall_update write (fun i hi _ => hu i hi) hu
  | sent write => exact Table.forall_update write (fun i hi _ => hu i hi) hu
  | viewed write => exact Table.forall_update write (fun i hi _ => hu i hi) hu
  | overdue write => exact Table.forall_update write (fun i hi _ => hu i hi) hu
  | paid write => exact Table.forall_update write (fun i hi _ => hu i hi) hu

theorem effect_disputes_disowned (s : Supply) (hown : op.owner ≠ some source)
    (hu : ∀ d ∈ u.disputes, d.openedBy ≠ source) :
    ∀ d ∈ (effect s u op).2.disputes, d.openedBy ≠ source := by
  cases op with
  | disputeCreate d =>
      simp only [effect]
      split
      · exact hu
      · exact Table.forall_create ‹_› (fun heq => hown (congrArg some heq)) hu
  | disputeUpdate id d =>
      simp only [effect, disputeUpdate]
      split
      · exact hu
      · split
        · exact hu
        · rename_i r _ disputes hwrite
          exact Table.forall_update hwrite (fun r hr _ => hu r hr) hu
  | _ =>
      rw [effect_disputes (fun _ => rfl)]
      exact hu

/-- The core opens no seller profile. -/
theorem effect_sellerProfiles (s : Supply) (u : World) (op : Op) :
    (effect s u op).2.sellerProfiles = u.sellerProfiles := by
  cases op with
  | commitTransition d =>
      rcases commitTransition_world d s u with heq | ⟨t, transactions, -, -, heq⟩
      · exact congrArg World.sellerProfiles heq
      · exact (congrArg World.sellerProfiles heq).trans rfl
  | _ =>
      simp only [effect, paymentUpdate, paymentBindCharge, payoutUpdate, disputeUpdate, invoiceUpdate,
        invoiceUpdateMany, invoiceUpdateManyPaid, invoiceCounterUpsert, initiateTransfer, enqueueRelease,
        startReleaseJob, completeReleaseJob, failReleaseJob]
      repeat' split
      all_goals rfl

/-- **An operation that makes somebody else an owner, or nobody.** -/
theorem exec_disowned (he : exec op o u = some (a, w)) (hown : op.owner ≠ some source)
    (hu : Disowned source u) : Disowned source w where
  transactions := transactions_disowned (exec_change he) hown hu.transactions
  payouts := payouts_disowned (exec_change he) hown hu.payouts
  invoices := invoices_disowned (exec_invoices he) hown hu.invoices
  disputes := by
    rcases exec_cases he with ⟨rfl, -⟩ | ⟨s, -, rfl, -⟩
    · exact hu.disputes
    · exact effect_disputes_disowned s hown hu.disputes
  sellerProfiles := by
    rcases exec_cases he with ⟨rfl, -⟩ | ⟨s, -, rfl, -⟩
    · exact hu.sellerProfiles
    · rw [effect_sellerProfiles]
      exact hu.sellerProfiles

end Disowned

/-! ## What a call read -/

/-- A transaction read is stored. -/
theorem read_stored {e : Event Op.Ans Err} {o : Outcome} (he : exec e.op o u = some (e.ans, w))
    {t : Transaction} (ht : transactionOf e = some t) : t ∈ u.transactions := by
  obtain ⟨op, a⟩ := e
  unfold transactionOf at ht
  split at ht
  · rename_i key found heq
    cases heq
    cases ht
    have hread : Answered (.transactionFindUnique key) (some t) u w := exec_answered he
    exact hread.1
  · rename_i id statuses found heq
    cases heq
    obtain ⟨⟨t, ds⟩, rfl, rfl⟩ := Option.map_eq_some_iff.mp ht
    have hread : Answered (.transactionFindWithDisputes id statuses) (some (t, ds)) u w :=
      exec_answered he
    exact hread.1
  · cases ht

/-- What a call writes rows for, after one more operation. -/
theorem ownsFor_cons {e : Event Op.Ans Err} (hc : c.ownsFor h source = false)
    (he : ∀ t, transactionOf e = some t → t.sellerId ≠ source) :
    c.ownsFor (e :: h) source = false := by
  have hread : ((transactionOf e).any fun t => t.sellerId == source) = false := by
    cases ht : transactionOf e with
    | none => rfl
    | some t => exact beq_eq_false_iff_ne.mpr (he t ht)
  cases c with
  | executeRelease id =>
      simp only [Call.ownsFor, List.any_cons, hread, Bool.false_or]
      exact hc
  | processRelease id =>
      simp only [Call.ownsFor, List.any_cons, hread, Bool.false_or]
      exact hc
  | _ => exact hc

end Meduman

namespace Meduman.Sellers

open Effect

/-- The user an operation makes an owner. -/
def Op.owner : Op → Option Uuid
  | .sellerProfileCreate userId => some userId
  | _ => none

instance : Owning Op := ⟨Op.owner⟩

theorem getOrCreate_ownedBy (userId : Uuid) : (getOrCreate userId).Uses (OwnedBy userId) := by
  unfold getOrCreate
  refine uses_bind (uses_perform (Ownerless.ownedBy rfl)) fun existing => ?_
  cases existing with
  | some existing => trivial
  | none => exact uses_perform (ownedBy_of_owner rfl)

theorem createTransferRecipient_ownedBy (userId : Uuid) (dto : CreateTransferRecipientDto) :
    (createTransferRecipient userId dto).Uses (OwnedBy userId) := by
  unfold createTransferRecipient
  refine uses_bind (getOrCreate_ownedBy userId) fun profile => ?_
  split
  · trivial
  · refine uses_bind (uses_perform (Ownerless.ownedBy rfl)) fun accountName => ?_
    refine uses_bind (uses_perform (Ownerless.ownedBy rfl)) fun recipientCode => ?_
    refine uses_bind (uses_perform (Ownerless.ownedBy rfl)) fun updated => ?_
    exact uses_bind (uses_perform (Ownerless.ownedBy rfl)) fun _ => trivial

/-- **An onboarding writes for its seller.** -/
theorem code_ownedBy (c : Call) : (code c).Uses (OwnedBy c.seller) := by
  unfold code
  split
  · refine uses_bind (uses_bind (uses_perform (Ownerless.ownedBy rfl)) fun found => ?_)
      fun _ => createTransferRecipient_ownedBy _ _
    cases found <;> trivial
  · exact createTransferRecipient_ownedBy _ _

end Meduman.Sellers

namespace Meduman.Linking

open Effect Chat

/-- The user an operation makes an owner. -/
def Op.owner : Op → Option Uuid
  | .identityCreate d => some d.authUserId
  | _ => none

instance : Owning Op := ⟨Op.owner⟩

/-- The user that was minted. -/
def minted : Event Op.Ans Err → Option Uuid
  | ⟨.createUser _, .ok id⟩ => some id
  | _ => none

/-- An identity was asked for. -/
def identifies : Event Op.Ans Err → Bool
  | ⟨.identityCreate _, _⟩ => true
  | _ => false

/-- The user was minted, and has yet to be given an identity. -/
def nameless (h : Hist) (u : Uuid) : Bool :=
  h.any (fun e => minted e == some u) && !h.any identifies

/-- A row an operation writes is for whom was minted. -/
abbrev Owns (h : Hist) : Op → Prop := OwnedIn (nameless h)

theorem ownerless_of_mints {op : Op} (hop : op.mints = false) : Ownerless op := by
  cases op with
  | identityCreate d => cases hop
  | _ => rfl

theorem mint_ownerless (env : Env) (targetUserId : Uuid) : (mint env targetUserId).Uses Ownerless :=
  (mint_does targetUserId).mono fun op hdoes => by
    cases op with
    | identityCreate d =>
        obtain ⟨p, u, d, m, h⟩ := hdoes
        cases h
    | _ => rfl

theorem resolve_ownerless (input : ResolveInput) : (resolve input).Uses Ownerless :=
  (resolve_does input).mono fun op hdoes => by
    cases op with
    | identityCreate d =>
        obtain ⟨p, u, d, m, h⟩ := hdoes
        cases h
    | _ => rfl

theorem consume_ownerless (env : Env) (identity : ChatIdentity) (code : String) :
    (consume env identity code).Uses Ownerless :=
  (consume_consumes (p := identity.platform) (u := identity.platformUserId) (d := none) identity).mono
    fun _ hop => ownerless_of_mints hop.2

end Meduman.Linking
