import Meduman.Core.Served
import Meduman.Dispute.Freeze
import Meduman.Dispute.Docket

/-!
# Disputes and transactions agree

Raising and resolving a dispute each commit the transition first and write the dispute afterwards, a
resolution with the release job between. A call cut off there leaves the two apart, and no later call
brings them together.

* `opening`, `closing` : what a call that committed still has to write
* `docket` : the register of transactions and the files of disputes, as the processes see them
* `whole` : a raise or a resolution that committed is carried out
* **`disputes_agree`** : every run in which each is
-/

set_option autoImplicit false

namespace Meduman

open Effect

/-! ## What a call owes -/

/-- Where a transaction stands towards disputes. -/
def TransactionStatus.standing : TransactionStatus → Standing
  | .disputed => .disputed
  | .releaseProcessing | .refunded | .completed => .settled
  | _ => .live

/-- The writes that follow the transition. -/
def Event.files : Event Op.Ans Err → Bool
  | ⟨.disputeCreate _, _⟩ | ⟨.disputeUpdate .., _⟩ => true
  | _ => false

/-- The call committed its transition, and has not written the dispute yet. -/
def owes (h : Hist) : Bool := h.any Event.commits && !h.any Event.files

/-- The transaction whose dispute the call still has to create. -/
def opening (c : Call) (h : Hist) : Option Uuid :=
  match c with
  | .raiseDispute input => if owes h then some input.transactionId else none
  | _ => none

/-- The dispute the call still has to close. -/
def closing (c : Call) (h : Hist) : Option Uuid :=
  match c with
  | .resolveDispute input => if owes h then some input.disputeId else none
  | _ => none

/-- The call raises or resolves a dispute. -/
def Call.disputes : Call → Bool
  | .raiseDispute _ | .resolveDispute _ => true
  | _ => false

variable {env : Env} {c : Call} {h : Hist} {u w : World} {id : Uuid}

theorem owes_cons {e : Event Op.Ans Err} (hc : Event.commits e = false)
    (hf : Event.files e = false) : owes (e :: h) = owes h := by
  simp [owes, hc, hf]

theorem owes_of_committed {e : Event Op.Ans Err} (hc : Event.commits e = true)
    (hf : Event.files e = false) (hno : h.any Event.files = false) : owes (e :: h) = true := by
  simp [owes, hc, hf, hno]

theorem owes_filed {e : Event Op.Ans Err} (hf : Event.files e = true) : owes (e :: h) = false := by
  simp [owes, hf]

theorem owes_uncommitted (hno : ∀ e ∈ h, Event.commits e = false) : owes h = false := by
  have hany : h.any Event.commits = false := List.any_eq_false.mpr fun e he => by simp [hno e he]
  simp [owes, hany]

theorem owes_append {l : Hist} (hl : ∀ e ∈ l, Event.commits e = false ∧ Event.files e = false) :
    owes (l ++ h) = owes h := by
  induction l with
  | nil => rfl
  | cons e l ih =>
      obtain ⟨hc, hf⟩ := hl e List.mem_cons_self
      exact (owes_cons hc hf).trans (ih fun e he => hl e (List.mem_cons_of_mem _ he))

theorem opening_congr {h' : Hist} (hh : owes h' = owes h) : opening c h' = opening c h := by
  cases c <;> simp [opening, hh]

theorem closing_congr {h' : Hist} (hh : owes h' = owes h) : closing c h' = closing c h := by
  cases c <;> simp [closing, hh]

/-! ## The edges of a dispute -/

/-- The events of disputes; the last two nobody emits. -/
def disputing : TransactionEvent → Bool
  | .raiseDispute | .resolveDisputeForSeller | .resolveDisputeForBuyer => true
  | .withdrawDispute | .adminIntervention => true
  | _ => false

theorem edges_undisputed : ∀ e ∈ edges, disputing e.2.1 = false →
    e.2.2.standing = e.1.standing ∨ e.1.standing = .live ∧ e.2.2.standing = .settled := by
  decide

theorem edges_raise : ∀ e ∈ edges, e.2.1 = .raiseDispute →
    e.1.standing = .live ∧ e.2.2.standing = .disputed := by
  decide

theorem edges_resolve : ∀ e ∈ edges,
    e.2.1 = .resolveDisputeForSeller ∨ e.2.1 = .resolveDisputeForBuyer →
      e.1.standing = .disputed ∧ e.2.2.standing = .settled := by
  decide

/-! ## What a call promises -/

/-- A transition beside disputes. -/
def Undisputing (d : TransitionWrite) : Prop :=
  d.newState.standing = d.oldState.standing ∨
    d.oldState.standing = .live ∧ d.newState.standing = .settled

/-- Before a transition or a dispute is written, or a release enqueued. -/
def Handles (c : Call) (h : Hist) : Op → Prop
  | .transactionCreate d => d.status = .draft
  | .commitTransition d => match c with
      | .raiseDispute input => d.transactionId = input.transactionId ∧
          d.oldState.standing = .live ∧ d.newState.standing = .disputed ∧ owes h = false ∧
            h.any Event.files = false
      | .resolveDispute input => (∃ dispute, Saw h (.disputeFindUnique input.disputeId) (some dispute) ∧
          d.transactionId = dispute.transactionId) ∧ d.oldState.standing = .disputed ∧
            d.newState.standing = .settled ∧ owes h = false ∧ h.any Event.files = false
      | _ => Undisputing d
  | .disputeCreate d => opening c h = some d.transactionId ∧ d.status = .open
  | .disputeUpdate id d => closing c h = some id ∧
      freezingDisputeStatuses.contains d.status = false
  | .enqueueRelease _ => c.disputes = true → owes h = true
  | _ => True

/-- The call stopped before its last write, at the enqueue. -/
def Unqueued (h : Hist) : Prop :=
  ∃ id e, (⟨.enqueueRelease id, .error e⟩ : Event Op.Ans Err) ∈ h

/-- A call that ended owes nothing, unless its enqueue failed. -/
def Discharged (h : Hist) : Prop := owes h = false ∨ Unqueued h

theorem Event.quiet_of_refusal {e : Event Op.Ans Err} (he : Event.refusal e) :
    Event.commits e = false ∧ Event.files e = false := by
  unfold Event.refusal at he
  split at he <;> first | exact ⟨rfl, rfl⟩ | exact he.elim

theorem Event.quiet_of_dispatches {e : Event Op.Ans Err} (he : Event.dispatches e) :
    Event.commits e = false ∧ Event.files e = false := by
  unfold Event.dispatches at he
  split at he <;> first | exact ⟨rfl, rfl⟩ | exact he.elim

theorem raise_handles (input : RaiseDisputeInput) :
    (raise input).Along Possible (Handles (.raiseDispute input)) (fun _ h => Discharged h) [] := by
  unfold raise
  rw [along_bind]
  refine apply_traces (by trivial) (fun tx disputes nextState hok => ?_)
    (fun h _ => by trivial) (fun e l hl => ?_) fun tx disputes nextState a l hl hok _ => ?_
  · obtain ⟨hold, hnew⟩ := edges_raise _ (transition_ok hok) rfl
    exact ⟨rfl, hold, hnew, rfl, rfl⟩
  · refine .inl (owes_uncommitted fun e he => ?_)
    rw [List.append_nil] at he
    exact (Event.quiet_of_refusal (hl e he)).1
  · have howes : owes (l ++ ⟨.commitTransition (input.event.write tx nextState), .ok a⟩ ::
        input.event.load tx disputes :: []) = true := by
      rw [owes_append fun e he => Event.quiet_of_dispatches (hl e he)]
      exact owes_of_committed rfl rfl rfl
    refine (along_perform _ _).mpr ⟨⟨?_, rfl⟩, fun e _ => .inl (owes_filed rfl),
      fun d _ => .inl (owes_filed rfl)⟩
    simp only [opening, howes, if_true]

theorem resolve_handles (input : ResolveDisputeInput) :
    (resolve input).Along Possible (Handles (.resolveDispute input)) (fun _ h => Discharged h)
      [] := by
  unfold resolve
  rw [along_perform_bind]
  refine ⟨trivial, fun e _ => .inl rfl, fun dispute hpossible => ?_⟩
  cases dispute with
  | none => exact .inl rfl
  | some dispute =>
      have hid := disputeId_of_possible hpossible
      dsimp only
      split
      · exact .inl rfl
      · rw [along_perform_bind]
        refine ⟨trivial, fun e _ => .inl rfl, fun otherOpen _ => ?_⟩
        rw [along_bind]
        refine apply_traces (by trivial) (fun tx disputes nextState hok => ?_)
          (fun h _ => by trivial) (fun e l hl => ?_) fun tx disputes nextState a l hl hok _ => ?_
        · have hevent : (input.event dispute otherOpen).event = .resolveDisputeForSeller ∨
              (input.event dispute otherOpen).event = .resolveDisputeForBuyer := by
            unfold ResolveDisputeInput.event
            cases input.outcome <;> simp
          obtain ⟨hold, hnew⟩ := edges_resolve _ (transition_ok hok) hevent
          exact ⟨⟨dispute, by simp [Saw], rfl⟩, hold, hnew, rfl, rfl⟩
        · refine .inl ?_
          rw [owes_append fun e he => Event.quiet_of_refusal (hl e he)]
          rfl
        · have howes : owes (l ++ ⟨.commitTransition ((input.event dispute otherOpen).write tx nextState),
              .ok a⟩ :: (input.event dispute otherOpen).load tx disputes ::
              ⟨.disputeCountOthers dispute.transactionId openDisputeStatuses dispute.id, .ok otherOpen⟩ ::
              ⟨.disputeFindUnique input.disputeId, .ok (some dispute)⟩ :: []) = true := by
            rw [owes_append fun e he => Event.quiet_of_dispatches (hl e he)]
            exact owes_of_committed rfl rfl rfl
          generalize l ++ _ = h at howes ⊢
          have hwrite : ∀ h : Hist, owes h = true → Prog.Along Possible
              (Handles (.resolveDispute input)) (fun _ h => Discharged h)
              (await (.disputeUpdate dispute.id
                { status := input.outcome.status, resolvedBy := input.resolvedBy,
                  resolution := input.resolution })) h := by
            intro h howes
            refine (along_perform _ _).mpr ⟨⟨?_, ?_⟩, fun e _ => .inl (owes_filed rfl),
              fun d _ => .inl (owes_filed rfl)⟩
            · simp only [closing, howes, if_true, hid]
            · cases input.outcome <;> rfl
          rw [then_ok, along_bind]
          unfold enqueueResolved
          split
          · refine (along_perform _ _).mpr ⟨fun _ => howes, fun e _ => ?_, fun _ _ => ?_⟩
            · exact .inr ⟨_, e, List.mem_cons_self⟩
            · exact hwrite _ ((owes_cons rfl rfl).trans howes)
          · exact hwrite _ howes

theorem disputing_of_applies {input : ApplyTransitionInput} (hadm : platformAdmits env c w = true)
    (hc : c.disputes = false) (happ : c.Applies input) : disputing input.event = false := by
  cases c with
  | drive i =>
      obtain rfl : input = i := happ
      have hseller : sellerEvent input.event = true := hadm
      revert hseller
      cases input.event <;> simp [sellerEvent, disputing]
  | initializeCollection i => obtain ⟨_, rfl⟩ := happ; rfl
  | initializeVirtualAccount _ _ _ => obtain ⟨_, rfl⟩ := happ; rfl
  | verify _ => obtain ⟨_, _, _, rfl⟩ := happ; rfl
  | reconcilePending => obtain ⟨_, _, _, rfl⟩ := happ; rfl
  | paystackWebhook _ _ =>
      rcases happ with ⟨_, _, _, rfl⟩ | heq
      · rfl
      · rw [heq]; rfl
  | markPaid _ _ => rw [show input.event = .payoutSucceeded from happ]; rfl
  | retryTransfer _ _ => rw [show input.event = .payoutSucceeded from happ]; rfl
  | confirm _ _ _ => obtain rfl : input = confirmation _ _ _ := happ; rfl
  | scanAndRelease => obtain ⟨_, rfl⟩ := happ; rfl
  | voidInvoice _ _ => obtain ⟨_, _, rfl⟩ := happ; rfl
  | sendInvoice _ _ => obtain ⟨_, rfl⟩ := happ; rfl
  | raiseDispute _ | resolveDispute _ => cases hc
  | _ => exact happ.elim

theorem handles_of_does {op : Op} (hadm : platformAdmits env c w = true) (hc : c.disputes = false)
    (hop : c.Does op) (h : Hist) : Handles c h op := by
  cases op with
  | transactionCreate d => exact hop.1
  | commitTransition d =>
      obtain ⟨input, tx, context, nextState, happ, hok, rfl⟩ := hop
      have hquiet : Undisputing (input.write tx nextState) :=
        edges_undisputed _ (transition_ok hok) (disputing_of_applies hadm hc happ)
      cases c with
      | raiseDispute _ | resolveDispute _ => cases hc
      | _ => exact hquiet
  | disputeCreate d => obtain ⟨_, rfl, -⟩ := hop; cases hc
  | disputeUpdate id d => obtain ⟨_, rfl, -⟩ := hop; cases hc
  | enqueueRelease id => exact fun hc' => by rw [hc] at hc'; cases hc'
  | _ => trivial

/-- **Every call handles disputes in this order.** -/
theorem code_handles (hadm : platformAdmits env c w = true) :
    (code env c).Along Possible (Handles c) (fun _ h => c.disputes = true → Discharged h) [] := by
  have hmap : ∀ {α : Type} {f : α → Reply} {p : Program α},
      p.Along Possible (Handles c) (fun _ h => Discharged h) [] →
        (f <$> p).Along Possible (Handles c) (fun _ h => c.disputes = true → Discharged h) [] := by
    intro α f p hp
    rw [Prog.map_eq, along_bind]
    exact hp.mono fun r h hd => by cases r <;> exact fun _ => hd
  cases hdisputes : c.disputes with
  | false =>
      exact (code_does env c).along (fun h op hop => handles_of_does hadm hdisputes hop h)
        fun _ _ _ hc => by cases hc
  | true =>
      rw [← hdisputes]
      cases c with
      | raiseDispute input => exact hmap (raise_handles input)
      | resolveDispute input => exact hmap (resolve_handles input)
      | _ => cases hdisputes

/-! ## What an operation does to disputes -/

/-- Where the transactions stand. -/
def World.standing (w : World) : Uuid → Option Standing :=
  w.transactions.column Transaction.id fun t => t.status.standing

/-- What the disputes are about, and whether they freeze it. -/
def World.filed (w : World) : Uuid → Option (Uuid × Bool) :=
  w.disputes.column Dispute.id fun d => (d.transactionId, freezingDisputeStatuses.contains d.status)

theorem keyed_transaction : Table.Keyed Transaction.id := fun a b h => by
  simp [Constrained.clash, h]

theorem keyed_dispute : Table.Keyed Dispute.id := fun a b h => by
  simp [Constrained.clash, h]

theorem standing_eq_some {s : Standing} :
    w.standing id = some s ↔ ∃ t ∈ w.transactions, t.id = id ∧ t.status.standing = s :=
  Table.column_eq_some keyed_transaction

theorem filed_eq_some {id' : Uuid} {isOpen : Bool} :
    w.filed id = some (id', isOpen) ↔ ∃ d ∈ w.disputes, d.id = id ∧ d.transactionId = id' ∧
      freezingDisputeStatuses.contains d.status = isOpen := by
  rw [World.filed, Table.column_eq_some keyed_dispute]
  simp only [Prod.mk.injEq]

/-- A dispute is created under a new identifier. -/
theorem exec_disputeCreate {d : DisputeCreate} {o : Outcome} {a : Except Err Dispute}
    (h : exec (.disputeCreate d) o u = some (a, w)) (hfail : ∀ m, o ≠ .failed m) :
    ∃ id, u.filed id = none ∧ w.standing = u.standing ∧
      w.filed = Function.update u.filed id
        (some (d.transactionId, freezingDisputeStatuses.contains d.status)) := by
  obtain ⟨s, hfit, rfl⟩ := exec_effect h hfail
  have hfresh : ∀ d' ∈ u.disputes, d'.id ≠ s.id := by
    simpa [Op.fits, List.all_eq_true, Table.mem_def] using hfit
  obtain ⟨t, hwrite⟩ := Table.create_isSome (t := u.disputes) (a := d.row s.id) fun d' hd' => by
    simpa [Constrained.clash, DisputeCreate.row] using hfresh d' hd'
  refine ⟨s.id, Table.column_eq_none.mpr hfresh, ?_, ?_⟩
  · simp only [effect, hwrite, World.standing]
  · simp only [effect, hwrite, World.filed]
    exact Table.column_create keyed_dispute hwrite

/-- A dispute that is there is updated. -/
theorem exec_disputeUpdate {d : DisputeUpdate} {id' : Uuid} {isOpen : Bool} {o : Outcome}
    {a : Except Err Dispute} (h : exec (.disputeUpdate id d) o u = some (a, w))
    (hfail : ∀ m, o ≠ .failed m) (hfiled : u.filed id = some (id', isOpen)) :
    w.standing = u.standing ∧ w.filed = Function.update u.filed id
      (some (id', freezingDisputeStatuses.contains d.status)) := by
  obtain ⟨s, hfit, rfl⟩ := exec_effect h hfail
  obtain ⟨r, hr, hid, rfl, -⟩ := filed_eq_some.mp hfiled
  have hfind : (u.disputes.find fun r => r.id == id) = some r :=
    Table.find_eq hr (by simpa using hid) fun b hb hbi =>
      Table.eq_of_clash hb hr (keyed_dispute b r ((beq_iff_eq.mp hbi).trans hid.symm))
  obtain ⟨t, hwrite⟩ := Table.update_isSome (t := u.disputes) (p := fun r => r.id == id)
    (f := d.apply) fun a _ b _ => by split <;> split <;> rfl
  refine ⟨?_, ?_⟩
  · simp only [effect, disputeUpdate, hfind, hwrite, World.standing]
  · simp only [effect, disputeUpdate, hfind, hwrite, World.filed]
    subst hid
    rw [Table.column_update_one keyed_dispute hwrite hr (by simp) (fun b _ hb => by simpa using hb)
      fun b => rfl]
    rfl

/-- Every other operation leaves the disputes as they are. -/
theorem effect_disputes {op : Op} (hop : ∀ a, Event.files ⟨op, a⟩ = false) (s : Supply) (u : World) :
    (effect s u op).2.disputes = u.disputes := by
  cases op with
  | disputeCreate d => cases hop (.error recordNotFound)
  | disputeUpdate id d => cases hop (.error recordNotFound)
  | commitTransition d =>
      rcases commitTransition_world d s u with heq | ⟨t, transactions, -, -, heq⟩
      · exact congrArg World.disputes heq
      · exact (congrArg World.disputes heq).trans rfl
  | paymentUpdate id d =>
      simp only [effect, paymentUpdate]
      split
      · rfl
      · split <;> rfl
  | payoutUpdate key d =>
      simp only [effect, payoutUpdate]
      split
      · rfl
      · split <;> rfl
  | invoiceUpdate id d =>
      simp only [effect, invoiceUpdate]
      split
      · rfl
      · split
        · split <;> rfl
        · rfl
  | transactionCreate d | paymentCreate d | payoutCreate d | invoiceCreate d =>
      simp only [effect]
      split
      · split <;> rfl
      · rfl
  | invoiceCounterUpsert sellerId =>
      simp only [effect, invoiceCounterUpsert]
      split <;> split <;> rfl
  | userUpdateRoleFlags _ _ | transactionUpdateBuyer _ _ | webhookEventCreate _
  | webhookEventUpdate _ _ | initializeTransaction _ =>
      simp only [effect]
      split <;> rfl
  | invoiceUpdateManySent _ _ _ | invoiceUpdateManyViewed _ | invoiceUpdateManyOverdue _
  | invoiceUpdateManyPaid _ _ | paymentBindCharge _ _ | initiateTransfer _ | enqueueRelease _
  | startReleaseJob _ | completeReleaseJob _ _ | failReleaseJob _ _ =>
      simp only [effect, invoiceUpdateMany, invoiceUpdateManyPaid, paymentBindCharge,
        initiateTransfer, enqueueRelease, startReleaseJob, completeReleaseJob, failReleaseJob]
      split <;> rfl
  | _ => rfl

theorem exec_disputes {op : Op} {o : Outcome} {a : Except Err op.Ans}
    (hop : ∀ a, Event.files ⟨op, a⟩ = false) (h : exec op o u = some (a, w)) :
    w.disputes = u.disputes := by
  rcases exec_cases h with ⟨rfl, -⟩ | ⟨s, -, rfl, -⟩
  · rfl
  · exact effect_disputes hop s u

theorem exec_filed {op : Op} {o : Outcome} {a : Except Err op.Ans}
    (hop : ∀ a, Event.files ⟨op, a⟩ = false) (h : exec op o u = some (a, w)) :
    w.filed = u.filed := by
  rw [World.filed, exec_disputes hop h]
  rfl

/-- A flip moves its transaction. -/
theorem standing_commit {d : TransitionWrite} {t : Transaction}
    (found : u.transactions.find d.selects = some t)
    (write : u.transactions.update d.selects (fun t => { t with status := d.newState }) =
      some w.transactions) :
    u.standing d.transactionId = some d.oldState.standing ∧
      w.standing = Function.update u.standing d.transactionId (some d.newState.standing) := by
  have hsel : ∀ t, d.selects t = true → t.id = d.transactionId ∧ t.status = d.oldState := by
    intro t ht
    simpa [TransitionWrite.selects] using ht
  obtain ⟨ht, hs⟩ := Table.find_spec found
  obtain ⟨hid, hst⟩ := hsel t hs
  refine ⟨standing_eq_some.mpr ⟨t, ht, hid, by rw [hst]⟩, ?_⟩
  rw [World.standing, Table.column_update_one keyed_transaction write ht hs
    (fun b _ hb => (hsel b hb).1.trans hid.symm) fun b => rfl, hid]
  rfl

/-- Transactions appear, move on, and leave `live` only past their disputes. -/
def StandsOn (u w : World) : Prop := ∀ t, w.standing t = u.standing t ∨
  (u.standing t = none ∨ u.standing t = some .live) ∧
    (w.standing t = some .live ∨ w.standing t = some .settled)

theorem standsOn_of_eq (h : w.standing = u.standing) : StandsOn u w := fun t => .inl (by rw [h])

theorem standsOn_change {op : Op} (hc : Change op u w)
    (hdraft : ∀ d, op = .transactionCreate d → d.status = .draft)
    (hcommit : ∀ d, op = .commitTransition d → Undisputing d) : StandsOn u w := by
  cases hc with
  | frame same => exact standsOn_of_eq (by rw [World.standing, same.transactions]; rfl)
  | @transactionCreate d _ id t write =>
      intro t'
      have hfresh : u.standing id = none := Table.column_eq_none.mpr fun a ha hid => by
        have hclash := Table.create_no_clash write ha
        simp [Constrained.clash, TransactionCreate.row, hid] at hclash
      have hcol : World.standing { u with transactions := t } =
          Function.update u.standing id (some .live) := by
        rw [World.standing, Table.column_create keyed_transaction write]
        simp only [TransactionCreate.row, hdraft d rfl]
        rfl
      rw [hcol]
      by_cases hid : t' = id
      · rw [hid, Function.update_self]
        exact .inr ⟨.inl hfresh, .inl rfl⟩
      · exact .inl (Function.update_of_ne hid _ _)
  | transactionUpdateBuyer write =>
      exact standsOn_of_eq (Table.column_update_same keyed_transaction write
        fun _ _ _ => ⟨rfl, rfl⟩)
  | @commit d _ _ t found write =>
      obtain ⟨hold, hnew⟩ := standing_commit found write
      intro t'
      by_cases hid : t' = d.transactionId
      · rw [hid, hnew, Function.update_self, hold]
        rcases hcommit d rfl with heq | ⟨hlive, hsettled⟩
        · exact .inl (by rw [heq])
        · exact .inr ⟨.inr (by rw [hlive]), .inr (by rw [hsettled])⟩
      · exact .inl (by rw [hnew, Function.update_of_ne hid])
  | _ => exact standsOn_of_eq rfl

theorem sameDocket_drift {m : Move} (hm : platformDrift m u = some w) :
    w.standing = u.standing ∧ w.filed = u.filed := by
  cases m with
  | merge source target =>
      obtain ⟨_, _, _, _, write, -, -, write', rfl⟩ := drift_merge hm
      exact ⟨Table.column_update_same keyed_transaction write fun _ _ _ => ⟨rfl, rfl⟩,
        Table.column_update_same keyed_dispute write' fun _ _ _ => ⟨rfl, rfl⟩⟩
  | charge reference =>
      simp only [platformDrift, drift] at hm
      split at hm <;> cases hm
      exact ⟨rfl, rfl⟩
  | _ => cases hm; exact ⟨rfl, rfl⟩

/-! ## The docket of a configuration -/

/-- The register and the files, and what each process owes them. -/
def docket (x : Config (platform env)) : Docket Uuid Uuid where
  standing := World.standing x.world
  filed := World.filed x.world
  opening i := (x.procs[i]? : Option (Process (platform env))).bind fun p => opening p.call p.hist
  closing i := (x.procs[i]? : Option (Process (platform env))).bind fun p => closing p.call p.hist

/-- The operation of a raise or a resolution that committed does not fail, and its commit is not
lost. -/
def unbroken (c : Call) (h : Hist) : Op → Outcome → Bool
  | .commitTransition _, .lost .. => !c.disputes
  | .enqueueRelease _, .lost .. | .enqueueRelease _, .failed _ => !(c.disputes && owes h)
  | .disputeCreate _, .failed _ | .disputeUpdate .., .failed _ => false
  | _, _ => true

/-- **A raise or a resolution that committed is carried out:** it is not cut off, and nothing it still
has to do fails. -/
def whole (env : Env) : Policy (platform env) := fun x l =>
  match l with
  | .perform i choice => match x.pending i with
      | some (p, ⟨op, _⟩) => unbroken p.call p.hist op choice
      | none => true
  | .crash i => match (x.procs[i]? : Option (Process (platform env))) with
      | some p => !(p.call.disputes && owes p.hist)
      | none => true
  | _ => true

/-! ## What was seen -/

/-- The dispute is on file, about this transaction. -/
def Filed (w : World) (id transactionId : Uuid) : Prop :=
  ∃ isOpen, w.filed id = some (transactionId, isOpen)

theorem filed_exec {op : Op} {o : Outcome} {a : Except Err op.Ans} {t : Uuid}
    (he : exec op o u = some (a, w)) (h : Filed u id t) : Filed w id t := by
  by_cases hfail : ∃ m, o = .failed m
  · obtain ⟨m, rfl⟩ := hfail
    simp only [exec] at he
    split at he <;> cases he
    exact h
  · have hdone : ∀ m, o ≠ .failed m := fun m hm => hfail ⟨m, hm⟩
    obtain ⟨isOpen, hid⟩ := h
    cases op with
    | disputeCreate d =>
        obtain ⟨id', hfresh, -, hw⟩ := exec_disputeCreate he hdone
        have hne : id ≠ id' := by
          rintro rfl
          rw [hfresh] at hid
          cases hid
        exact ⟨isOpen, by rw [hw, Function.update_of_ne hne, hid]⟩
    | disputeUpdate id' d =>
        cases hid' : u.filed id' with
        | none =>
            obtain ⟨s, -, rfl⟩ := exec_effect he hdone
            have hnone := Option.map_eq_none_iff.mp hid'
            exact ⟨isOpen, by simp only [effect, disputeUpdate, hnone, hid]⟩
        | some about =>
            obtain ⟨t', isOpen'⟩ := about
            obtain ⟨-, hw⟩ := exec_disputeUpdate he hdone hid'
            by_cases hne : id = id'
            · subst hne
              rw [hid, Option.some.injEq, Prod.mk.injEq] at hid'
              exact ⟨_, by rw [hw, Function.update_self, hid'.1]⟩
            · exact ⟨isOpen, by rw [hw, Function.update_of_ne hne, hid]⟩
    | _ => exact ⟨isOpen, by rw [exec_filed (fun _ => rfl) he, hid]⟩

/-- The disputes a call was shown are on file. -/
def FiledKnown (h : Hist) (w : World) : Prop :=
  ∀ id dispute, Saw h (.disputeFindUnique id) (some dispute) → Filed w id dispute.transactionId

theorem filedKnown_cons {op : Op} {o : Outcome} {a : Except Err op.Ans} (hk : FiledKnown h u)
    (he : exec op o u = some (a, w)) : FiledKnown (⟨op, a⟩ :: h) w := by
  intro id dispute hsaw
  rcases List.mem_cons.mp hsaw with heq | hmem
  · cases heq
    obtain ⟨hmem, hid⟩ := found_dispute he
    exact filed_exec he ⟨_, filed_eq_some.mpr ⟨dispute, hmem, hid, rfl, rfl⟩⟩
  · exact filed_exec he (hk id dispute hmem)

/-- The outline of what was seen. -/
def seen (env : Env) : Outline (platform env) Guard.free where
  inv _ := True
  rel u w := ∀ id t, Filed u id t → Filed w id t
  know _ := FiledKnown
  possible := Possible
  just _ _ _ := True
  rel_refl _ _ _ h := h
  rel_trans huv hvw id t h := hvw id t (huv id t h)
  know_nil _ _ _ _ hsaw := absurd hsaw List.not_mem_nil
  know_rel hrel hk id dispute hsaw := hrel _ _ (hk id dispute hsaw)
  drift _ hm := ⟨trivial, fun id t h => by rw [Filed, (sameDocket_drift hm).2]; exact h⟩
  exec _ hk _ _ he := ⟨trivial, fun _ _ => filed_exec he, filedKnown_cons hk he⟩
  answer he := possible_of_exec he
  code _ := along_any _ _

/-! ## Every step is one of the register's -/

section Step

variable {x y : Config (platform env)}

/-- What the processes owe after one of them performed an operation. -/
theorem owed_perform {i : Nat} {p : Process (platform env)} {e : Event Op.Ans Err}
    {prog : Option (Program Reply)} (hp : x.procs[i]? = some p)
    (hprocs : y.procs = x.procs.set i ⟨p.call, e :: p.hist, prog⟩) :
    (docket y).opening = Function.update (docket x).opening i (opening p.call (e :: p.hist)) ∧
      (docket y).closing = Function.update (docket x).closing i (closing p.call (e :: p.hist)) := by
  have hget : ∀ j, j ≠ i → y.procs[j]? = x.procs[j]? := fun j hj => by
    rw [hprocs, List.getElem?_set_ne (Ne.symm hj)]
  have hself : y.procs[i]? = some ⟨p.call, e :: p.hist, prog⟩ := by
    rw [hprocs, List.getElem?_set_self (List.getElem?_eq_some_iff.mp hp).1]
  constructor <;> funext j <;> by_cases hj : j = i
  · subst hj; simp only [docket, hself, Option.bind_some, Function.update_self]
  · simp only [docket, hget j hj, Function.update_of_ne hj]
  · subst hj; simp only [docket, hself, Option.bind_some, Function.update_self]
  · simp only [docket, hget j hj, Function.update_of_ne hj]

theorem owed_self {i : Nat} {p : Process (platform env)} (hp : x.procs[i]? = some p) :
    (docket x).opening i = opening p.call p.hist ∧ (docket x).closing i = closing p.call p.hist := by
  simp only [docket, hp, Option.bind_some, and_self]

/-- Processes that do the same owe the same. -/
theorem owed_same (h : ∀ (i : Nat) (q : Process (platform env)), y.procs[i]? = some q →
      (∃ p : Process (platform env), x.procs[i]? = some p ∧ q.call = p.call ∧ q.hist = p.hist) ∨
        x.procs[i]? = none ∧ q.hist = [])
    (hlen : ∀ i : Nat, y.procs[i]? = none → x.procs[i]? = none) :
    (docket y).opening = (docket x).opening ∧ (docket y).closing = (docket x).closing := by
  have hnil : ∀ c : Call, opening c [] = none ∧ closing c [] = none := by
    intro c
    cases c <;> exact ⟨rfl, rfl⟩
  constructor <;> funext i <;> cases hq : y.procs[i]? with
  | none => simp only [docket, hq, hlen i hq]
  | some q =>
      rcases h i q hq with ⟨p, hp, hcall, hhist⟩ | ⟨hnone, hhist⟩
      · simp only [docket, hq, hp, Option.bind_some, hcall, hhist]
      · simp only [docket, hq, hnone, Option.bind_some, Option.bind_none, hhist, (hnil _).1,
          (hnil _).2]

theorem commits_eq_true {op : Op} {a : Except Err op.Ans} (h : Event.commits ⟨op, a⟩ = true) :
    ∃ d a', (⟨op, a⟩ : Event Op.Ans Err) = ⟨.commitTransition d, .ok a'⟩ := by
  unfold Event.commits at h
  split at h
  · rename_i d a' heq
    exact ⟨d, a', heq⟩
  · cases h

/-- An operation beside the disputes. -/
theorem docket_quiet {i : Nat} {p : Process (platform env)} {op : Op} {a : Except Err op.Ans}
    {choice : Outcome} {prog : Option (Program Reply)} (hp : x.procs[i]? = some p)
    (hprocs : y.procs = x.procs.set i ⟨p.call, ⟨op, a⟩ :: p.hist, prog⟩)
    (hj : Handles p.call p.hist op) (hP : unbroken p.call p.hist op choice = true)
    (he : exec op choice x.world = some (a, y.world))
    (hfiles : ∀ a, Event.files ⟨op, a⟩ = false)
    (hquiet : p.call.disputes = true → Event.commits ⟨op, a⟩ = false) :
    (docket x).Step (docket y) := by
  obtain ⟨hopening, hclosing⟩ := owed_perform hp hprocs
  obtain ⟨hself, hself'⟩ := owed_self hp
  have hsame : opening p.call (⟨op, a⟩ :: p.hist) = opening p.call p.hist ∧
      closing p.call (⟨op, a⟩ :: p.hist) = closing p.call p.hist := by
    cases hd : p.call.disputes with
    | true =>
        have howes := owes_cons (h := p.hist) (hquiet hd) (hfiles a)
        exact ⟨opening_congr howes, closing_congr howes⟩
    | false =>
        revert hd
        cases p.call <;> simp [Call.disputes, opening, closing]
  refine .move ?_ (exec_filed hfiles he) ?_ ?_
  · cases op with
    | commitTransition d =>
        cases hd : p.call.disputes with
        | true =>
            have hno := hquiet hd
            cases a with
            | ok a => cases hno
            | error e =>
                refine standsOn_of_eq (congrArg World.standing (exec_commit_error he ?_))
                rintro s m rfl
                rw [unbroken, hd] at hP
                cases hP
        | false =>
            refine standsOn_change (exec_change he) (fun _ heq => by cases heq) ?_
            rintro d' heq
            cases heq
            revert hj hd
            cases p.call <;> simp [Handles, Call.disputes]
    | transactionCreate d =>
        refine standsOn_change (exec_change he) ?_ fun _ heq => by cases heq
        rintro d' heq
        cases heq
        exact hj
    | _ =>
        exact standsOn_change (exec_change he) (fun _ heq => by cases heq) fun _ heq => by cases heq
  · rw [hopening, hsame.1, ← hself, Function.update_eq_self]
  · rw [hclosing, hsame.2, ← hself', Function.update_eq_self]

/-- Whoever raises a dispute moves its transaction and owes the row. -/
theorem docket_raise {i : Nat} {p : Process (platform env)} {input : RaiseDisputeInput}
    {d : TransitionWrite} {a : (Op.commitTransition d).Ans} {choice : Outcome}
    {prog : Option (Program Reply)} (hp : x.procs[i]? = some p)
    (hcall : p.call = .raiseDispute input)
    (hprocs : y.procs = x.procs.set i ⟨p.call, ⟨.commitTransition d, .ok a⟩ :: p.hist, prog⟩)
    (hj : Handles p.call p.hist (.commitTransition d))
    (he : exec (.commitTransition d) choice x.world = some (.ok a, y.world)) :
    (docket x).Step (docket y) := by
  obtain ⟨hopening, hclosing⟩ := owed_perform hp hprocs
  obtain ⟨hself, hself'⟩ := owed_self hp
  rw [hcall] at hopening hclosing hself hself' hj
  obtain ⟨hid, hold, hnew, hno, hfiles⟩ := hj
  obtain ⟨t, eventId, transactions, hfind, hwrite, hw, -⟩ := exec_commit_ok he
  have hflip := standing_commit (w := y.world) hfind (by rw [hw]; exact hwrite)
  rw [hold, hnew] at hflip
  have hy : docket y = { docket x with
      standing := Function.update (docket x).standing d.transactionId (some .disputed)
      opening := Function.update (docket x).opening i (some d.transactionId) } := by
    refine Docket.ext hflip.2 (exec_filed (fun _ => rfl) he) ?_ ?_
    · rw [hopening]
      simp only [opening, owes_of_committed (e := ⟨.commitTransition d, .ok a⟩) rfl rfl hfiles,
        if_true, hid]
    · exact hclosing.trans (Function.update_eq_self_iff.mpr hself'.symm)
  rw [hy]
  exact .raise hflip.1 (by rw [hself, opening, hno]; rfl)

/-- Whoever resolves a dispute moves its transaction and owes the update. -/
theorem docket_resolve {i : Nat} {p : Process (platform env)} {input : ResolveDisputeInput}
    {d : TransitionWrite} {a : (Op.commitTransition d).Ans} {choice : Outcome}
    {prog : Option (Program Reply)} (hp : x.procs[i]? = some p)
    (hcall : p.call = .resolveDispute input)
    (hprocs : y.procs = x.procs.set i ⟨p.call, ⟨.commitTransition d, .ok a⟩ :: p.hist, prog⟩)
    (hj : Handles p.call p.hist (.commitTransition d)) (hk : FiledKnown p.hist x.world)
    (he : exec (.commitTransition d) choice x.world = some (.ok a, y.world)) :
    (docket x).Step (docket y) := by
  obtain ⟨hopening, hclosing⟩ := owed_perform hp hprocs
  obtain ⟨hself, hself'⟩ := owed_self hp
  rw [hcall] at hopening hclosing hself hself' hj
  obtain ⟨⟨dispute, hsaw, hid⟩, hold, hnew, hno, hfiles⟩ := hj
  obtain ⟨isOpen, hfiled⟩ := hk _ _ hsaw
  obtain ⟨t, eventId, transactions, hfind, hwrite, hw, -⟩ := exec_commit_ok he
  have hflip := standing_commit (w := y.world) hfind (by rw [hw]; exact hwrite)
  rw [hold, hnew] at hflip
  have hy : docket y = { docket x with
      standing := Function.update (docket x).standing d.transactionId (some .settled)
      closing := Function.update (docket x).closing i (some input.disputeId) } := by
    refine Docket.ext hflip.2 (exec_filed (fun _ => rfl) he) ?_ ?_
    · exact hopening.trans (Function.update_eq_self_iff.mpr hself.symm)
    · rw [hclosing]
      simp only [closing, owes_of_committed (e := ⟨.commitTransition d, .ok a⟩) rfl rfl hfiles,
        if_true]
  rw [hy]
  exact .resolve (hid ▸ hfiled) hflip.1 (by rw [hself', closing, hno]; rfl)

/-- The row of a dispute is what its call owed. -/
theorem docket_file {i : Nat} {p : Process (platform env)} {d : DisputeCreate}
    {a : Except Err Dispute} {choice : Outcome} {prog : Option (Program Reply)}
    (hp : x.procs[i]? = some p)
    (hprocs : y.procs = x.procs.set i ⟨p.call, ⟨.disputeCreate d, a⟩ :: p.hist, prog⟩)
    (hj : Handles p.call p.hist (.disputeCreate d))
    (hP : unbroken p.call p.hist (.disputeCreate d) choice = true)
    (he : exec (.disputeCreate d) choice x.world = some (a, y.world)) :
    (docket x).Step (docket y) := by
  obtain ⟨hopening, hclosing⟩ := owed_perform hp hprocs
  obtain ⟨hself, hself'⟩ := owed_self hp
  obtain ⟨howed, hopen⟩ := hj
  obtain ⟨id, hfresh, hstanding, hfiled⟩ := exec_disputeCreate he fun m hm => by
    rw [hm] at hP
    cases hP
  have hraise : ∃ input, p.call = .raiseDispute input := by
    revert howed
    cases p.call <;> simp [opening]
  obtain ⟨input, hcall⟩ := hraise
  have hy : docket y = { docket x with
      filed := Function.update (docket x).filed id (some (d.transactionId, true))
      opening := Function.update (docket x).opening i none } := by
    refine Docket.ext hstanding ?_ ?_ ?_
    · rw [hopen] at hfiled
      exact hfiled
    · rw [hopening, hcall, opening, owes_filed rfl]
      rfl
    · refine hclosing.trans (Function.update_eq_self_iff.mpr ?_)
      rw [hself', hcall]
      rfl
  rw [hy]
  exact .file (hself.trans howed) hfresh

/-- The update of a dispute is what its call owed. -/
theorem docket_close {i : Nat} {p : Process (platform env)} {id : Uuid} {d : DisputeUpdate}
    {a : Except Err Dispute} {choice : Outcome} {prog : Option (Program Reply)}
    (hagrees : (docket x).Agrees) (hp : x.procs[i]? = some p)
    (hprocs : y.procs = x.procs.set i ⟨p.call, ⟨.disputeUpdate id d, a⟩ :: p.hist, prog⟩)
    (hj : Handles p.call p.hist (.disputeUpdate id d))
    (hP : unbroken p.call p.hist (.disputeUpdate id d) choice = true)
    (he : exec (.disputeUpdate id d) choice x.world = some (a, y.world)) :
    (docket x).Step (docket y) := by
  obtain ⟨hopening, hclosing⟩ := owed_perform hp hprocs
  obtain ⟨hself, hself'⟩ := owed_self hp
  obtain ⟨howed, hresolved⟩ := hj
  obtain ⟨t, isOpen, habout, -⟩ := hagrees.closing (hself'.trans howed)
  obtain ⟨hstanding, hfiled⟩ := exec_disputeUpdate he (fun m hm => by
    rw [hm] at hP
    cases hP) habout
  have hresolve : ∃ input, p.call = .resolveDispute input := by
    revert howed
    cases p.call <;> simp [closing]
  obtain ⟨input, hcall⟩ := hresolve
  have hy : docket y = { docket x with
      filed := Function.update (docket x).filed id (some (t, false))
      closing := Function.update (docket x).closing i none } := by
    refine Docket.ext hstanding ?_ ?_ ?_
    · rw [hresolved] at hfiled
      exact hfiled
    · refine hopening.trans (Function.update_eq_self_iff.mpr ?_)
      rw [hself, hcall]
      rfl
    · rw [hclosing, hcall, closing, owes_filed rfl]
      rfl
  rw [hy]
  exact .close (hself'.trans howed) habout

/-- **Simulation.** A step of the platform is a step of the register. -/
theorem docket_step {l : Label (platform env)} (hx : Reaches Guard.free ⟨World.initial, []⟩ x)
    (hagrees : (docket x).Agrees) (hP : whole env x l = true)
    (hl : x.next Guard.free l = some y) : (docket x).Step (docket y) := by
  cases Config.next_step hl with
  | arrive hadm hw hprocs =>
      obtain ⟨hopening, hclosing⟩ := owed_same (x := x) (y := y) (fun i q hq => by
        rw [hprocs, List.getElem?_append] at hq
        split at hq
        · exact .inl ⟨q, hq, rfl, rfl⟩
        · rename_i hlen
          rw [List.mem_singleton.mp (List.mem_of_getElem? hq)]
          exact .inr ⟨List.getElem?_eq_none (Nat.le_of_not_lt hlen), rfl⟩) fun i hi => by
        rw [hprocs, List.getElem?_eq_none_iff, List.length_append] at hi
        exact List.getElem?_eq_none (by omega)
      refine .move (standsOn_of_eq (congrArg World.standing hw)) (congrArg World.filed hw)
        hopening hclosing
  | @crash i p hp hw hprocs =>
      obtain ⟨hopening, hclosing⟩ := owed_same (x := x) (y := y) (fun j q hq => by
        rw [hprocs] at hq
        rcases getElem?_set_cases hp hq with ⟨rfl, rfl⟩ | ⟨-, hq⟩
        · exact .inl ⟨p, hp, rfl, rfl⟩
        · exact .inl ⟨q, hq, rfl, rfl⟩) fun j hj => by
        rw [hprocs, List.getElem?_eq_none_iff, List.length_set] at hj
        exact List.getElem?_eq_none hj
      refine .move (standsOn_of_eq (congrArg World.standing hw)) (congrArg World.filed hw)
        hopening hclosing
  | drift hm hprocs =>
      obtain ⟨hopening, hclosing⟩ := owed_same (x := x) (y := y)
        (fun i q hq => .inl ⟨q, hprocs ▸ hq, rfl, rfl⟩) fun i hi => hprocs ▸ hi
      obtain ⟨hstanding, hfiled⟩ := sameDocket_drift hm
      exact .move (standsOn_of_eq hstanding) hfiled hopening hclosing
  | @perform i choice p op k a hp hk he hprocs =>
      have hmem := List.mem_of_getElem? hp
      have hj : Handles p.call p.hist op :=
        (promises (fun hadm => code_handles hadm) hx p hmem _ hk).1
      have hbroken : unbroken p.call p.hist op choice = true := by
        rw [whole, Config.pending_eq hp hk] at hP
        exact hP
      by_cases hquiet : p.call.disputes = true → Event.commits ⟨op, a⟩ = false
      · cases op with
        | disputeCreate d => exact docket_file hp hprocs hj hbroken he
        | disputeUpdate id d => exact docket_close hagrees hp hprocs hj hbroken he
        | _ => exact docket_quiet hp hprocs hj hbroken he (fun _ => rfl) hquiet
      · obtain ⟨hdisputes, hcommits⟩ := Classical.not_imp.mp hquiet
        obtain ⟨d, a', heq⟩ := commits_eq_true (by simpa using hcommits)
        cases heq
        cases hcall : p.call with
        | raiseDispute input => exact docket_raise hp hcall hprocs hj he
        | resolveDispute input =>
            have hholds := ((seen env).holds_reaches ((seen env).holds_init trivial) hx).1
            exact docket_resolve hp hcall hprocs hj (hholds.know p hmem) he
        | _ => rw [hcall] at hdisputes; cases hdisputes

/-! ## Every run -/

/-- No process has an operation left. -/
def Quiescent (x : Config (platform env)) : Prop := ∀ (p : Process (platform env)), p ∈ x.procs →
  ∀ (op : Op) (k : Except Err op.Ans → Program Reply), p.prog ≠ some (.call op k)

/-- No call was cut off, and no enqueue failed, while the dispute was still to be written. -/
def Unbroken (x : Config (platform env)) : Prop := ∀ p ∈ x.procs, p.call.disputes = true →
  ¬ Unqueued p.hist ∧ (p.prog = none → owes p.hist = false)

theorem unbroken_step {l : Label (platform env)} (hx : Reaches Guard.free ⟨World.initial, []⟩ x)
    (hu : Unbroken x) (hP : whole env x l = true) (hl : x.next Guard.free l = some y) :
    Unbroken y := by
  intro q hq hdisputes
  cases Config.next_step hl with
  | arrive hadm hw hprocs =>
      rw [hprocs] at hq
      rcases List.mem_append.mp hq with hq | hq
      · exact hu q hq hdisputes
      · rw [List.mem_singleton.mp hq]
        refine ⟨?_, fun h => by cases h⟩
        rintro ⟨id, e, hmem⟩
        cases hmem
  | @crash i p hp hw hprocs =>
      rw [hprocs] at hq
      rcases List.mem_or_eq_of_mem_set hq with hq | rfl
      · exact hu q hq hdisputes
      · refine ⟨(hu p (List.mem_of_getElem? hp) hdisputes).1, fun _ => ?_⟩
        rw [whole, hp] at hP
        have hcut : (!(p.call.disputes && owes p.hist)) = true := hP
        have hd : p.call.disputes = true := hdisputes
        simpa [hd] using hcut
  | drift hm hprocs => exact hu q (hprocs ▸ hq) hdisputes
  | @perform i choice p op k a hp hk he hprocs =>
      rw [hprocs] at hq
      rcases List.mem_or_eq_of_mem_set hq with hq | rfl
      · exact hu q hq hdisputes
      · have hmem := List.mem_of_getElem? hp
        refine ⟨?_, fun h => by cases h⟩
        rintro ⟨id, e, hmem'⟩
        rcases List.mem_cons.mp hmem' with heq | hmem'
        · cases heq
          have hj : Handles p.call p.hist (.enqueueRelease id) :=
            (promises (fun hadm => code_handles hadm) hx p hmem _ hk).1
          have howes : owes p.hist = true := hj hdisputes
          have hd : p.call.disputes = true := hdisputes
          have hbroken : unbroken p.call p.hist (.enqueueRelease id) choice = true := by
            rw [whole, Config.pending_eq hp hk] at hP
            exact hP
          cases choice with
          | served s =>
              have heff := Option.some.inj he
              cases heff
          | lost s m => simp [unbroken, hd, howes] at hbroken
          | failed m => simp [unbroken, hd, howes] at hbroken
        · exact (hu p hmem hdisputes).1 ⟨id, e, hmem'⟩

theorem initial_agrees : (@docket env ⟨World.initial, []⟩).Agrees :=
  Docket.agrees_empty (fun _ => rfl) (fun _ => rfl) (fun _ => rfl) fun _ => rfl

theorem Follows.agrees (hx : Follows (whole env) ⟨World.initial, []⟩ x) :
    (docket x).Agrees ∧ Unbroken x := by
  have hinitial : @Unbroken env ⟨World.initial, []⟩ :=
    fun _ hp => absurd hp List.not_mem_nil
  exact hx.invariant (I := fun x => (docket x).Agrees ∧ Unbroken x) ⟨initial_agrees, hinitial⟩
    fun hreach hI hP hl =>
      ⟨hI.1.step (docket_step hreach hI.1 hP hl), unbroken_step hreach hI.2 hP hl⟩

/-- At rest nothing is owed. -/
theorem owes_nothing (hx : Reaches Guard.free ⟨World.initial, []⟩ x) (hu : Unbroken x)
    (hq : Quiescent x) {p : Process (platform env)} (hp : p ∈ x.procs)
    (hd : p.call.disputes = true) : owes p.hist = false := by
  obtain ⟨hqueued, hcut⟩ := hu p hp hd
  cases hprog : p.prog with
  | none => exact hcut hprog
  | some prog =>
      have hprom := promises (fun hadm => code_handles hadm) hx p hp _ hprog
      cases prog with
      | call op k => exact absurd hprog (hq p hp op k)
      | done r =>
          have hended : p.call.disputes = true → Discharged p.hist := hprom
          exact (hended hd).resolve_right hqueued

end Step

/-! ## A dispute can be resolved -/

/-- Where a resolution leaves the transaction. -/
def ResolutionOutcome.next : ResolutionOutcome → TransactionStatus
  | release => .releaseProcessing
  | refund => .refunded

theorem transition_resolved (input : ResolveDisputeInput) (dispute : Dispute) (tx : Transaction)
    (disputes : List Dispute) :
    transition .disputed (input.event dispute 0).event ((input.event dispute 0).context tx disputes) =
      .ok input.outcome.next := by
  obtain ⟨id, by', outcome, resolution⟩ := input
  cases outcome <;> rfl

theorem resolve_fits (input : ResolveDisputeInput) (s : Supply) :
    (resolve input).Uses fun op => ∀ w, op.fits s w = true := by
  unfold resolve
  refine uses_bind (uses_perform fun w => rfl) fun dispute => ?_
  cases dispute with
  | none => trivial
  | some dispute =>
      dsimp only
      split
      · trivial
      · refine uses_bind (uses_perform fun w => rfl) fun otherOpen => ?_
        refine uses_bind (apply_uses (fun w => rfl) (fun d w => rfl) fun id w => rfl) fun _ => ?_
        refine uses_bind ?_ fun _ => uses_perform fun w => rfl
        unfold enqueueResolved
        split
        · exact uses_perform fun w => rfl
        · trivial

/-- A dispute that is there is closed. -/
theorem disputeUpdate_serves {d : Dispute} {data : DisputeUpdate} {r : Except Err Dispute}
    {w' : World} (hd : d ∈ w.disputes)
    (h : Serves env (await (.disputeUpdate d.id data)) w r w') :
    w'.transactions = w.transactions ∧
      ∃ d' ∈ w'.disputes, d'.id = d.id ∧ d'.status = data.status := by
  obtain ⟨o, ho, he⟩ := (Prog.ends_perform _ _).mp h
  obtain ⟨s, -, heff⟩ := exec_of_served ho he
  have hfind : (w.disputes.find fun r => r.id == d.id) = some d :=
    Table.find_eq hd (by simp) fun b hb hbi =>
      Table.eq_of_clash hb hd (keyed_dispute b d (beq_iff_eq.mp hbi))
  obtain ⟨t, hwrite⟩ := Table.update_isSome (t := w.disputes) (p := fun r => r.id == d.id)
    (f := data.apply) fun a _ b _ => by split <;> split <;> rfl
  simp only [effect, disputeUpdate, hfind, hwrite] at heff
  obtain ⟨rfl, rfl⟩ := Prod.ext_iff.mp heff
  exact ⟨rfl, _, Table.mem_update_of hwrite hd (by simp), rfl, rfl⟩

/-- The release is enqueued, or none is needed. -/
theorem enqueueResolved_serves {outcome : ResolutionOutcome} {r : Except Err Unit} {w' : World}
    (h : Serves env (enqueueResolved outcome id) w r w') :
    r = .ok () ∧ w'.transactions = w.transactions ∧ w'.disputes = w.disputes := by
  cases outcome with
  | release =>
      obtain ⟨o, ho, he⟩ := (Prog.ends_perform _ _).mp h
      obtain ⟨s, -, heff⟩ := exec_of_served ho he
      obtain ⟨rfl, rfl⟩ := Prod.ext_iff.mp heff
      refine ⟨rfl, ?_⟩
      simp only [effect, enqueueRelease]
      split <;> exact ⟨rfl, rfl⟩
  | refund =>
      obtain ⟨rfl, rfl⟩ := h
      exact ⟨rfl, rfl, rfl⟩

/-- A resolution of the only open dispute settles its transaction and closes it. -/
theorem resolve_serves {input : ResolveDisputeInput} {d : Dispute} {t : Transaction}
    {r : Except Err Dispute} (hd : d ∈ w.disputes) (hid : d.id = input.disputeId)
    (hopen : d.status ∈ freezingDisputeStatuses)
    (hone : ∀ d' ∈ w.disputes, d'.transactionId = d.transactionId → d' = d)
    (ht : t ∈ w.transactions) (htx : t.id = d.transactionId) (hst : t.status = .disputed)
    {w' : World} (h : Serves env (resolve input) w r w') :
    (∃ t' ∈ w'.transactions, t'.id = t.id ∧ t'.status = input.outcome.next) ∧
      ∃ d' ∈ w'.disputes, d'.id = d.id ∧ d'.status = input.outcome.status := by
  have hfind : (w.disputes.find fun d => d.id == input.disputeId) = some d :=
    Table.find_eq hd (by simpa using hid) fun b hb hbi =>
      Table.eq_of_clash hb hd (keyed_dispute b d ((beq_iff_eq.mp hbi).trans hid.symm))
  have hcount : (w.disputes.count fun d' => d'.transactionId == d.transactionId &&
      openDisputeStatuses.contains d'.status && d'.id != d.id) = 0 := by
    refine List.countP_eq_zero.mpr fun d' hd' hsel => ?_
    simp only [Bool.and_eq_true, beq_iff_eq, bne_iff_ne] at hsel
    exact hsel.2 (congrArg Dispute.id (hone d' hd' hsel.1.1))
  have hstatus : openDisputeStatuses.contains d.status = true := by
    simpa [freezingDisputeStatuses, openDisputeStatuses] using hopen
  unfold resolve at h
  obtain ⟨s, -, h⟩ := serves_await h
  simp only [effect, hfind, Prog.after_ok, hstatus, Bool.not_true, Bool.false_eq_true,
    if_false] at h
  obtain ⟨s', -, h⟩ := serves_await h
  simp only [effect, hcount, Prog.after_ok] at h
  obtain ⟨a, v, happ, h⟩ := (Prog.ends_bind _ _ _).mp h
  have hsame : v.disputes = w.disputes :=
    Prog.Ends.keeps (V := core env) (A := fun op => ∀ a, Event.files ⟨op, a⟩ = false)
      (R := fun u w => World.disputes w = World.disputes u) (fun _ => rfl)
      (fun huv hvw => hvw.trans huv) (fun hop he => exec_disputes hop he)
      (apply_uses (fun _ => rfl) (fun _ _ => rfl) fun _ _ => rfl) happ
  obtain ⟨⟨tx, rfl⟩, hflip⟩ := apply_serves ht htx
    (fun disputes => (congrArg (transition · _ _) hst).trans
      (transition_resolved input d t disputes)) happ
  rw [Prog.after_ok] at h
  obtain ⟨b, v', hqueue, h⟩ := (Prog.ends_bind _ _ _).mp h
  obtain ⟨rfl, htxs, hdisputes⟩ := enqueueResolved_serves hqueue
  rw [Prog.after_ok] at h
  have hd' : d ∈ v'.disputes := by rw [hdisputes, hsame]; exact hd
  obtain ⟨htxs', hclosed⟩ := disputeUpdate_serves hd' h
  obtain ⟨t', ht', hid', hst'⟩ := hflip.flipped
  refine ⟨⟨t', ?_, hid'.trans htx.symm, hst'⟩, hclosed⟩
  rw [htxs', htxs]
  exact ht'

/-! ## The claim -/

theorem standing_disputed {w : World} {id : Uuid} : w.standing id = some .disputed ↔
    ∃ t ∈ w.transactions, t.id = id ∧ t.status = .disputed := by
  rw [standing_eq_some]
  refine exists_congr fun t => and_congr Iff.rfl (and_congr Iff.rfl ?_)
  cases t.status <;> simp [TransactionStatus.standing]

theorem filed_open {w : World} {t : Uuid} : (∃ id, w.filed id = some (t, true)) ↔
    ∃ d ∈ w.disputes, d.transactionId = t ∧ d.status ∈ freezingDisputeStatuses := by
  constructor
  · rintro ⟨id, hid⟩
    obtain ⟨d, hd, -, htx, hst⟩ := filed_eq_some.mp hid
    exact ⟨d, hd, htx, by simpa using hst⟩
  · rintro ⟨d, hd, htx, hst⟩
    exact ⟨d.id, filed_eq_some.mpr ⟨d, hd, rfl, htx, by simpa using hst⟩⟩

/-- **Disputes and transactions agree,** in every run whose raises and resolutions, once they committed,
are carried out: at rest a transaction is in dispute just when a dispute about it is open, and then a
resolution of that dispute, with either outcome, goes through. -/
theorem disputes_agree (env : Env) {x : Config (platform env)}
    (hx : Follows (whole env) ⟨World.initial, []⟩ x) (hq : Quiescent x) :
    (∀ id, (∃ t ∈ World.transactions x.world, t.id = id ∧ t.status = .disputed) ↔
      ∃ d ∈ World.disputes x.world, d.transactionId = id ∧ d.status ∈ freezingDisputeStatuses) ∧
    ∀ t ∈ World.transactions x.world, t.status = .disputed →
      ∃ d ∈ World.disputes x.world, d.transactionId = t.id ∧ ∀ input : ResolveDisputeInput,
        input.disputeId = d.id → ∃ r w', Serves env (resolve input) x.world r w' ∧
          (∃ t' ∈ w'.transactions, t'.id = t.id ∧ t'.status = input.outcome.next) ∧
          ∃ d' ∈ w'.disputes, d'.id = d.id ∧ d'.status = input.outcome.status := by
  obtain ⟨hagrees, hunbroken⟩ := Follows.agrees hx
  have hrest : ∀ p ∈ x.procs, opening p.call p.hist = none ∧ closing p.call p.hist = none := by
    intro p hp
    have howes := owes_nothing hx.reaches hunbroken hq hp
    revert howes
    cases p.call <;> simp_all [opening, closing, Call.disputes]
  have hiff : ∀ id, (∃ t ∈ World.transactions x.world, t.id = id ∧ t.status = .disputed) ↔
      ∃ d ∈ World.disputes x.world, d.transactionId = id ∧
        d.status ∈ freezingDisputeStatuses := by
    intro id
    rw [← standing_disputed, ← filed_open]
    refine hagrees.settled (fun i => ?_) (fun i => ?_) id
    · refine Option.bind_eq_none_iff.mpr fun p hp => (hrest p (List.mem_of_getElem? hp)).1
    · refine Option.bind_eq_none_iff.mpr fun p hp => (hrest p (List.mem_of_getElem? hp)).2
  refine ⟨hiff, fun t ht hst => ?_⟩
  obtain ⟨d, hd, htx, hopen⟩ := (hiff t.id).mp ⟨t, ht, rfl, hst⟩
  refine ⟨d, hd, htx, fun input hinput => ?_⟩
  obtain ⟨r, w', hends⟩ : ∃ r w', Serves env (resolve input) x.world r w' :=
    exists_serves { id := Demo.sale } (resolve_fits input _) x.world
  have hone : ∀ d' ∈ World.disputes x.world, d'.transactionId = d.transactionId → d' = d := by
    intro d' hd' heq
    have hid : d'.id = d.id := hagrees.one (t := d.transactionId)
      (filed_eq_some.mpr ⟨d', hd', rfl, heq, rfl⟩) (filed_eq_some.mpr ⟨d, hd, rfl, rfl, rfl⟩)
    exact Table.eq_of_clash hd' hd (keyed_dispute d' d hid)
  exact ⟨r, w', hends, resolve_serves hd hinput.symm hopen hone ht htx.symm hst hends⟩

namespace Demo

/-- To a sale whose payment is protected, every call ended. -/
def protectedSale (env : Env) : List (Label (core env)) :=
  checkout env ++ .arrive (.verify reference) :: serve env 3 :: verified env 3 :: serves env 3 7

/-- The buyer's complaint, up to its commit. -/
def complaint (env : Env) : List (Label (core env)) :=
  .arrive (.raiseDispute { transactionId := sale, openedBy := buyer, reason := .damaged }) ::
    serves env 4 2

/-- The statuses of the transactions, and of the disputes. -/
def standings (w : World) : List TransactionStatus × List DisputeStatus :=
  (w.transactions.rows.map Transaction.status, w.disputes.rows.map Dispute.status)

/-- No process has an operation left. -/
def isQuiescent {env : Env} (x : Config (platform env)) : Bool :=
  x.procs.all fun (p : Process (platform env)) => match p.prog with
    | some (.call _ _) => false
    | _ => true

theorem quiescent_of_isQuiescent {env : Env} {x : Config (platform env)}
    (h : isQuiescent x = true) : Quiescent x := by
  intro p hp op k hprog
  have hrest := List.all_eq_true.mp h p hp
  simp only [hprog] at hrest
  cases hrest

end Demo

set_option maxRecDepth 20000 in
/-- A raise cut off after its commit leaves a transaction in dispute without a dispute. -/
theorem disputes_agree_cut : ¬ ∀ (env : Env) (x : Config (platform env)),
    Reaches Guard.free ⟨World.initial, []⟩ x → Quiescent x →
      ∀ id, (∃ t ∈ World.transactions x.world, t.id = id ∧ t.status = .disputed) ↔
        ∃ d ∈ World.disputes x.world, d.transactionId = id ∧
          d.status ∈ freezingDisputeStatuses := by
  intro hall
  have hrun : ((Config.run Guard.free ((Demo.protectedSale Demo.silent ++
      Demo.complaint Demo.silent ++ [Label.crash 4]).map Label.within)
      (⟨World.initial, []⟩ : Config (platform Demo.silent))).map fun x =>
        decide (Demo.standings x.world = ([.disputed], [])) && Demo.isQuiescent x) = some true := by
    decide
  obtain ⟨x, hx, htest⟩ := exists_of_run hrun
  obtain ⟨hstand, hquiet⟩ := Bool.and_eq_true_iff.mp htest
  have hstand := of_decide_eq_true hstand
  obtain ⟨t, ht, hst⟩ := (Table.of_map_eq_singleton (congrArg Prod.fst hstand)).1
  obtain ⟨d, hd, -⟩ := (hall _ x hx (Demo.quiescent_of_isQuiescent hquiet) t.id).mp
    ⟨t, ht, rfl, hst⟩
  have hnone : (World.disputes x.world).rows = [] := List.map_eq_nil_iff.mp (congrArg Prod.snd hstand)
  rw [Table.mem_def, hnone] at hd
  cases hd

set_option maxRecDepth 20000 in
/-- A complaint that is carried out. -/
theorem disputes_agree_raised : ∃ x : Config (platform Demo.silent),
    (∃ t ∈ World.transactions x.world, t.status = .disputed) ∧
    (∀ id, (∃ t ∈ World.transactions x.world, t.id = id ∧ t.status = .disputed) ↔
      ∃ d ∈ World.disputes x.world, d.transactionId = id ∧ d.status ∈ freezingDisputeStatuses) := by
  have hrun : ((Config.follow (whole Demo.silent) ((Demo.protectedSale Demo.silent ++
      Demo.complaint Demo.silent ++ [Demo.serve _ 4 { id := Demo.release }]).map Label.within)
      (⟨World.initial, []⟩ : Config (platform Demo.silent))).map fun x =>
        decide (Demo.standings x.world = ([.disputed], [.open])) && Demo.isQuiescent x) =
          some true := by decide
  obtain ⟨x, hx, htest⟩ := exists_of_follow hrun
  obtain ⟨hstand, hquiet⟩ := Bool.and_eq_true_iff.mp htest
  obtain ⟨t, ht, hst⟩ :=
    (Table.of_map_eq_singleton (congrArg Prod.fst (of_decide_eq_true hstand))).1
  exact ⟨x, ⟨t, ht, hst⟩, (disputes_agree _ hx (Demo.quiescent_of_isQuiescent hquiet)).1⟩

end Meduman
