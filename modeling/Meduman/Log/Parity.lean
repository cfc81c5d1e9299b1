import Meduman.Core.Outline

/-!
# Status and logs agree

Every transition leaves one timeline row, one audit row and, for a merchant's transaction, one
outbound event where its type has one. Whatever calls race, the three logs of a transaction are
projections of one path of the machine to its status.

* `Passage`, `Path` : a taken edge, and a sequence of edges
* `Agrees` : the logs of a transaction are those of a path
* `Journal` : every transaction has such a path
* **`parity`** : every reachable world, and what a rejected call leaves
-/

set_option autoImplicit false

namespace Meduman

open Effect

/-! ## Paths -/

/-- An edge the machine took. -/
structure Passage where
  src : TransactionStatus
  event : TransactionEvent
  dst : TransactionStatus

/-- The machine permits the edge in some context. -/
def Passage.Permitted (p : Passage) : Prop :=
  ∃ context, transition p.src p.event context = .ok p.dst

/-- A sequence of permitted edges, each from where the last one led. -/
inductive Path : TransactionStatus → List Passage → TransactionStatus → Prop
  | nil (s : TransactionStatus) : Path s [] s
  | snoc {s s' : TransactionStatus} {path : List Passage} {p : Passage} (before : Path s path s')
      (src : p.src = s') (permitted : p.Permitted) : Path s (path ++ [p]) p.dst

/-- `type`, `oldState` and `newState` of its timeline row. -/
def Passage.timeline (p : Passage) : String × String × String :=
  (timelineType p.event, p.src.text, p.dst.text)

/-- The metadata of its audit row. -/
def Passage.metadata (p : Passage) : List (String × Scalar) :=
  [("event", .str p.event.type), ("from", .str p.src.text), ("to", .str p.dst.text)]

/-- Merchant, type and payload status of its outbound event, if it has one. -/
def Passage.outbound (merchantId : Option Uuid) (p : Passage) :
    Option (Uuid × String × TransactionStatus) :=
  match merchantId, outboundType p.event with
  | some merchantId, some type => some (merchantId, type, p.dst)
  | _, _ => none

/-! ## The logs of a transaction -/

def World.timelineOf (w : World) (id : Uuid) : List TimelineEvent :=
  w.timeline.filter fun e => e.transactionId == id

/-- The `status_change` rows of the audit log. -/
def World.statusChangesOf (w : World) (id : Uuid) : List AuditLog :=
  w.auditLogs.filter fun a =>
    a.action == "transaction.status_change" && a.targetId == some id.text

def World.outboundOf (w : World) (id : Uuid) : List OutboundEvent :=
  w.outboundEvents.filter fun o => o.payload.transactionId == id

/-- The logs of the transaction are those of the path, which leads to its status. -/
structure Agrees (w : World) (t : Transaction) (path : List Passage) : Prop where
  leads : Path .draft path t.status
  timeline : (w.timelineOf t.id).map (fun e => (e.type, e.oldState, e.newState)) =
    path.map Passage.timeline
  audit : (w.statusChangesOf t.id).map AuditLog.metadata = path.map Passage.metadata
  outbound : (w.outboundOf t.id).map (fun o => (o.merchantId, o.type, o.payload.status)) =
    path.filterMap (Passage.outbound t.merchantId)

/-- No log has a row of this transaction. -/
structure Unlogged (w : World) (id : Uuid) : Prop where
  timeline : w.timelineOf id = []
  audit : w.statusChangesOf id = []
  outbound : w.outboundOf id = []

/-- **The invariant.** -/
structure Journal (w : World) : Prop where
  agrees : ∀ t ∈ w.transactions, ∃ path, Agrees w t path
  unlogged : ∀ id, (∀ t ∈ w.transactions, t.id ≠ id) → Unlogged w id

variable {env : Env} {c : Call} {h : Hist} {u w : World} {input : ApplyTransitionInput}

/-- The logs of this transaction are the same in two worlds. -/
structure SameLogsOf (u w : World) (id : Uuid) : Prop where
  timeline : w.timelineOf id = u.timelineOf id
  audit : w.statusChangesOf id = u.statusChangesOf id
  outbound : w.outboundOf id = u.outboundOf id

theorem SameLogsOf.unlogged {id : Uuid} (hs : SameLogsOf u w id) (hu : Unlogged u id) :
    Unlogged w id :=
  ⟨hs.timeline.trans hu.timeline, hs.audit.trans hu.audit, hs.outbound.trans hu.outbound⟩

/-- Logs and the columns they are about stay, so the path does. -/
theorem Agrees.of_same {t t' : Transaction} {path : List Passage} (ha : Agrees u t path)
    (hs : SameLogsOf u w t.id) (hid : t'.id = t.id) (hst : t'.status = t.status)
    (hm : t'.merchantId = t.merchantId) : Agrees w t' path where
  leads := by rw [hst]; exact ha.leads
  timeline := by rw [hid, hs.timeline]; exact ha.timeline
  audit := by rw [hid, hs.audit]; exact ha.audit
  outbound := by rw [hid, hm, hs.outbound]; exact ha.outbound

/-- No transaction is new, and none changes what the logs are about. -/
theorem Journal.of_same (hu : Journal u) (hs : ∀ id, SameLogsOf u w id)
    (hback : ∀ t ∈ w.transactions, ∃ t₀ ∈ u.transactions, t.id = t₀.id ∧ t.status = t₀.status ∧
      t.merchantId = t₀.merchantId)
    (hforth : ∀ t₀ ∈ u.transactions, ∃ t ∈ w.transactions, t.id = t₀.id) : Journal w where
  agrees t ht := by
    obtain ⟨t₀, ht₀, hid, hst, hm⟩ := hback t ht
    obtain ⟨path, hpath⟩ := hu.agrees t₀ ht₀
    exact ⟨path, hpath.of_same (hs t₀.id) hid hst hm⟩
  unlogged id hid := by
    refine (hs id).unlogged (hu.unlogged id fun t₀ ht₀ heq => ?_)
    obtain ⟨t, ht, htid⟩ := hforth t₀ ht₀
    exact hid t ht (htid.trans heq)

theorem journal_initial : Journal World.initial where
  agrees t ht := absurd ht (Table.not_mem_empty t)
  unlogged _ _ := ⟨rfl, rfl, rfl⟩

/-! ## What a call promises -/

/-- A commit writes what the machine permitted from what was loaded; nothing else writes a
`status_change`. -/
def Logged (h : Hist) : Op → Prop
  | .commitTransition d => ∃ (input : ApplyTransitionInput) (tx : Transaction)
      (disputes : List Dispute) (nextState : TransactionStatus), Saw h
      (.transactionFindWithDisputes input.transactionId freezingDisputeStatuses)
      (some (tx, disputes)) ∧
      transition tx.status input.event (input.context tx disputes) = .ok nextState ∧
      d = input.write tx nextState
  | .auditLogCreate d => d.action ≠ "transaction.status_change"
  | .transactionCreate d => d.status = .draft
  | _ => True

theorem Justified.logged {op : Op} (hj : Justified env c h op) : Logged h op := by
  cases op with
  | commitTransition d =>
      obtain ⟨input, tx, disputes, nextState, hsaw, hok, hd, -⟩ := hj
      exact ⟨input, tx, disputes, nextState, hsaw, hok, hd⟩
  | auditLogCreate d => exact hj
  | transactionCreate d => exact hj
  | _ => trivial

/-- Rejected by the machine, or because another call came first. -/
def IsRejection {α : Type} (r : Except Err α) : Prop :=
  ∃ reason message, r = .error (.transitionRejected reason message)

/-- A rejected transition committed nothing. -/
def CommitsRejected {α : Type} (r : Except Err α) (h : Hist) : Prop :=
  IsRejection r → ∀ d a, (⟨.commitTransition d, a⟩ : Event Op.Ans Err) ∈ h → IsRejection a

theorem commitsRejected_of_ok {α : Type} (a : α) (h : Hist) :
    CommitsRejected (.ok a : Except Err α) h := by
  rintro ⟨_, _, hr⟩
  cases hr

/-- What a call that applies one event does: it loads, commits and dispatches. -/
def OfDrive : Call → Op → Prop
  | .drive _, .transactionFindWithDisputes .. => True
  | .drive _, .commitTransition _ => True
  | .drive _, .enqueueWebhookDelivery _ => True
  | .drive _, _ => False
  | _, _ => True

/-- What a call promises for the logs. -/
def Records (c : Call) (h : Hist) (op : Op) : Prop := Logged h op ∧ OfDrive c op

theorem dispatch_logged (eventId : Uuid) {Q : Except Err Unit → Hist → Prop}
    (hQ : ∀ h', Q (.ok ()) h') :
    (dispatch eventId).Along Possible (Records (.drive input)) Q h := by
  unfold dispatch
  rw [along_tryCatch]
  exact (along_perform _ _).mpr ⟨⟨trivial, trivial⟩, fun _ _ => hQ _, fun _ _ => hQ _⟩

theorem apply_logged (input : ApplyTransitionInput) :
    (apply input).Along Possible (Records (.drive input)) CommitsRejected [] := by
  unfold apply
  rw [along_perform_bind]
  refine ⟨⟨trivial, trivial⟩, fun e _ _ d a hmem => ?_, ?_⟩
  · cases List.mem_singleton.mp hmem
  rintro (_ | ⟨tx, disputes⟩) -
  · intro _ d a hmem
    cases List.mem_singleton.mp hmem
  dsimp only
  split
  · intro _ d a hmem
    cases List.mem_singleton.mp hmem
  · rename_i nextState hok
    rw [along_perform_bind]
    refine ⟨⟨⟨input, tx, disputes, nextState, List.mem_cons_self, hok, rfl⟩, trivial⟩,
      fun e _ hrej d a hmem => ?_, ?_⟩
    · rcases List.mem_cons.mp hmem with heq | hmem
      · cases heq
        obtain ⟨reason, message, hr⟩ := hrej
        cases hr
        exact ⟨reason, message, rfl⟩
      · cases List.mem_singleton.mp hmem
    · rintro ⟨updatedTx, _ | eventId⟩ -
      · exact commitsRejected_of_ok updatedTx _
      · dsimp only
        rw [along_bind]
        exact dispatch_logged eventId fun h' => commitsRejected_of_ok updatedTx h'

/-- What a call that applied one event leaves. -/
def DriveLeaves (c : Call) (r : Except Err Reply) (h : Hist) : Prop :=
  match c with
  | .drive _ => CommitsRejected r h
  | _ => True

/-- **Every call writes the logs as the machine took it.** -/
theorem code_logged (hadm : eventfulAdmits env c w = true) :
    (code env c).Along Possible (Records c) (DriveLeaves c) [] := by
  rcases eventfulAdmits_cases hadm with ⟨input, rfl⟩ | ⟨hne, hadm⟩
  · rw [code, Prog.map_eq, along_bind]
    refine Prog.Along.mono (apply_logged input) fun r h hr => ?_
    cases r with
    | ok tx => exact commitsRejected_of_ok (Reply.transaction tx) h
    | error e =>
        rintro ⟨reason, message, heq⟩
        cases heq
        exact hr ⟨reason, message, rfl⟩
  · refine ((code_justified hadm).weaken fun _ _ hj => ⟨hj.logged, ?_⟩).mono fun _ _ _ => ?_
    all_goals
      cases c with
      | drive input => exact absurd rfl (hne input)
      | _ => trivial

/-! ## What an operation does to the journal -/

/-- A write of what the machine permitted from a loaded transaction. -/
structure Permits (d : TransitionWrite) (input : ApplyTransitionInput) (tx : Transaction)
    (nextState : TransactionStatus) : Prop where
  permitted : ∃ context, transition tx.status input.event context = .ok nextState
  write : d = input.write tx nextState
  loaded : tx.id = input.transactionId

variable {d : TransitionWrite} {tx : Transaction}
  {nextState : TransactionStatus} {eventId : Uuid} {transactions : Table Transaction}

theorem Permits.transactionId (hp : Permits d input tx nextState) : d.transactionId = tx.id := by
  rw [hp.write, hp.loaded]; rfl

/-- A commit writes no rows of other transactions. -/
theorem sameLogsOf_commit (hp : Permits d input tx nextState) {id : Uuid} (hne : id ≠ tx.id) :
    SameLogsOf u (u.committed d eventId transactions) id where
  timeline := by
    have hrow : (d.timeline.transactionId == id) = false := by
      rw [beq_eq_false_iff_ne, hp.write]
      exact fun heq => hne (heq.symm.trans hp.loaded.symm)
    simp [World.timelineOf, World.committed, List.filter_append, hrow]
  audit := by
    have hrow : (d.audit.targetId == some id.text) = false := by
      rw [beq_eq_false_iff_ne, hp.write]
      exact fun heq => hne ((Uuid.ext (Option.some.inj heq)).symm.trans hp.loaded.symm)
    simp [World.statusChangesOf, World.committed, List.filter_append, hrow]
  outbound := by
    have hrow : ∀ r ∈ d.outbound.toList, r.2.2.transactionId = tx.id := by
      intro r hr
      rw [Option.mem_toList, hp.write] at hr
      simp only [ApplyTransitionInput.write, recordForTransition] at hr
      split at hr <;> cases hr
      rfl
    have hnone : (d.outbound.toList.map fun r => (⟨eventId, r.1, r.2.1, r.2.2⟩ : OutboundEvent)).filter
        (fun o => o.payload.transactionId == id) = [] := by
      rw [List.filter_eq_nil_iff]
      intro o ho
      obtain ⟨r, hr, rfl⟩ := List.mem_map.mp ho
      simpa [hrow r hr] using hne.symm
    simp only [World.outboundOf, World.committed, List.filter_append, hnone, List.append_nil]

/-- A commit extends the path of its transaction by the edge it took. -/
theorem agrees_commit (hp : Permits d input tx nextState) {t : Transaction}
    (hid : t.id = d.transactionId) (hst : t.status = d.oldState)
    (hm : tx.merchantId = t.merchantId) {path : List Passage} (ha : Agrees u t path) :
    Agrees (u.committed d eventId transactions) { t with status := d.newState }
      (path ++ [⟨tx.status, input.event, nextState⟩]) where
  leads := by
    have hsrc : tx.status = t.status := by rw [hst, hp.write]; rfl
    have hdst : d.newState = nextState := by rw [hp.write]; rfl
    rw [hdst]
    exact .snoc (p := ⟨tx.status, input.event, nextState⟩) ha.leads hsrc hp.permitted
  timeline := by
    have hrow : d.timeline.transactionId = t.id := by rw [hid, hp.write]; rfl
    have hold := ha.timeline
    simp only [World.timelineOf, World.committed] at hold ⊢
    rw [List.filter_append, List.map_append, hold, List.map_append,
      List.filter_cons_of_pos (by rw [hrow, beq_self_eq_true]), List.filter_nil]
    rw [hp.write]
    rfl
  audit := by
    have hrow : d.audit.targetId = some t.id.text := by rw [hid, hp.write]; rfl
    have haction : d.audit.action = "transaction.status_change" := by rw [hp.write]; rfl
    have hold := ha.audit
    simp only [World.statusChangesOf, World.committed] at hold ⊢
    rw [List.filter_append, List.map_append, hold, List.map_append,
      List.filter_cons_of_pos (by rw [hrow, haction, beq_self_eq_true, beq_self_eq_true]; rfl),
      List.filter_nil]
    rw [hp.write]
    rfl
  outbound := by
    have hrow : tx.id = t.id := by rw [hid, hp.transactionId]
    have hold := ha.outbound
    simp only [World.outboundOf, World.committed] at hold ⊢
    rw [List.filter_append, List.map_append, hold, List.filterMap_append]
    congr 1
    rw [hp.write]
    simp only [ApplyTransitionInput.write, recordForTransition, hm]
    cases hmerchant : t.merchantId with
    | none => simp [Passage.outbound]
    | some merchantId =>
        cases htype : outboundType input.event with
        | none => simp [Passage.outbound, htype]
        | some type => simp [Passage.outbound, htype, hrow]

theorem journal_commit {s : Supply} (hu : Journal u) (hp : Permits d input tx nextState)
    (hknown : ∃ t ∈ u.transactions, t.id = tx.id ∧ t.merchantId = tx.merchantId) :
    Journal (commitTransition d s u).2 := by
  rcases commitTransition_world d s u with heq | ⟨t, transactions, hfind, hwrite, heq⟩
  · rw [heq]; exact hu
  rw [heq]
  obtain ⟨ht, hsel⟩ := Table.find_spec hfind
  have hsel' : t.id = d.transactionId ∧ t.status = d.oldState := by
    simpa [TransitionWrite.selects] using hsel
  obtain ⟨t₁, ht₁, hid₁, hm₁⟩ := hknown
  have htt : t₁ = t := Table.eq_of_clash ht₁ ht (by
    simp [Constrained.clash, hid₁, hsel'.1, hp.transactionId])
  subst htt
  refine ⟨fun t' ht' => ?_, fun id hid => ?_⟩
  · obtain ⟨t₀, ht₀, rfl⟩ := (Table.mem_update hwrite).mp ht'
    obtain ⟨path, hpath⟩ := hu.agrees t₀ ht₀
    by_cases heq : t₀ = t₁
    · subst heq
      rw [if_pos hsel]
      exact ⟨_, agrees_commit hp hsel'.1 hsel'.2 hm₁.symm hpath⟩
    · have hne : t₀.id ≠ tx.id := fun hid => heq (Table.eq_of_clash ht₀ ht (by
        simp [Constrained.clash, hid, hid₁]))
      have hnsel : d.selects t₀ = false := by
        simp [TransitionWrite.selects, hp.transactionId, hne]
      rw [if_neg (by simp [hnsel])]
      exact ⟨path, hpath.of_same (sameLogsOf_commit hp hne) rfl rfl rfl⟩
  · refine (sameLogsOf_commit hp fun heq => ?_).unlogged (hu.unlogged id fun t₀ ht₀ heq => ?_)
    · exact hid _ (Table.mem_update_of hwrite ht hsel) (hid₁.trans heq.symm)
    · refine hid _ ((Table.mem_update hwrite).mpr ⟨t₀, ht₀, rfl⟩) ?_
      split <;> exact heq

/-- An insertion starts an empty path. -/
theorem journal_transactionCreate {row : Transaction} (hu : Journal u) (hst : row.status = .draft)
    (write : u.transactions.create row = some transactions) :
    Journal { u with transactions := transactions } where
  agrees t ht := by
    rcases (Table.mem_create write).mp ht with ht | rfl
    · obtain ⟨path, hpath⟩ := hu.agrees t ht
      exact ⟨path, hpath.of_same ⟨rfl, rfl, rfl⟩ rfl rfl rfl⟩
    · have hnew : Unlogged u t.id := hu.unlogged t.id fun b hb heq => by
        have hclash := Table.create_no_clash write hb
        simp [Constrained.clash, heq] at hclash
      refine ⟨[], ⟨by rw [hst]; exact .nil _, ?_, ?_, ?_⟩⟩
      · exact congrArg (List.map _) hnew.timeline
      · exact congrArg (List.map _) hnew.audit
      · exact congrArg (List.map _) hnew.outbound
  unlogged id hid := by
    have hold := hu.unlogged id fun b hb => hid b ((Table.mem_create write).mpr (.inl hb))
    exact ⟨hold.timeline, hold.audit, hold.outbound⟩

theorem journal_auditLogCreate {a : AuditLog} (hu : Journal u)
    (haction : a.action ≠ "transaction.status_change") :
    Journal { u with auditLogs := u.auditLogs ++ [a] } := by
  have hsame : ∀ id, SameLogsOf u { u with auditLogs := u.auditLogs ++ [a] } id := fun id =>
    ⟨rfl, by simp [World.statusChangesOf, List.filter_append, haction], rfl⟩
  exact hu.of_same hsame (fun t ht => ⟨t, ht, rfl, rfl, rfl⟩) fun t ht => ⟨t, ht, rfl⟩

theorem SameLogs.of (hs : SameLogs u w) (htimeline : w.timeline = u.timeline) (id : Uuid) :
    SameLogsOf u w id :=
  ⟨by rw [World.timelineOf, htimeline]; rfl, by rw [World.statusChangesOf, hs.auditLogs]; rfl,
    by rw [World.outboundOf, hs.outboundEvents]; rfl⟩

/-- Transactions stay, with their merchants. -/
def KeepsMerchants (u w : World) : Prop :=
  ∀ t ∈ u.transactions, ∃ t' ∈ w.transactions, t'.id = t.id ∧ t'.merchantId = t.merchantId

/-- What a call loaded is still there, with its merchant. -/
def Loaded (h : Hist) (w : World) : Prop :=
  ∀ id statuses tx disputes, Saw h (.transactionFindWithDisputes id statuses) (some (tx, disputes)) →
    tx.id = id ∧ ∃ t ∈ w.transactions, t.id = tx.id ∧ t.merchantId = tx.merchantId

theorem Loaded.mono (hl : Loaded h u) (hk : KeepsMerchants u w) : Loaded h w := by
  intro id statuses tx disputes hsaw
  obtain ⟨hid, t, ht, htid, hm⟩ := hl id statuses tx disputes hsaw
  obtain ⟨t', ht', hid', hm'⟩ := hk t ht
  exact ⟨hid, t', ht', hid'.trans htid, hm'.trans hm⟩

theorem keepsMerchants_change {op : Op} (hc : Change op u w) : KeepsMerchants u w := by
  cases hc with
  | frame same => exact fun t ht => ⟨t, same.transactions ▸ ht, rfl, rfl⟩
  | transactionCreate write => exact Table.exists_create write fun _ => ⟨rfl, rfl⟩
  | transactionUpdateBuyer write =>
      exact Table.exists_update write (fun _ => ⟨rfl, rfl⟩) fun _ _ _ => ⟨rfl, rfl⟩
  | commit found write =>
      exact Table.exists_update write (fun _ => ⟨rfl, rfl⟩) fun _ _ _ => ⟨rfl, rfl⟩
  | _ => exact fun t ht => ⟨t, ht, rfl, rfl⟩

theorem journal_change {op : Op} (hu : Journal u) (hs : SameLogs u w) (hc : Change op u w)
    (hj : Logged h op) (hcommit : ∀ d, op ≠ .commitTransition d) : Journal w := by
  cases hc with
  | frame same =>
      exact hu.of_same (hs.of same.timeline)
        (fun t ht => ⟨t, same.transactions ▸ ht, rfl, rfl, rfl⟩)
        fun t ht => ⟨t, same.transactions ▸ ht, rfl⟩
  | @transactionCreate d _ _ _ write =>
      have hdraft : d.status = .draft := hj
      exact journal_transactionCreate hu hdraft write
  | transactionUpdateBuyer write =>
      refine hu.of_same (hs.of rfl) (fun t ht => ?_) fun t ht => ?_
      · obtain ⟨t₀, ht₀, rfl⟩ := (Table.mem_update write).mp ht
        refine ⟨t₀, ht₀, ?_⟩
        split <;> exact ⟨rfl, rfl, rfl⟩
      · exact Table.exists_update (R := fun a b => b.id = a.id) write (fun _ => rfl)
          (fun _ _ _ => rfl) t ht
  | commit found write => exact absurd rfl (hcommit _)
  | _ =>
      exact hu.of_same (hs.of rfl) (fun t ht => ⟨t, ht, rfl, rfl, rfl⟩) fun t ht => ⟨t, ht, rfl⟩

/-- **Step lemma.** -/
theorem journal_exec {op : Op} {o : Outcome} {a : Except Err op.Ans} (hu : Journal u)
    (hl : Loaded h u) (hj : Logged h op) (he : exec op o u = some (a, w)) : Journal w := by
  rcases exec_cases he with ⟨rfl, -⟩ | ⟨s, hfit, rfl, -⟩
  · exact hu
  cases op with
  | commitTransition d =>
      obtain ⟨input, tx, disputes, nextState, hsaw, hok, hd⟩ := hj
      obtain ⟨hid, hknown⟩ := hl _ _ _ _ hsaw
      exact journal_commit hu ⟨⟨_, hok⟩, hd, hid⟩ hknown
  | auditLogCreate d => exact journal_auditLogCreate hu hj
  | _ =>
      exact journal_change hu (effect_logs (by simp) (by simp)) (effect_change hfit) hj (by simp)

theorem loaded_cons {op : Op} {o : Outcome} {a : Except Err op.Ans} (hl : Loaded h u)
    (he : exec op o u = some (a, w)) : Loaded (⟨op, a⟩ :: h) w := by
  have hkeeps := keepsMerchants_change (exec_change he)
  intro id statuses tx disputes hsaw
  rcases saw_cons hsaw with heq | hsaw
  · cases heq
    obtain ⟨ht, hid⟩ := exec_answered he
    exact ⟨hid, hkeeps tx ht⟩
  · exact hl.mono hkeeps id statuses tx disputes hsaw

theorem journal_drift {m : Move} (hu : Journal u) (hm : drift m u = some w) :
    Journal w ∧ KeepsMerchants u w := by
  have hframe : ∀ {w : World}, w.transactions = u.transactions → w.timeline = u.timeline →
      SameLogs u w → Journal w ∧ KeepsMerchants u w := fun ht htl hs =>
    ⟨hu.of_same (hs.of htl) (fun t h => ⟨t, ht ▸ h, rfl, rfl, rfl⟩) fun t h => ⟨t, ht ▸ h, rfl⟩,
      fun t h => ⟨t, ht ▸ h, rfl, rfl⟩⟩
  cases m with
  | charge reference =>
      simp only [drift] at hm
      split at hm <;> cases hm
      exact hframe rfl rfl ⟨rfl, rfl⟩
  | merge source target =>
      obtain ⟨transactions, payouts, invoices, disputes, write, -, -, -, rfl⟩ := drift_merge hm
      refine ⟨hu.of_same (fun _ => ⟨rfl, rfl, rfl⟩) (fun t ht => ?_) ?_, ?_⟩
      · obtain ⟨t₀, ht₀, rfl⟩ := (Table.mem_update write).mp ht
        exact ⟨t₀, ht₀, rfl, rfl, rfl⟩
      · exact Table.exists_update (R := fun a b => b.id = a.id) write (fun _ => rfl)
          fun _ _ _ => rfl
      · exact Table.exists_update write (fun _ => ⟨rfl, rfl⟩) fun _ _ _ => ⟨rfl, rfl⟩
  | _ => cases hm; exact hframe rfl rfl ⟨rfl, rfl⟩

/-! ## Every run -/

/-- The outline of the logs. -/
def journal (env : Env) : Outline (eventful env) Guard.free where
  inv := Journal
  rel := KeepsMerchants
  know _ h w := Loaded h w
  possible := Possible
  just c h op := Records c h op
  rel_refl _ t ht := ⟨t, ht, rfl, rfl⟩
  rel_trans huv hvw t ht := by
    obtain ⟨t', ht', hid, hm⟩ := huv t ht
    obtain ⟨t'', ht'', hid', hm'⟩ := hvw t' ht'
    exact ⟨t'', ht'', hid'.trans hid, hm'.trans hm⟩
  know_nil _ _ _ _ _ _ hsaw := absurd hsaw List.not_mem_nil
  know_rel hrel hk := hk.mono hrel
  drift := journal_drift
  exec hu hk hj _ he :=
    ⟨journal_exec hu hk hj.1 he, keepsMerchants_change (exec_change he), loaded_cons hk he⟩
  answer he := possible_of_exec he
  code hadm := (code_logged hadm).mono fun _ _ _ => trivial

/-- The statuses and the three logs are the same. -/
structure SameRecord (u w : World) : Prop where
  transactions : w.transactions = u.transactions
  timeline : w.timeline = u.timeline
  auditLogs : w.auditLogs = u.auditLogs
  outboundEvents : w.outboundEvents = u.outboundEvents

/-- A rejected commit wrote nothing. -/
theorem exec_commit_rejected {o : Outcome} {a : Except Err (Op.commitTransition d).Ans}
    (hr : IsRejection a) (he : exec (.commitTransition d) o u = some (a, w)) : w = u := by
  obtain ⟨reason, message, rfl⟩ := hr
  cases o with
  | served s =>
      simp only [exec, Op.fits, if_true, effect, Option.some.injEq] at he
      unfold commitTransition at he
      split at he
      · exact (congrArg Prod.snd he).symm
      · split at he
        · exact (congrArg Prod.snd he).symm
        · split at he <;> cases he
  | lost s message =>
      simp only [exec] at he
      split at he <;> cases he
  | failed message =>
      simp only [exec] at he
      split at he <;> cases he

/-- What a call that applies one event does changes no record, unless it is a commit. -/
theorem sameRecord_of_drive {op : Op} {o : Outcome} {a : Except Err op.Ans}
    (hop : OfDrive (.drive input) op)
    (hcommit : ∀ d (heq : op = .commitTransition d), IsRejection (heq ▸ a))
    (he : exec op o u = some (a, w)) : SameRecord u w := by
  cases op with
  | commitTransition d =>
      rw [exec_commit_rejected (hcommit d rfl) he]
      exact ⟨rfl, rfl, rfl, rfl⟩
  | transactionFindWithDisputes id statuses =>
      rcases exec_cases he with ⟨rfl, -⟩ | ⟨s, -, rfl, -⟩ <;> exact ⟨rfl, rfl, rfl, rfl⟩
  | enqueueWebhookDelivery eventId =>
      rcases exec_cases he with ⟨rfl, -⟩ | ⟨s, -, rfl, -⟩ <;> exact ⟨rfl, rfl, rfl, rfl⟩
  | _ => exact hop.elim

/-- Every step a rejected call took left the records as they were. -/
def RejectedLeaves (x : Config (eventful env)) : Prop :=
  ∀ i input h r, x.procs[i]? = some ⟨.drive input, h, some (.done r)⟩ → IsRejection r →
    ∀ y choice z, Reaches Guard.free ⟨World.initial, []⟩ y →
      y.next Guard.free (.perform i choice) = some z → Reaches Guard.free z x →
      SameRecord y.world z.world

theorem rejected_leaves {x : Config (eventful env)}
    (hx : Reaches Guard.free ⟨World.initial, []⟩ x) : RejectedLeaves x := by
  intro i input h r hp hr y choice z hy hyz hzx
  have halong := fun {x : Config (eventful env)} (hx : Reaches Guard.free ⟨World.initial, []⟩ x) =>
    promises (fun hadm => code_logged hadm) hx
  -- what the call did by the end, it did between a load and a rejected commit
  have hend : CommitsRejected r h := halong hx _ (List.mem_of_getElem? hp) _ rfl
  obtain ⟨p, op, k, hpy, hprog⟩ := Config.pending_of_perform hyz
  obtain ⟨a, -, hexec, hpz⟩ := Config.next_perform hpy hprog hyz
  obtain ⟨q, hq, hcall, hsuf⟩ := hzx.hist hpz
  cases hp.symm.trans hq
  have hdrive : OfDrive (.drive input) op := by
    have hjust := (halong hy _ (List.mem_of_getElem? hpy) _ hprog).1
    rw [← show (Call.drive input : Call) = p.call from hcall] at hjust
    exact hjust.2
  refine sameRecord_of_drive hdrive (fun d heq => ?_) hexec
  subst heq
  exact hend hr d a (hsuf.subset List.mem_cons_self)

/-- **Status, timeline, audit trail and outbox agree.** In every reachable world the logs of every
transaction are those of one path of the machine to its status, nothing else is logged, and what a
rejected call did changed none of them. -/
theorem parity {x : Config (eventful env)} (hx : Reaches Guard.free ⟨World.initial, []⟩ x) :
    Journal x.world ∧ RejectedLeaves x :=
  ⟨((journal env).holds_reaches ((journal env).holds_init journal_initial) hx).1.inv,
    rejected_leaves hx⟩

namespace Demo

variable (env : Env)

/-- A merchant's sale, cancelled by two calls that both loaded it as a draft. -/
def raced : List (Label (eventful env)) :=
  ([.arrive (.create (.v1 buyer { sellerId := seller, title := "Phone", amount := 1000 }))] ++
    serves env 0 3 ++
    [.arrive (.drive { transactionId := sale, event := .cancel, actor := { type := .user } }),
      .arrive (.drive { transactionId := sale, event := .cancel, actor := { type := .user } }),
      serve env 1, serve env 2, serve env 1, serve env 1, serve env 2] :
    List (Label (core env))).map Label.within

/-- How many rows each log has. -/
def logLengths (w : World) : Nat × Nat × Nat :=
  (w.timeline.length, w.auditLogs.length, w.outboundEvents.length)

end Demo

set_option maxRecDepth 20000 in
/-- Of two cancellations one leaves a row in every log. -/
theorem parity_raced : ∃ x : Config (eventful Demo.silent),
    Demo.logLengths x.world = (1, 1, 1) ∧ Journal x.world ∧ RejectedLeaves x := by
  have hrun : ((Config.run Guard.free (Demo.raced Demo.silent) ⟨World.initial, []⟩).map fun x =>
      decide (Demo.logLengths x.world = (1, 1, 1))) = some true := by decide
  obtain ⟨x, hx, htest⟩ := exists_of_run hrun
  exact ⟨x, of_decide_eq_true htest, parity hx⟩

end Meduman
