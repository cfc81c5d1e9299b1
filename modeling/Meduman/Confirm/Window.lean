import Mathlib.Data.List.Nodup
import Meduman.Dispute.Agree
import Meduman.Log.Parity

/-!
# The window of an auto-confirmation

A scan reads the time, then every delivered transaction with the time it was delivered, and confirms
one after the other. Whether the window is over it judges on what it read then; the machine is told
so and looks at the status only.

* `anybody` : where any event may be applied, and only a scan says that the window is over
* `Elapsed` : delivered for as long as the window, by the rule, and nothing freezes it
* `windowKept` : no new delivery while a scan still counts from the old one, and no dispute between a
  scan's load and its commit
* **`autoConfirm_unbroken`** : every auto-confirmation of every run
-/

set_option autoImplicit false

namespace Meduman

open Effect

/-! ## Any event -/

/-- Any event may be applied; that the window is over, only a scan says. -/
def anybodyAdmits (env : Env) (c : Call) (w : World) : Bool :=
  match c with
  | .drive input => input.autoConfirmWindowElapsed.isNone
  | c => admits env c w

/-- The core where any event may be applied, and disputes change by their own calls only. -/
abbrev anybody (env : Env) : Service Op.Ans Err :=
  (core env).within (anybodyAdmits env) platformDrift

variable {env : Env} {c : Call} {h : Hist} {u w : World} {id : Uuid}

theorem anybodyAdmits_eventful (hadm : anybodyAdmits env c w = true) :
    eventfulAdmits env c w = true := by
  cases c with
  | drive input => rfl
  | _ => exact hadm

theorem drift_of_platform {m : Move} (hm : platformDrift m u = some w) :
    ∃ m', drift m' u = some w := by
  cases m with
  | others users sellerProfiles disputes invoices =>
      exact ⟨.others users sellerProfiles u.disputes u.invoices, hm⟩
  | tick elapsed => exact ⟨.tick elapsed, hm⟩
  | settle reference => exact ⟨.settle reference, hm⟩
  | fail reference => exact ⟨.fail reference, hm⟩
  | reverse reference => exact ⟨.reverse reference, hm⟩
  | charge reference => exact ⟨.charge reference, hm⟩
  | merge source target => exact ⟨.merge source target, hm⟩

/-! ## The rows of the timeline -/

/-- The last row of a transaction, with its time. -/
def World.lastRow (w : World) (id : Uuid) : Option (TimelineEvent × Int) :=
  (w.timeline.zip w.timelineCreatedAt).reverse.find? fun e => e.1.transactionId == id

/-- When the transaction last went to `CONFIRMATION_PENDING`. -/
def World.enteredAt (w : World) (id : Uuid) : Option Int :=
  ((w.timeline.zip w.timelineCreatedAt).reverse.find? fun e =>
    e.1.transactionId == id &&
      e.1.newState == TransactionStatus.confirmationPending.text).map Prod.snd

/-- Every row has a time. -/
def Stamped (w : World) : Prop := w.timelineCreatedAt.length = w.timeline.length

/-- Two worlds with the same timeline. -/
structure SameTimeline (u w : World) : Prop where
  rows : w.timeline = u.timeline
  times : w.timelineCreatedAt = u.timelineCreatedAt

theorem SameTimeline.stamped (hs : SameTimeline u w) (hu : Stamped u) : Stamped w := by
  rw [Stamped, hs.rows, hs.times]
  exact hu

theorem SameTimeline.enteredAt (hs : SameTimeline u w) (id : Uuid) :
    w.enteredAt id = u.enteredAt id := by
  rw [World.enteredAt, hs.rows, hs.times]
  rfl

/-- Only a commit writes the timeline. -/
theorem effect_timeline {op : Op} (hop : ∀ d, op ≠ .commitTransition d) (s : Supply) (u : World) :
    SameTimeline u (effect s u op).2 := by
  cases op with
  | commitTransition d => exact absurd rfl (hop d)
  | paymentUpdate id d =>
      simp only [effect, paymentUpdate]
      split
      · exact ⟨rfl, rfl⟩
      · split <;> exact ⟨rfl, rfl⟩
  | payoutUpdate key d =>
      simp only [effect, payoutUpdate]
      split
      · exact ⟨rfl, rfl⟩
      · split <;> exact ⟨rfl, rfl⟩
  | disputeUpdate id d =>
      simp only [effect, disputeUpdate]
      split
      · exact ⟨rfl, rfl⟩
      · split <;> exact ⟨rfl, rfl⟩
  | invoiceUpdate id d =>
      simp only [effect, invoiceUpdate]
      split
      · exact ⟨rfl, rfl⟩
      · split
        · split <;> exact ⟨rfl, rfl⟩
        · exact ⟨rfl, rfl⟩
  | transactionCreate d | paymentCreate d | payoutCreate d | invoiceCreate d =>
      simp only [effect]
      split
      · split <;> exact ⟨rfl, rfl⟩
      · exact ⟨rfl, rfl⟩
  | invoiceCounterUpsert sellerId =>
      simp only [effect, invoiceCounterUpsert]
      split <;> split <;> exact ⟨rfl, rfl⟩
  | userUpdateRoleFlags _ _ | transactionUpdateBuyer _ _ | disputeCreate _
  | webhookEventCreate _ | webhookEventUpdate _ _ | initializeTransaction _ =>
      simp only [effect]
      split <;> exact ⟨rfl, rfl⟩
  | invoiceUpdateManyPaid _ _ | invoiceUpdateManySent _ _ _ | invoiceUpdateManyViewed _
  | invoiceUpdateManyOverdue _ | paymentBindCharge _ _ | initiateTransfer _ | enqueueRelease _
  | startReleaseJob _ | completeReleaseJob _ _ | failReleaseJob _ _ =>
      simp only [effect, invoiceUpdateManyPaid, invoiceUpdateMany, paymentBindCharge,
        initiateTransfer, enqueueRelease, startReleaseJob, completeReleaseJob, failReleaseJob]
      split <;> exact ⟨rfl, rfl⟩
  | _ => exact ⟨rfl, rfl⟩

/-- **What an operation does to the timeline:** nothing, or the row of a commit at its time. -/
theorem exec_timeline {op : Op} {o : Outcome} {a : Except Err op.Ans}
    (he : exec op o u = some (a, w)) : SameTimeline u w ∨ ∃ d, op = .commitTransition d ∧
      w.timeline = u.timeline ++ [d.timeline] ∧
      w.timelineCreatedAt = u.timelineCreatedAt ++ [u.clock] := by
  rcases exec_cases he with ⟨rfl, -⟩ | ⟨s, -, rfl, -⟩
  · exact .inl ⟨rfl, rfl⟩
  · by_cases hop : ∀ d, op ≠ .commitTransition d
    · exact .inl (effect_timeline hop s u)
    · simp only [not_forall, not_not] at hop
      obtain ⟨d, rfl⟩ := hop
      rcases commitTransition_world d s u with heq | ⟨t, transactions, -, -, heq⟩
      · exact .inl (by rw [effect, heq]; exact ⟨rfl, rfl⟩)
      · refine .inr ⟨d, rfl, ?_⟩
        rw [effect, heq]
        exact ⟨rfl, rfl⟩

theorem stamped_exec {op : Op} {o : Outcome} {a : Except Err op.Ans} (hu : Stamped u)
    (he : exec op o u = some (a, w)) : Stamped w := by
  rcases exec_timeline he with hs | ⟨d, -, hrows, htimes⟩
  · exact hs.stamped hu
  · rw [Stamped, hrows, htimes, List.length_append, List.length_append, hu]
    rfl

/-- Only a transition into `CONFIRMATION_PENDING` changes when the transaction went there. -/
theorem enteredAt_commit {d : TransitionWrite} (hu : Stamped u)
    (hrows : w.timeline = u.timeline ++ [d.timeline])
    (htimes : w.timelineCreatedAt = u.timelineCreatedAt ++ [u.clock])
    (hother : ¬ (d.timeline.transactionId = id ∧
      d.timeline.newState = TransactionStatus.confirmationPending.text)) :
    w.enteredAt id = u.enteredAt id := by
  have hno : (d.timeline.transactionId == id &&
      d.timeline.newState == TransactionStatus.confirmationPending.text) = false := by
    rw [Bool.eq_false_iff]
    simpa using hother
  rw [World.enteredAt, hrows, htimes, List.zip_append hu.symm]
  simp only [List.zip_cons_cons, List.zip_nil_right, List.reverse_append, List.reverse_singleton,
    List.singleton_append, List.find?_cons, hno]
  rfl

theorem platformDrift_timeline {m : Move} (hm : platformDrift m u = some w) : SameTimeline u w := by
  cases m with
  | merge source target =>
      obtain ⟨_, _, _, _, -, -, -, -, rfl⟩ := drift_merge hm
      exact ⟨rfl, rfl⟩
  | charge reference =>
      simp only [platformDrift, drift] at hm
      split at hm <;> cases hm
      exact ⟨rfl, rfl⟩
  | _ => cases hm; exact ⟨rfl, rfl⟩

/-- A found element that passes a second test is the first to pass both. -/
theorem find?_and {α : Type} {l : List α} {p q : α → Bool} {a : α} (hp : l.find? p = some a)
    (hq : q a = true) : l.find? (fun x => p x && q x) = some a := by
  rw [List.find?_eq_some_iff_append] at hp ⊢
  obtain ⟨hpa, before, after, rfl, hbefore⟩ := hp
  refine ⟨by rw [hpa, hq]; rfl, before, after, rfl, fun x hx => ?_⟩
  have hpx := hbefore x hx
  simp only [Bool.not_eq_true'] at hpx ⊢
  rw [hpx]
  rfl

/-- **The last row tells the status.** -/
theorem lastRow_of_status {t : Transaction} (hj : Journal w) (hst : Stamped w)
    (ht : t ∈ w.transactions) (hnew : t.status ≠ .draft) :
    ∃ e, w.lastRow t.id = some e ∧ e.1.newState = t.status.text := by
  obtain ⟨path, hpath⟩ := hj.agrees t ht
  obtain ⟨before, p, rfl, hp⟩ : ∃ before p, path = before ++ [p] ∧ p.dst = t.status := by
    have hleads := hpath.leads
    generalize hs : t.status = s at hleads hnew
    cases hleads with
    | nil => exact absurd rfl hnew
    | @snoc _ before p _ _ _ => exact ⟨before, p, rfl, rfl⟩
  have hlast : ((w.timelineOf t.id).getLast?).map (fun e => (e.type, e.oldState, e.newState)) =
      some p.timeline := by
    rw [← List.getLast?_map, hpath.timeline, List.map_append, List.map_singleton,
      List.getLast?_concat]
  obtain ⟨row, hrow, heq⟩ := Option.map_eq_some_iff.mp hlast
  have hfst : (w.timeline.zip w.timelineCreatedAt).map Prod.fst = w.timeline :=
    List.map_fst_zip (Nat.le_of_eq hst.symm)
  have hfind : (w.lastRow t.id).map Prod.fst = some row := by
    have hrow' : w.timeline.reverse.find? (fun e => e.transactionId == t.id) = some row := by
      rw [← hrow, World.timelineOf, ← List.head?_reverse, ← List.filter_reverse, List.head?_filter]
    rw [← hfst, ← List.map_reverse, List.find?_map] at hrow'
    exact hrow'
  obtain ⟨e, he, rfl⟩ := Option.map_eq_some_iff.mp hfind
  exact ⟨e, he, by rw [← hp]; exact congrArg (fun x => x.2.2) heq⟩

/-! ## What a scan decides on -/

/-- What a scan read first: its time, and the candidates. -/
def found (h : Hist) : Option (Int × List (Transaction × Option Int)) :=
  match h.reverse with
  | ⟨.now, .ok now⟩ :: ⟨.transactionFindAutoReleasable, .ok candidates⟩ :: _ =>
      some (now, candidates)
  | _ => none

@[simp] theorem found_pair (now : Int) (candidates : List (Transaction × Option Int)) :
    found [⟨.transactionFindAutoReleasable, .ok candidates⟩, ⟨.now, .ok now⟩] =
      some (now, candidates) := rfl

/-- What was read first, and when it was read. -/
theorem found_cases {r : Int × List (Transaction × Option Int)} (hf : found h = some r) :
    ∃ l, h = l ++ [⟨.transactionFindAutoReleasable, .ok r.2⟩, ⟨.now, .ok r.1⟩] := by
  unfold found at hf
  split at hf
  · rename_i now candidates rest heq
    cases hf
    exact ⟨rest.reverse, by rw [← List.reverse_reverse h, heq]; simp⟩
  · cases hf

theorem found_append {now : Int} {candidates : List (Transaction × Option Int)} (l : Hist) :
    found (l ++ [⟨.transactionFindAutoReleasable, .ok candidates⟩, ⟨.now, .ok now⟩]) =
      some (now, candidates) := by
  simp [found]

theorem found_cons {r : Int × List (Transaction × Option Int)} {e : Event Op.Ans Err} :
    found (e :: h) = some r ↔ found h = some r ∨
      (e = ⟨.transactionFindAutoReleasable, .ok r.2⟩ ∧ h = [⟨.now, .ok r.1⟩]) := by
  constructor
  · intro hf
    obtain ⟨l, hl⟩ := found_cases hf
    cases l with
    | nil =>
        cases hl
        exact .inr ⟨rfl, rfl⟩
    | cons e' l =>
        cases hl
        exact .inl (found_append l)
  · rintro (hf | ⟨rfl, rfl⟩)
    · obtain ⟨l, rfl⟩ := found_cases hf
      exact found_append (e :: l)
    · rfl

/-- The window, in milliseconds. -/
def Env.windowMs (env : Env) : Int := env.autoReleaseWindowHours * 3600000

/-- The scan found the transaction, its window over. -/
def foundDue (env : Env) (h : Hist) (id : Uuid) : Bool :=
  (found h).any fun r => r.2.any fun c => c.1.id == id && c.2.any fun enteredAt =>
    env.windowMs ≤ r.1 - enteredAt

theorem foundDue_iff : foundDue env h id = true ↔ ∃ now candidates tx enteredAt,
    found h = some (now, candidates) ∧ (tx, some enteredAt) ∈ candidates ∧ tx.id = id ∧
      env.windowMs ≤ now - enteredAt := by
  simp only [foundDue, Option.any_eq_true, List.any_eq_true, Bool.and_eq_true, beq_iff_eq,
    decide_eq_true_eq, Prod.exists]
  constructor
  · rintro ⟨now, candidates, hf, tx, _, hmem, hid, enteredAt, rfl, hdue⟩
    exact ⟨now, candidates, tx, enteredAt, hf, hmem, hid, hdue⟩
  · rintro ⟨now, candidates, tx, enteredAt, hf, hmem, hid, hdue⟩
    exact ⟨now, candidates, hf, tx, _, hmem, hid, enteredAt, rfl, hdue⟩

/-- A load of the transaction. -/
def Event.loads (id : Uuid) : Event Op.Ans Err → Bool
  | ⟨.transactionFindWithDisputes id' _, _⟩ => id' == id
  | _ => false

/-- The operation commits a transition of the transaction. -/
def Op.commitsOn (id : Uuid) : Op → Bool
  | .commitTransition d => d.transactionId == id
  | _ => false

/-- The process is a scan that found the window of the transaction over, and has yet to load it or is
about to confirm it. -/
def countsOn (p : Process (anybody env)) (id : Uuid) : Bool :=
  match p.call, p.prog with
  | .scanAndRelease, some (.call op _) =>
      foundDue env p.hist id && (Op.commitsOn id op || !p.hist.any (Event.loads id))
  | _, _ => false

/-- The process is a scan about to confirm the transaction. -/
def aboutToConfirm (p : Process (anybody env)) (id : Uuid) : Bool :=
  match p.call, p.prog with
  | .scanAndRelease, some (.call op _) => Op.commitsOn id op
  | _, _ => false

/-- A transaction goes to `CONFIRMATION_PENDING` only where no scan still counts from an earlier
time, and a dispute about it is created only where no scan is about to confirm it. -/
def windowKept (env : Env) : Policy (anybody env) := fun x l =>
  match l with
  | .perform i _ =>
      match x.pending i with
      | some (_, ⟨.commitTransition d, _⟩) =>
          d.newState != .confirmationPending || x.procs.all fun p => !countsOn p d.transactionId
      | some (_, ⟨.disputeCreate d, _⟩) => x.procs.all fun p => !aboutToConfirm p d.transactionId
      | _ => true
  | _ => true

/-! ## What a call promises -/

/-- What the machine took an auto-confirmation on. -/
theorem transition_autoConfirm {s next : TransactionStatus} {context : TransactionContext}
    (hok : transition s .autoConfirm context = .ok next) :
    s = .confirmationPending ∧ next = .releaseProcessing ∧
      context.releaseRule = .autoAfterWindow ∧ context.hasOpenDispute = false ∧
        context.autoConfirmWindowElapsed = true := by
  cases s <;> simp only [transition, illegal, reject] at hok <;> try cases hok
  have hcontext := hok
  unfold autoConfirm at hcontext
  split at hcontext
  · cases hcontext
  · rename_i hrule
    split at hcontext
    · cases hcontext
    · rename_i helapsed
      exact ⟨rfl, (autoConfirm_ok hok).1, not_not.mp hrule, (autoConfirm_ok hok).2,
        by simpa using helapsed⟩

theorem timelineType_autoConfirm {event : TransactionEvent}
    (h : timelineType event = timelineType .autoConfirm) : event = .autoConfirm := by
  cases event <;> first | rfl | (revert h; simp [timelineType])

/-- What a scan confirms: it found the window over, and loaded the transaction just now. -/
structure Confirming (env : Env) (h : Hist) (d : TransitionWrite) : Prop where
  due : foundDue env h d.transactionId = true
  loaded : ∃ tx rest, h = (autoConfirmation d.transactionId).load tx [] :: rest ∧
    tx.releaseRule = .autoAfterWindow
  next : d.oldState = .confirmationPending ∧ d.newState = .releaseProcessing

/-- **The promise.** Only a scan confirms by the window; it loads every transaction once. -/
def Scans (env : Env) (c : Call) (h : Hist) : Op → Prop
  | .transactionFindWithDisputes id _ => c = .scanAndRelease → h.any (Event.loads id) = false
  | .commitTransition d => d.timeline.transactionId = d.transactionId ∧
      d.timeline.newState = d.newState.text ∧
      (d.timeline.type = timelineType .autoConfirm → c = .scanAndRelease) ∧
      (c = .scanAndRelease → Confirming env h d)
  | _ => True

theorem scans_commit {input : ApplyTransitionInput} {tx : Transaction}
    {nextState : TransactionStatus} (hevent : input.event ≠ .autoConfirm)
    (hc : c ≠ .scanAndRelease) : Scans env c h (.commitTransition (input.write tx nextState)) :=
  ⟨rfl, rfl, fun htype => absurd (timelineType_autoConfirm htype) hevent, fun h => absurd h hc⟩

/-- Only a scan applies an auto-confirmation, unless somebody drives one. -/
theorem not_autoConfirm {input : ApplyTransitionInput} (hin : c.Applies input)
    (hc : c ≠ .scanAndRelease) (hdrive : ∀ input, c ≠ .drive input) :
    input.event ≠ .autoConfirm := by
  cases c with
  | drive i => exact absurd rfl (hdrive i)
  | scanAndRelease => exact absurd rfl hc
  | initializeCollection i => obtain ⟨_, rfl⟩ := hin; exact TransactionEvent.noConfusion
  | initializeVirtualAccount _ _ _ => obtain ⟨_, rfl⟩ := hin; exact TransactionEvent.noConfusion
  | verify _ => obtain ⟨_, _, _, rfl⟩ := hin; exact TransactionEvent.noConfusion
  | reconcilePending => obtain ⟨_, _, _, rfl⟩ := hin; exact TransactionEvent.noConfusion
  | paystackWebhook _ _ =>
      rcases hin with ⟨_, _, _, rfl⟩ | heq
      · exact TransactionEvent.noConfusion
      · rw [heq]; exact TransactionEvent.noConfusion
  | markPaid _ _ | retryTransfer _ _ =>
      rw [show input.event = .payoutSucceeded from hin]; exact TransactionEvent.noConfusion
  | raiseDispute i => obtain rfl : input = i.event := hin; exact TransactionEvent.noConfusion
  | resolveDispute i =>
      obtain ⟨dispute, otherOpen, rfl⟩ := hin
      unfold ResolveDisputeInput.event
      cases i.outcome <;> exact TransactionEvent.noConfusion
  | confirm _ _ _ =>
      obtain rfl : input = _ := hin
      exact TransactionEvent.noConfusion
  | voidInvoice _ _ => obtain ⟨_, _, rfl⟩ := hin; exact TransactionEvent.noConfusion
  | sendInvoice _ _ => obtain ⟨_, rfl⟩ := hin; exact TransactionEvent.noConfusion
  | _ => exact hin.elim

theorem scans_of_does {op : Op} (hop : c.Does op) (hc : c ≠ .scanAndRelease)
    (hdrive : ∀ input, c ≠ .drive input) : Scans env c h op := by
  cases op with
  | transactionFindWithDisputes id statuses => exact fun heq => absurd heq hc
  | commitTransition d =>
      obtain ⟨input, tx, context, nextState, hin, -, rfl⟩ := hop
      exact scans_commit (not_autoConfirm hin hc hdrive) hc
  | _ => trivial

/-- The history grew without a load of any other transaction. -/
def LoadsOnly (id : Uuid) (h h' : Hist) : Prop :=
  ∃ l, h' = l ++ h ∧ ∀ e ∈ l, ∀ id', id' ≠ id → Event.loads id' e = false

theorem LoadsOnly.refl (id : Uuid) (h : Hist) : LoadsOnly id h h :=
  ⟨[], rfl, fun _ he => absurd he List.not_mem_nil⟩

theorem LoadsOnly.cons {h' : Hist} {e : Event Op.Ans Err} (hl : LoadsOnly id h h')
    (he : ∀ id', id' ≠ id → Event.loads id' e = false) : LoadsOnly id h (e :: h') := by
  obtain ⟨l, rfl, hl⟩ := hl
  refine ⟨e :: l, rfl, fun e' he' => ?_⟩
  rcases List.mem_cons.mp he' with rfl | he'
  · exact he
  · exact hl e' he'

theorem loads_other {id' : Uuid} {statuses : List DisputeStatus}
    (a : Except Err (Op.transactionFindWithDisputes id statuses).Ans) (hne : id' ≠ id) :
    Event.loads id' ⟨.transactionFindWithDisputes id statuses, a⟩ = false := by
  simpa [Event.loads] using hne.symm

theorem autoConfirmation_scans {Q : Except Err Transaction → Hist → Prop}
    (hdue : foundDue env h id = true) (hfresh : h.any (Event.loads id) = false)
    (hQ : ∀ r h', LoadsOnly id h h' → Q r h') :
    (apply (autoConfirmation id)).Along Possible (Scans env .scanAndRelease) Q h := by
  have hloaded : ∀ a, LoadsOnly id h (⟨.transactionFindWithDisputes id freezingDisputeStatuses, a⟩ ::
      h) := fun a => (LoadsOnly.refl id h).cons fun _ hne => loads_other a hne
  unfold apply
  rw [along_perform_bind]
  refine ⟨fun _ => hfresh, fun e _ => hQ _ _ (hloaded _), ?_⟩
  rintro (_ | ⟨tx, disputes⟩) -
  · exact hQ _ _ (hloaded _)
  dsimp only
  split
  · exact hQ _ _ (hloaded _)
  · rename_i nextState hok
    obtain ⟨hst, hnext, hrule, hno, -⟩ := transition_autoConfirm hok
    have hnone : disputes = [] := by
      simpa [ApplyTransitionInput.context, autoConfirmation] using hno
    subst hnone
    rw [along_perform_bind]
    refine ⟨⟨rfl, rfl, fun _ => rfl, fun _ => ⟨?_, ⟨tx, h, rfl, hrule⟩, hst, hnext⟩⟩,
      fun e _ => hQ _ _ ((hloaded _).cons fun _ _ => rfl), ?_⟩
    · obtain ⟨now, candidates, tx', enteredAt, hf, hmem, hid, hdue⟩ := foundDue_iff.mp hdue
      exact foundDue_iff.mpr ⟨now, candidates, tx', enteredAt, found_cons.mpr (.inl hf), hmem, hid,
        hdue⟩
    · rintro ⟨updatedTx, _ | eventId⟩ -
      · exact hQ _ _ ((hloaded _).cons fun _ _ => rfl)
      · refine (along_bind _ _).mpr ((along_tryCatch _ _).mpr ((along_perform _ _).mpr
          ⟨trivial, fun e _ => ?_, fun a _ => ?_⟩))
        · exact hQ _ _ (((hloaded _).cons fun _ _ => rfl).cons fun _ _ => rfl)
        · exact hQ _ _ (((hloaded _).cons fun _ _ => rfl).cons fun _ _ => rfl)

/-- The loop, by induction on the candidates left: it loaded none of them yet. -/
theorem scanEach_scans {now : Int} {candidates rest : List (Transaction × Option Int)}
    (released : Nat) (hf : found h = some (now, candidates)) (hsub : ∀ c ∈ rest, c ∈ candidates)
    (hnodup : (rest.map fun c => c.1.id).Nodup)
    (hfresh : ∀ c ∈ rest, h.any (Event.loads c.1.id) = false) :
    (scanEach env.windowMs now rest released).Along Possible (Scans env .scanAndRelease) done h := by
  induction rest generalizing released h with
  | nil => trivial
  | cons candidate rest ih =>
      rw [List.map_cons, List.nodup_cons] at hnodup
      have hskip : ∀ released, (scanEach env.windowMs now rest released).Along Possible
          (Scans env .scanAndRelease) done h := fun released =>
        ih released hf (fun c hc => hsub c (List.mem_cons_of_mem _ hc)) hnodup.2
          fun c hc => hfresh c (List.mem_cons_of_mem _ hc)
      obtain ⟨tx, _ | enteredAt⟩ := candidate
      · exact hskip released
      · unfold scanEach
        split
        · exact hskip released
        · rename_i hover
          have hrest : ∀ h' released, LoadsOnly tx.id h h' →
              (scanEach env.windowMs now rest released).Along Possible
                (Scans env .scanAndRelease) done h' := by
            rintro _ released ⟨l, rfl, hl⟩
            obtain ⟨l', rfl⟩ := found_cases hf
            refine ih released (by rw [← List.append_assoc]; exact found_append _)
              (fun c hc => hsub c (List.mem_cons_of_mem _ hc)) hnodup.2 fun c hc => ?_
            have hne : c.1.id ≠ tx.id := fun heq =>
              hnodup.1 (heq ▸ List.mem_map_of_mem (f := fun c => c.1.id) hc)
            rw [List.any_append, hfresh c (List.mem_cons_of_mem _ hc), Bool.or_false,
              List.any_eq_false]
            exact fun e he => by rw [hl e he _ hne]; exact Bool.false_ne_true
          have hdue : foundDue env h tx.id = true := foundDue_iff.mpr
            ⟨now, candidates, tx, enteredAt, hf, hsub _ List.mem_cons_self, rfl, by omega⟩
          rw [along_bind, along_tryCatch, along_bind]
          refine autoConfirmation_scans hdue (hfresh _ List.mem_cons_self) fun r h' hl => ?_
          cases r with
          | error e => exact hrest h' _ hl
          | ok updated =>
              rw [then_ok, along_perform_bind]
              exact ⟨trivial, fun _ _ => hrest _ _ (hl.cons fun _ _ => rfl),
                fun _ _ => hrest _ _ (hl.cons fun _ _ => rfl)⟩

/-- The candidates are different transactions. -/
theorem nodup_candidates {candidates : List (Transaction × Option Int)}
    (h : Possible ⟨.transactionFindAutoReleasable, .ok candidates⟩) :
    (candidates.map fun c => c.1.id).Nodup := by
  obtain ⟨o, u, w, he⟩ := h
  rcases exec_cases he with ⟨-, e, herr⟩ | ⟨s, -, -, ha | ⟨e, herr⟩⟩
  · cases herr
  · rw [Except.ok.inj ha, transactionFindAutoReleasable, List.map_map]
    refine List.pairwise_map.mpr ((u.transactions.distinct.filter _).imp fun hab heq => ?_)
    simp only [Function.comp_apply] at heq
    simp [Constrained.clash, heq] at hab
  · cases herr

/-- **Every call keeps the promise.** -/
theorem code_scans (hadm : anybodyAdmits env c w = true) :
    (code env c).Along Possible (Scans env c) done [] := by
  by_cases hdrive : ∃ input, c = .drive input
  · obtain ⟨input, rfl⟩ := hdrive
    rw [code, Prog.map_eq, along_bind]
    refine apply_traces (fun heq => by cases heq) (fun tx disputes nextState hok => ?_)
      (fun _ _ => trivial) (fun _ _ _ => trivial) fun _ _ _ _ _ _ _ _ => trivial
    refine scans_commit (fun hevent => ?_) Call.noConfusion
    rw [hevent] at hok
    have helapsed := (transition_autoConfirm hok).2.2.2.2
    have hnone : input.autoConfirmWindowElapsed = none := Option.isNone_iff_eq_none.mp hadm
    rw [ApplyTransitionInput.context, hnone] at helapsed
    cases helapsed
  · have hdrive' : ∀ input, c ≠ .drive input := fun input heq => hdrive ⟨input, heq⟩
    by_cases hc : c = .scanAndRelease
    · subst hc
      rw [code, Prog.map_eq, along_bind]
      unfold scanAndRelease
      rw [along_perform_bind]
      refine ⟨trivial, fun _ _ => trivial, fun now _ => ?_⟩
      rw [along_perform_bind]
      refine ⟨trivial, fun _ _ => trivial, fun candidates hpossible => ?_⟩
      refine (scanEach_scans 0 (found_pair now candidates) (fun c hc => hc)
        (nodup_candidates hpossible) fun c hc => rfl).mono fun r _ _ => ?_
      cases r <;> trivial
    · exact (code_does env c).along (fun h op hop => scans_of_does hop hc hdrive')
        fun _ _ _ => trivial

/-! ## What disputes and rules do -/

theorem frozen_iff : Frozen w id none ↔ ∃ d, w.filed d = some (id, true) := by
  rw [filed_open]
  exact exists_congr fun d => by simp

/-- Only a new dispute freezes a transaction. -/
theorem not_frozen_exec {op : Op} {o : Outcome} {a : Except Err op.Ans} (hdoes : c.Does op)
    (he : exec op o u = some (a, w)) (hnew : ∀ d, op = .disputeCreate d → d.transactionId ≠ id)
    (hu : ¬ Frozen u id none) : ¬ Frozen w id none := by
  rw [frozen_iff] at hu ⊢
  rintro ⟨d', hd'⟩
  by_cases hfail : ∃ m, o = .failed m
  · obtain ⟨m, rfl⟩ := hfail
    simp only [exec] at he
    split at he <;> cases he
    exact hu ⟨d', hd'⟩
  have hdone : ∀ m, o ≠ .failed m := fun m hm => hfail ⟨m, hm⟩
  cases op with
  | disputeCreate d =>
      obtain ⟨id', -, -, hw⟩ := exec_disputeCreate he hdone
      rw [hw] at hd'
      by_cases hid : d' = id'
      · rw [hid, Function.update_self, Option.some.injEq, Prod.mk.injEq] at hd'
        exact hnew d rfl hd'.1
      · exact hu ⟨d', by rwa [Function.update_of_ne hid] at hd'⟩
  | disputeUpdate id' d =>
      obtain ⟨i, -, hstatus⟩ := hdoes
      cases hold : u.filed id' with
      | none =>
          obtain ⟨s, -, rfl⟩ := exec_effect he hdone
          have hnone := Option.map_eq_none_iff.mp hold
          exact hu ⟨d', by simpa only [effect, disputeUpdate, hnone] using hd'⟩
      | some about =>
          obtain ⟨t', isOpen⟩ := about
          obtain ⟨-, hw⟩ := exec_disputeUpdate he hdone hold
          rw [hw] at hd'
          by_cases hid : d' = id'
          · have hclosed : freezingDisputeStatuses.contains i.outcome.status = false := by
              cases i.outcome <;> rfl
            rw [hid, Function.update_self, hstatus, hclosed, Option.some.injEq, Prod.mk.injEq] at hd'
            cases hd'.2
          · exact hu ⟨d', by rwa [Function.update_of_ne hid] at hd'⟩
  | _ => exact hu ⟨d', by rwa [exec_filed (fun _ => rfl) he] at hd'⟩

/-- Transactions stay, with their release rules. -/
def KeepsRules (u w : World) : Prop :=
  ∀ t ∈ u.transactions, ∃ t' ∈ w.transactions, t'.id = t.id ∧ t'.releaseRule = t.releaseRule

theorem keepsRules_change {op : Op} (hc : Change op u w) : KeepsRules u w := by
  cases hc with
  | frame same => exact fun t ht => ⟨t, same.transactions ▸ ht, rfl, rfl⟩
  | transactionCreate write => exact Table.exists_create write fun _ => ⟨rfl, rfl⟩
  | transactionUpdateBuyer write =>
      exact Table.exists_update write (fun _ => ⟨rfl, rfl⟩) fun _ _ _ => ⟨rfl, rfl⟩
  | commit found write =>
      exact Table.exists_update write (fun _ => ⟨rfl, rfl⟩) fun _ _ _ => ⟨rfl, rfl⟩
  | _ => exact fun t ht => ⟨t, ht, rfl, rfl⟩

theorem keepsRules_drift {m : Move} (hm : platformDrift m u = some w) : KeepsRules u w := by
  cases m with
  | merge source target =>
      obtain ⟨_, _, _, _, write, -, -, -, rfl⟩ := drift_merge hm
      exact Table.exists_update write (fun _ => ⟨rfl, rfl⟩) fun _ _ _ => ⟨rfl, rfl⟩
  | charge reference =>
      simp only [platformDrift, drift] at hm
      split at hm <;> cases hm
      exact fun t ht => ⟨t, ht, rfl, rfl⟩
  | _ => cases hm; exact fun t ht => ⟨t, ht, rfl, rfl⟩

/-- The transaction is one the window releases, and nothing freezes it. -/
def Releasable (w : World) (id : Uuid) : Prop :=
  ¬ Frozen w id none ∧ ∃ t ∈ w.transactions, t.id = id ∧ t.releaseRule = .autoAfterWindow

theorem Releasable.mono (hu : Releasable u id) (hfrozen : ¬ Frozen u id none → ¬ Frozen w id none)
    (hrules : KeepsRules u w) : Releasable w id := by
  obtain ⟨hno, t, ht, hid, hrule⟩ := hu
  obtain ⟨t', ht', hid', hrule'⟩ := hrules t ht
  exact ⟨hfrozen hno, t', ht', hid'.trans hid, hrule'.trans hrule⟩

/-- What an auto-confirmation loaded: a transaction nothing freezes. -/
theorem releasable_of_load {tx : Transaction} {o : Outcome}
    (he : exec (.transactionFindWithDisputes id freezingDisputeStatuses) o u =
      some (.ok (some (tx, [])), w)) (hrule : tx.releaseRule = .autoAfterWindow) :
    w = u ∧ Releasable w id := by
  have hsame : w = u := by
    rcases exec_cases he with ⟨hw, -⟩ | ⟨s, -, hw, -⟩
    · exact hw
    · exact hw
  subst hsame
  obtain ⟨ht, hid⟩ := exec_answered he
  have hclears : Clears .scanAndRelease (⟨.transactionFindWithDisputes id freezingDisputeStatuses,
      .ok (some (tx, []))⟩ : Event Op.Ans Err) id := ⟨rfl, rfl, rfl⟩
  exact ⟨rfl, not_frozen_of_clears hclears he fun _ _ => by rintro ⟨⟩, tx, ht, hid, hrule⟩

/-! ## What a run keeps -/

variable {x y : Config (anybody env)} {p : Process (anybody env)}

theorem countsOn_iff : countsOn p id = true ↔ p.call = .scanAndRelease ∧ ∃ op k,
    p.prog = some (.call op k) ∧ foundDue env p.hist id = true ∧
      (Op.commitsOn id op = true ∨ p.hist.any (Event.loads id) = false) := by
  obtain ⟨c, h, prog⟩ := p
  constructor
  · intro ha
    unfold countsOn at ha
    split at ha
    · rename_i op k hc hprog
      rw [Bool.and_eq_true, Bool.or_eq_true, Bool.not_eq_true'] at ha
      exact ⟨hc, op, k, hprog, ha.1, ha.2⟩
    · cases ha
  · rintro ⟨hc, op, k, hprog, hdue, hor⟩
    cases hc
    cases hprog
    simpa only [countsOn, Bool.and_eq_true, Bool.or_eq_true, Bool.not_eq_true'] using ⟨hdue, hor⟩

theorem aboutToConfirm_iff : aboutToConfirm p id = true ↔ p.call = .scanAndRelease ∧ ∃ d k,
    p.prog = some (.call (.commitTransition d) k) ∧ d.transactionId = id := by
  obtain ⟨c, h, prog⟩ := p
  constructor
  · intro ha
    unfold aboutToConfirm at ha
    split at ha
    · rename_i op k hc hprog
      unfold Op.commitsOn at ha
      split at ha
      · exact ⟨hc, _, k, hprog, by simpa using ha⟩
      · cases ha
    · cases ha
  · rintro ⟨hc, d, k, hprog, hid⟩
    cases hc
    cases hprog
    simpa [aboutToConfirm, Op.commitsOn] using hid

/-- **The invariant.** A transaction a scan still counts the window of has not been delivered anew,
and what a scan is about to confirm it may. -/
structure Counted (x : Config (anybody env)) : Prop where
  stamped : Stamped x.world
  entered : ∀ p ∈ x.procs, ∀ now candidates tx enteredAt, found p.hist = some (now, candidates) →
    (tx, some enteredAt) ∈ candidates → countsOn p tx.id = true →
      x.world.enteredAt tx.id = some enteredAt
  releasable : ∀ p ∈ x.procs, ∀ id, aboutToConfirm p id = true → Releasable x.world id

/-- What every call still promises. -/
theorem scans_promised {x : Config (anybody env)} (hx : Reaches Guard.free ⟨World.initial, []⟩ x)
    {p : Process (anybody env)} (hp : p ∈ x.procs) {op : Op}
    {k : Except Err op.Ans → Prog Op.Ans Err Reply} (hk : p.prog = some (.call op k)) :
    Scans env p.call p.hist op :=
  (promises (J := fun c => Scans env c) (R := fun _ => done) (fun hadm => code_scans hadm) hx p hp _
    hk).1

/-- A transaction that a scan still counts the window of is not delivered anew. -/
theorem enteredAt_perform {i : Nat} {choice : Outcome} {op : Op}
    {k : Except Err op.Ans → Prog Op.Ans Err Reply} {a : Except Err op.Ans}
    (hx : Reaches Guard.free ⟨World.initial, []⟩ x) (hst : Stamped x.world)
    (hP : windowKept env x (.perform i choice) = true) (hp : x.procs[i]? = some p)
    (hk : p.prog = some (.call op k)) (he : exec op choice x.world = some (a, y.world))
    {q : Process (anybody env)} (hq : q ∈ x.procs) (haw : countsOn q id = true) :
    y.world.enteredAt id = x.world.enteredAt id := by
  rcases exec_timeline he with hs | ⟨d, rfl, hrows, htimes⟩
  · exact hs.enteredAt id
  · obtain ⟨hid, hnew, -⟩ := scans_promised hx (List.mem_of_getElem? hp) hk
    refine enteredAt_commit hst hrows htimes ?_
    rintro ⟨htx, hstate⟩
    rw [hnew] at hstate
    have hstate := TransactionStatus.text_injective hstate
    simp only [windowKept, Config.pending_eq hp hk, hstate, bne_self_eq_false, Bool.false_or,
      List.all_eq_true, Bool.not_eq_true'] at hP
    rw [← htx, hid] at haw
    rw [hP q hq] at haw
    cases haw

/-- What a scan still counts after a step of its own, it counted before. -/
theorem countsOn_before {op : Op} {k : Except Err op.Ans → Prog Op.Ans Err Reply}
    {a : Except Err op.Ans} {r : Int × List (Transaction × Option Int)}
    (hk : p.prog = some (.call op k)) (hscans : Scans env p.call p.hist op)
    (hnext : ∀ op' k', k a = .call op' k' → Scans env p.call (⟨op, a⟩ :: p.hist) op')
    (hf : found p.hist = some r)
    (haw : countsOn (⟨p.call, ⟨op, a⟩ :: p.hist, some (k a)⟩ : Process (anybody env)) id = true) :
    countsOn p id = true := by
  obtain ⟨hc, op', k', hk', hdue, hor⟩ := countsOn_iff.mp haw
  have hdue' : foundDue env p.hist id = true := by
    unfold foundDue at hdue ⊢
    rwa [hf, ← found_cons.mpr (.inl hf)]
  refine countsOn_iff.mpr ⟨hc, op, k, hk, hdue', .inr ?_⟩
  rcases hor with hcommit | hno
  · unfold Op.commitsOn at hcommit
    split at hcommit
    · rename_i d
      -- it has just loaded the transaction, which it does once
      obtain ⟨-, -, -, hconfirming⟩ := hnext _ k' (Option.some.inj hk')
      obtain ⟨tx, rest, hload, -⟩ := (hconfirming hc).loaded
      obtain ⟨hev, rfl⟩ := List.cons.inj hload
      cases hev
      rw [← beq_iff_eq.mp hcommit]
      exact hscans hc
    · cases hcommit
  · rw [List.any_cons, Bool.or_eq_false_iff] at hno
    exact hno.2

theorem counted_perform {i : Nat} {choice : Outcome} {op : Op}
    {k : Except Err op.Ans → Prog Op.Ans Err Reply} {a : Except Err op.Ans}
    (hx : Reaches Guard.free ⟨World.initial, []⟩ x) (hy : Reaches Guard.free ⟨World.initial, []⟩ y)
    (hI : Counted x) (hP : windowKept env x (.perform i choice) = true)
    (hp : x.procs[i]? = some p) (hk : p.prog = some (.call op k))
    (he : exec op choice x.world = some (a, y.world))
    (hprocs : y.procs = x.procs.set i ⟨p.call, ⟨op, a⟩ :: p.hist, some (k a)⟩) : Counted y := by
  have hmem := List.mem_of_getElem? hp
  have hself : ⟨p.call, ⟨op, a⟩ :: p.hist, some (k a)⟩ ∈ y.procs := hprocs ▸ mem_set_self hp
  have hscans := scans_promised hx hmem hk
  have hnext : ∀ op' k', k a = .call op' k' → Scans env p.call (⟨op, a⟩ :: p.hist) op' :=
    fun op' k' heq => scans_promised hy hself (congrArg some heq)
  refine ⟨stamped_exec hI.stamped he, ?_, ?_⟩
  · intro q hq now candidates tx enteredAt hf hcand haw
    rw [hprocs] at hq
    rcases List.mem_or_eq_of_mem_set hq with hq | rfl
    · rw [enteredAt_perform hx hI.stamped hP hp hk he hq haw]
      exact hI.entered q hq now candidates tx enteredAt hf hcand haw
    · rcases found_cons.mp hf with hf | ⟨hev, -⟩
      · have haw := countsOn_before hk hscans hnext hf haw
        rw [enteredAt_perform hx hI.stamped hP hp hk he hmem haw]
        exact hI.entered p hmem now candidates tx enteredAt hf hcand haw
      · cases hev
        rcases exec_cases he with ⟨-, e, herr⟩ | ⟨s, -, hw, ha | ⟨e, herr⟩⟩
        · cases herr
        · have hall : candidates = transactionFindAutoReleasable x.world := Except.ok.inj ha
          rw [hall] at hcand
          obtain ⟨t, -, heq⟩ := List.mem_map.mp hcand
          obtain ⟨rfl, hentered⟩ := Prod.mk.inj heq
          rw [hw]
          exact hentered
        · cases herr
  · intro q hq id hc
    rw [hprocs] at hq
    rcases List.mem_or_eq_of_mem_set hq with hold | rfl
    · refine (hI.releasable q hold id hc).mono ?_ (keepsRules_change (exec_change he))
      have hdoes : p.call.Does op := (Reaches.uses (fun c => code_does env c) hx p hmem _ hk).1
      refine not_frozen_exec hdoes he fun d hd htx => ?_
      subst hd
      simp only [windowKept, Config.pending_eq hp hk, List.all_eq_true, Bool.not_eq_true'] at hP
      rw [← htx, hP q hold] at hc
      cases hc
    · obtain ⟨hcall, d, k', hk', rfl⟩ := aboutToConfirm_iff.mp hc
      obtain ⟨-, -, -, hconfirming⟩ := hnext _ k' (Option.some.inj hk')
      obtain ⟨tx, rest, hload, hrule⟩ := (hconfirming hcall).loaded
      obtain ⟨hev, rfl⟩ := List.cons.inj hload
      cases hev
      exact (releasable_of_load he hrule).2

theorem countsOn_ended {q : Process (anybody env)} : countsOn { q with prog := none } id = false := by
  unfold countsOn
  split
  · rename_i hprog
    cases hprog
  · rfl

theorem aboutToConfirm_ended {q : Process (anybody env)} :
    aboutToConfirm { q with prog := none } id = false := by
  unfold aboutToConfirm
  split
  · rename_i hprog
    cases hprog
  · rfl

theorem counted_step {l : Label (anybody env)} (hx : Reaches Guard.free ⟨World.initial, []⟩ x)
    (hI : Counted x) (hP : windowKept env x l = true) (hl : x.next Guard.free l = some y) :
    Counted y := by
  have hy : Reaches Guard.free ⟨World.initial, []⟩ y := hx.tail ⟨l, hl⟩
  cases Config.next_step hl with
  | perform hp hk he hprocs => exact counted_perform hx hy hI hP hp hk he hprocs
  | @arrive c hadm hw hprocs =>
      refine ⟨hw ▸ hI.stamped, fun q hq now candidates tx enteredAt hf => ?_, fun q hq id hc => ?_⟩
      · rw [hprocs] at hq
        rcases List.mem_append.mp hq with hq | hq
        · rw [hw]
          exact hI.entered q hq now candidates tx enteredAt hf
        · rw [List.mem_singleton.mp hq] at hf
          cases hf
      · rw [hprocs] at hq
        rw [hw]
        rcases List.mem_append.mp hq with hq | hq
        · exact hI.releasable q hq id hc
        · rw [List.mem_singleton.mp hq] at hc
          obtain ⟨hcall, d, k, hk, -⟩ := aboutToConfirm_iff.mp hc
          cases hcall
          cases hk
  | @crash i p hp hw hprocs =>
      refine ⟨hw ▸ hI.stamped, fun q hq now candidates tx enteredAt hf hmem haw => ?_,
        fun q hq id hc => ?_⟩
      · rw [hprocs] at hq
        rw [hw]
        rcases List.mem_or_eq_of_mem_set hq with hq | rfl
        · exact hI.entered q hq now candidates tx enteredAt hf hmem haw
        · rw [countsOn_ended] at haw
          cases haw
      · rw [hprocs] at hq
        rw [hw]
        rcases List.mem_or_eq_of_mem_set hq with hq | rfl
        · exact hI.releasable q hq id hc
        · rw [aboutToConfirm_ended] at hc
          cases hc
  | @drift m hm hprocs =>
      have hsame := platformDrift_timeline hm
      refine ⟨hsame.stamped hI.stamped, fun q hq now candidates tx enteredAt hf hmem haw => ?_,
        fun q hq id hc => ?_⟩
      · rw [hsame.enteredAt]
        exact hI.entered q (hprocs ▸ hq) now candidates tx enteredAt hf hmem haw
      · refine (hI.releasable q (hprocs ▸ hq) id hc).mono (fun hno => ?_) (keepsRules_drift hm)
        rwa [frozen_iff, (sameDocket_drift hm).2, ← frozen_iff]

theorem counted_of_follows (hx : Follows (windowKept env) ⟨World.initial, []⟩ x) : Counted x := by
  refine hx.invariant ⟨rfl, fun p hp => ?_, fun p hp => ?_⟩ fun hu hI hP hl =>
    counted_step hu hI hP hl
  · cases hp
  · cases hp

/-! ## Every auto-confirmation -/

/-- In the step from `x` to `y`, process `i` commits an auto-confirmation of the transaction. -/
def AutoConfirms (x y : Config (anybody env)) (i : Nat) (id : Uuid) : Prop :=
  ∃ (p : Process (anybody env)) (d : TransitionWrite)
    (k : Except Err (Op.commitTransition d).Ans → Prog Op.Ans Err Reply),
    x.procs[i]? = some p ∧ p.prog = some (.call (.commitTransition d) k) ∧
      d.timeline.type = timelineType .autoConfirm ∧ d.transactionId = id ∧
        y.world.timeline = x.world.timeline ++ [d.timeline]

/-- The transaction is delivered, its rule is the window, nothing freezes it, and its last row says
that it was delivered a window before `now`. -/
structure Elapsed (windowMs now : Int) (w : World) (id : Uuid) : Prop where
  pending : ∃ t ∈ w.transactions, t.id = id ∧ t.status = .confirmationPending ∧
    t.releaseRule = .autoAfterWindow
  unfrozen : ¬ Frozen w id none
  since : ∃ row enteredAt, w.lastRow id = some (row, enteredAt) ∧
    row.newState = TransactionStatus.confirmationPending.text ∧ windowMs ≤ now - enteredAt

/-- The auto-confirmation is a scan's, and at the time it read the window was over. -/
def ConfirmsElapsed (x : Config (anybody env)) (i : Nat) (id : Uuid) : Prop :=
  ∃ (p : Process (anybody env)) (now : Int), x.procs[i]? = some p ∧ p.call = .scanAndRelease ∧
    Saw p.hist .now now ∧ Elapsed env.windowMs now x.world id

theorem journal_anybody (hx : Reaches Guard.free ⟨World.initial, []⟩ x) : Journal x.world :=
  (((journal env).restrict anybodyAdmits_eventful drift_of_platform).holds_reaches
    (((journal env).restrict anybodyAdmits_eventful drift_of_platform).holds_init
      journal_initial) hx).1.inv

/-- A commit that left its row found the transaction in the state it was loaded in. -/
theorem found_of_row {d : TransitionWrite} {o : Outcome} {a : Except Err (Op.commitTransition d).Ans}
    (he : exec (.commitTransition d) o u = some (a, w))
    (hrow : w.timeline = u.timeline ++ [d.timeline]) :
    ∃ t ∈ u.transactions, t.id = d.transactionId ∧ t.status = d.oldState := by
  have hchanged : w ≠ u := by
    rintro rfl
    simp at hrow
  rcases exec_cases he with ⟨hw, -⟩ | ⟨s, -, hw, -⟩
  · exact absurd hw hchanged
  · rcases commitTransition_world d s u with heq | ⟨t, transactions, hfind, -, -⟩
    · exact absurd (hw.trans heq) hchanged
    · obtain ⟨ht, hsel⟩ := Table.find_spec hfind
      exact ⟨t, ht, by simpa [TransitionWrite.selects] using hsel⟩

/-- **Auto-confirmation needs an unbroken window.** In every run in which no transaction is delivered
anew while a scan still counts from its earlier delivery, and no dispute about it is created while a
scan is about to confirm it, every auto-confirmation that commits is of a transaction whose rule is
the window, that nothing freezes and that has been delivered for the window before the scan's time. -/
theorem autoConfirm_unbroken (env : Env) {x y : Config (anybody env)} {i : Nat} {choice : Outcome}
    {id : Uuid} (hx : Follows (windowKept env) ⟨World.initial, []⟩ x)
    (hl : x.next Guard.free (.perform i choice) = some y) (hc : AutoConfirms x y i id) :
    ConfirmsElapsed x i id := by
  obtain ⟨p, d, k, hp, hk, htype, rfl, hrow⟩ := hc
  obtain ⟨a, -, he, -⟩ := Config.next_perform hp hk hl
  have hmem := List.mem_of_getElem? hp
  obtain ⟨-, -, hscan, hconfirming⟩ := scans_promised hx.reaches hmem hk
  have hcall := hscan htype
  have hconf := hconfirming hcall
  have hI := counted_of_follows hx
  obtain ⟨hunfrozen, t₁, ht₁, hid₁, hrule⟩ :=
    hI.releasable p hmem d.transactionId (aboutToConfirm_iff.mpr ⟨hcall, d, k, hk, rfl⟩)
  have haw : countsOn p d.transactionId = true :=
    countsOn_iff.mpr ⟨hcall, _, k, hk, hconf.due, .inl (beq_self_eq_true _)⟩
  obtain ⟨now, candidates, tx, enteredAt, hf, hcand, hid, hdue⟩ := foundDue_iff.mp hconf.due
  have hentered : x.world.enteredAt d.transactionId = some enteredAt := by
    rw [← hid] at haw ⊢
    exact hI.entered p hmem now candidates tx enteredAt hf hcand haw
  obtain ⟨t, ht, htid, hst⟩ := found_of_row he hrow
  rw [hconf.next.1] at hst
  have hsame : t₁ = t := Table.eq_of_clash ht₁ ht (by simp [Constrained.clash, hid₁, htid])
  subst hsame
  obtain ⟨⟨row, time⟩, hlast, hnew⟩ := lastRow_of_status (journal_anybody hx.reaches) hI.stamped ht
    (by rw [hst]; exact TransactionStatus.noConfusion)
  rw [hst] at hnew
  rw [htid] at hlast
  have htime : x.world.enteredAt d.transactionId = some time := by
    have hfind := find?_and (q := fun e : TimelineEvent × Int =>
      e.1.newState == TransactionStatus.confirmationPending.text) hlast (beq_iff_eq.mpr hnew)
    rw [World.enteredAt, hfind]
    rfl
  obtain rfl : enteredAt = time := Option.some.inj (hentered.symm.trans htime)
  obtain ⟨l, hl⟩ := found_cases hf
  refine ⟨p, now, hp, hcall, ?_, ⟨t₁, ht, htid, hst, hrule⟩, hunfrozen, row, enteredAt, hlast, hnew,
    hdue⟩
  rw [Saw, hl]
  exact List.mem_append_right _ (List.mem_cons_of_mem _ (List.mem_singleton_self _))

namespace Demo

variable (env : Env)

/-- A sale by the window, delivered, and the window is over. -/
def delivered : List (Label (core env)) :=
  .arrive (.create (.web seller
    { title := "Phone", amount := 1000, releaseRule := some .autoAfterWindow })) :: serves env 0 3 ++
  drives env 1 .sellerPublish ++ drives env 2 .buyerInitiateCheckout ++
  drives env 3 (.paymentVerified .webhook) ++ drives env 4 .sellerStartDelivery ++
  drives env 5 .sellerMarkDelivered ++ [.drift (.tick 259200000)]

/-- A scan up to its candidates. -/
def scanning : List (Label (core env)) := .arrive .scanAndRelease :: serves env 6 2

/-- A complaint that is withdrawn, and another delivery. -/
def redelivered : List (Label (core env)) :=
  drives env 7 .raiseDispute ++ drives env 8 .withdrawDispute ++
  drives env 9 .sellerStartDelivery ++ drives env 10 .sellerMarkDelivered

/-- The scan commits its auto-confirmation of the sale; `elapsed` is whether the window was over. -/
def confirmation (elapsed : Bool) (x y : Config (anybody env)) : Bool :=
  match (x.procs[6]? : Option (Process (anybody env))) with
  | some ⟨.scanAndRelease, h, some (.call (.commitTransition d) _)⟩ =>
      d.transactionId == sale && d.timeline.type == timelineType .autoConfirm &&
        y.world.timeline == x.world.timeline ++ [d.timeline] &&
        (x.world.lastRow sale).all fun e => h.all fun event => match event with
          | ⟨.now, .ok now⟩ => decide (env.windowMs ≤ now - e.2) == elapsed
          | _ => true
  | _ => false

theorem autoConfirms_of_confirmation {env : Env} {elapsed : Bool} {x y : Config (anybody env)}
    (h : confirmation env elapsed x y = true) : AutoConfirms x y 6 sale ∧
      ∀ (p : Process (anybody env)) now row enteredAt, x.procs[6]? = some p → Saw p.hist .now now →
        x.world.lastRow sale = some (row, enteredAt) →
          decide (env.windowMs ≤ now - enteredAt) = elapsed := by
  unfold confirmation at h
  split at h
  · rename_i hist d k hp
    simp only [Bool.and_eq_true, beq_iff_eq] at h
    obtain ⟨⟨⟨hid, htype⟩, hrow⟩, hall⟩ := h
    refine ⟨⟨_, d, k, hp, rfl, htype, hid, hrow⟩, fun p now row enteredAt hp' hsaw hlast => ?_⟩
    cases hp.symm.trans hp'
    rw [hlast, Option.all_some, List.all_eq_true] at hall
    exact beq_iff_eq.mp (hall _ hsaw)
  · cases h

end Demo

set_option maxRecDepth 20000 in
/-- **A window counted from an earlier delivery.** Between a scan's reading and its commit the sale
is disputed, the dispute withdrawn, and the sale delivered again. -/
theorem autoConfirm_broken : ¬ ∀ (env : Env) (x y : Config (anybody env)) (i : Nat)
    (choice : Outcome) (id : Uuid), Reaches Guard.free ⟨World.initial, []⟩ x →
      x.next Guard.free (.perform i choice) = some y → AutoConfirms x y i id →
        ConfirmsElapsed x i id := by
  intro hall
  have hrun : (((Config.run Guard.free ((Demo.delivered Demo.silent ++ Demo.scanning Demo.silent ++
      Demo.redelivered Demo.silent ++ Demo.serves Demo.silent 6 1).map Label.within)
        ⟨World.initial, []⟩ : Option (Config (anybody Demo.silent))).bind fun x =>
          (x.next Guard.free (.perform 6 (.served { id := Demo.sale }))).map
            (Demo.confirmation Demo.silent false x)) = some true) := by decide
  obtain ⟨x, hx, hnext⟩ := Option.bind_eq_some_iff.mp hrun
  obtain ⟨y, hy, htest⟩ := Option.map_eq_some_iff.mp hnext
  obtain ⟨hconfirms, hlate⟩ := Demo.autoConfirms_of_confirmation htest
  obtain ⟨p, now, hp, -, hsaw, -, -, row, enteredAt, hlast, -, hdue⟩ :=
    hall _ x y 6 _ Demo.sale (reaches_of_run hx) hy hconfirms
  exact of_decide_eq_false (hlate p now row enteredAt hp hsaw hlast) hdue

set_option maxRecDepth 20000 in
/-- A scan confirms a sale that stayed delivered. -/
theorem autoConfirm_unbroken_sale : ∃ x : Config (anybody Demo.silent),
    ConfirmsElapsed x 6 Demo.sale := by
  have hrun : ((Config.follow (windowKept Demo.silent) ((Demo.delivered Demo.silent ++
      Demo.scanning Demo.silent ++ Demo.serves Demo.silent 6 1).map Label.within)
        ⟨World.initial, []⟩).bind fun x =>
          (x.next Guard.free (.perform 6 (.served { id := Demo.sale }))).map
            (Demo.confirmation Demo.silent true x)) = some true := by decide
  obtain ⟨x, hx, hnext⟩ := Option.bind_eq_some_iff.mp hrun
  obtain ⟨y, hy, htest⟩ := Option.map_eq_some_iff.mp hnext
  exact ⟨x, autoConfirm_unbroken Demo.silent (follows_of_follow hx) hy
    (Demo.autoConfirms_of_confirmation htest).1⟩

end Meduman
