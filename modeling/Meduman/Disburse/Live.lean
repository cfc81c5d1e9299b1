import Meduman.Core.Does
import Meduman.Disburse.Once

/-!
# Live transfers

A sender records the transfer it asked for, or the one it finds in its place. It looks at neither
the status of the transfer it finds nor at what was reported since it sent its own.

* `inHand` : the transfer a call is about to record
* `FailureReported` : Paystack told some call that a transfer failed or was reversed
* `timely` : no report while a transfer is in hand, no dead transfer found in place of one's own
* **`recorded_live`** : then every recorded transfer is a live one
* `recorded_dead` : otherwise a job run again adopts the transfer that failed
-/

set_option autoImplicit false

namespace Meduman

open Effect

/-- The reference and the code a call takes in hand: of the transfer it sent, or of the one it finds
after it tried to. Writing the payout lets go of them. -/
def taken (h : Hist) : Event Op.Ans Err → Option (Option (String × String))
  | ⟨.initiateTransfer i, .ok r⟩ => some (some (i.reference, r.transferCode))
  | ⟨.fetchTransfer reference, .ok v⟩ =>
      some (if h.any fun e => e.op.isTransfer then some (reference, v.transferCode) else none)
  | ⟨.payoutUpdate .., _⟩ => some none
  | _ => none

/-- The transfer a call has in hand. -/
def inHand : Hist → Option (String × String)
  | [] => none
  | e :: h => (taken h e).getD (inHand h)

/-- The transfer under this reference failed or was reversed. -/
def World.dead (w : World) (reference : String) : Bool :=
  w.paystack.transfers.any fun t =>
    t.reference == reference && (t.status == .failed || t.status == .reversed)

/-- Paystack told some call that the transfer under this reference failed or was reversed: by a
webhook, or in its answer to a lookup. -/
def FailureReported {env : Env} (x : Config (core env)) (reference : String) : Prop :=
  ∃ p ∈ x.procs, ReportsFailed env p.call reference ∨ ∃ v, Saw p.hist (.fetchTransfer reference) v ∧
    (v.status = TransferStatus.failed.text ∨ v.status = TransferStatus.reversed.text)

/-- Some call is about to record a payout as `PROCESSING`, with these columns. -/
def Recording {env : Env} (x : Config (core env)) (d : PayoutUpdate) : Prop :=
  ∃ p ∈ x.procs, ∃ key k, p.prog = some (.call (.payoutUpdate key d) k) ∧
    d.status = some .processing

/-- The columns name a transfer Paystack did not report as failed or reversed. -/
def NamesLive {env : Env} (x : Config (core env)) (d : PayoutUpdate) : Prop :=
  ∃ t ∈ (World.paystack x.world).transfers, d.providerTransferReference = some (some t.reference) ∧
    d.providerTransferCode = some (some t.transferCode) ∧ ¬ FailureReported x t.reference

variable (env : Env)

/-- `ReportsFailed`, decided. -/
def reportsFailed (c : Call) (key : String) : Bool :=
  match c with
  | .markFailed k _ _ => k == key
  | .paystackWebhook rawBody signature =>
      verifyWebhookSignature env rawBody signature && (env.parse rawBody).any fun payload =>
        truthy payload.dataOrEmpty.reference == some key &&
          (payload.event == "transfer.failed" || payload.event == "transfer.reversed")
  | _ => false

/-- The references of the transfers in the hands of the calls in progress. -/
def handled (x : Config (core env)) : List String :=
  x.procs.filterMap fun p => if p.prog.isSome then (inHand p.hist).map Prod.fst else none

/-- The reference under which a lookup finds a failed or reversed transfer. -/
def Op.findsDead (o : Outcome) (w : World) : Op → Option String
  | .fetchTransfer reference => match o with
      | .failed _ => none
      | _ => if w.dead reference then some reference else none
  | _ => none

/-- No report, and no answer of a lookup, tells of the failure of a transfer some call has in hand,
and no sender finds a failed or reversed transfer in place of its own. -/
def timely : Policy (core env) := fun x l =>
  match l with
  | .arrive c => (handled env x).all fun reference => !reportsFailed env c reference
  | .perform i o => match x.pending i with
      | some (p, ⟨op, _⟩) => (op.findsDead o x.world).all fun reference =>
          !(p.hist.any fun e => e.op.isTransfer) && !(handled env x).contains reference
      | none => true
  | _ => true

variable {env} {c : Call} {h : Hist} {u w : World} {x y : Config (core env)}

theorem reportsFailed_iff {key : String} :
    reportsFailed env c key = true ↔ ReportsFailed env c key := by
  unfold reportsFailed ReportsFailed
  cases c with
  | markFailed k status reason => exact beq_iff_eq
  | paystackWebhook rawBody signature =>
      simp only [Bool.and_eq_true, Option.any_eq_true, beq_iff_eq, Bool.or_eq_true]
  | _ => exact ⟨fun hf => (Bool.false_ne_true hf).elim, False.elim⟩

theorem dead_iff {reference : String} : w.dead reference = true ↔ ∃ t ∈ w.paystack.transfers,
    t.reference = reference ∧ (t.status = .failed ∨ t.status = .reversed) := by
  simp only [World.dead, List.any_eq_true, Bool.and_eq_true, beq_iff_eq, Bool.or_eq_true]

/-- A dead transfer stays dead. -/
theorem dead_mono (hg : Grows u w) {reference : String} (hd : u.dead reference = true) :
    w.dead reference = true := by
  obtain ⟨t, ht, href, hover⟩ := dead_iff.mp hd
  obtain ⟨t', ht', hl⟩ := hg.transfers t ht
  rw [hl.terminal hover] at ht'
  exact dead_iff.mpr ⟨t, ht', href, hover⟩

theorem TransferStatus.text_injective {a b : TransferStatus} (h : a.text = b.text) : a = b := by
  revert h
  cases a <;> cases b <;> decide

/-! ## What a sender records -/

/-- What is recorded as `PROCESSING` is the transfer in hand. -/
def RecordsInHand (h : Hist) : Op → Prop
  | .payoutUpdate _ d => d.status = some .processing → ∃ reference code,
      inHand h = some (reference, code) ∧ d.providerTransferReference = some (some reference) ∧
        d.providerTransferCode = some (some code)
  | _ => True

/-- The operation records nothing as `PROCESSING`. -/
def Op.recordsNothing : Op → Prop
  | .payoutUpdate _ d => d.status ≠ some .processing
  | _ => True

theorem records_of_recordsNothing (h : Hist) (op : Op) (hop : op.recordsNothing) :
    RecordsInHand h op := by
  cases op with
  | payoutUpdate key d => exact fun hd => absurd hd hop
  | _ => trivial

theorem recordsNothing_of_does (hc : ¬ c.Disburses) (op : Op) (hd : c.Does op) :
    op.recordsNothing := by
  cases op with
  | payoutUpdate key d => exact fun hst => hc (hd hst)
  | _ => trivial

variable {α : Type} {P : Event Op.Ans Err → Prop}

/-- A program that records nothing. -/
theorem along_recordsNothing {p : Program α} (hp : p.Uses Op.recordsNothing) :
    p.Along P RecordsInHand (fun _ _ => True) h :=
  hp.along records_of_recordsNothing fun _ _ _ => trivial

theorem records_bind {β : Type} {p : Program α} {f : α → Program β}
    (hp : p.Along P RecordsInHand (fun _ _ => True) h)
    (hf : ∀ a h', (f a).Along P RecordsInHand (fun _ _ => True) h') :
    (p >>= f).Along P RecordsInHand (fun _ _ => True) h := by
  rw [along_bind]
  refine hp.mono fun r h' _ => ?_
  cases r with
  | ok a => exact hf a h'
  | error e => trivial

theorem recordTransferSent_records {payout : Payout} {code reference : String}
    {Q : Except Err Payout → Hist → Prop} (hin : inHand h = some (reference, code))
    (hQ : ∀ r l, Q r (l ++ h)) :
    (recordTransferSent payout code reference).Along P RecordsInHand Q h := by
  unfold recordTransferSent
  rw [along_perform_bind]
  refine ⟨fun _ => ⟨reference, code, hin, rfl, rfl⟩, fun e _ => hQ _ [_], fun updated _ => ?_⟩
  rw [along_perform_bind]
  exact ⟨trivial, fun e _ => hQ _ [_, _], fun _ _ => hQ _ [_, _]⟩

/-- After the attempt to send, a lookup takes what it finds in hand. -/
theorem inHand_fetch {reference : String} {v : VerifyTransferResult}
    (hsent : (h.any fun e => e.op.isTransfer) = true) :
    inHand (⟨.fetchTransfer reference, .ok v⟩ :: h) = some (reference, v.transferCode) := by
  rw [inHand, taken, if_pos hsent, Option.getD_some]

/-- The handler records the transfer it finds, having tried to send its own. -/
theorem adopt_records {payout : Payout} {reference : String} (err : Err)
    (hsent : (h.any fun e => e.op.isTransfer) = true) :
    (adopt payout reference err).Along P RecordsInHand (fun _ _ => True) h := by
  unfold adopt verifyTransfer
  rw [along_bind, along_tryCatch, along_perform_bind]
  refine ⟨trivial, fun e' _ => ?_, fun v _ => ?_⟩
  · refine along_recordsNothing (uses_bind (uses_perform ?_) fun _ => ?_)
    · exact fun hst => by cases hst
    · exact uses_bind (uses_perform trivial) fun _ => trivial
  · exact recordTransferSent_records (inHand_fetch hsent) fun _ _ => trivial

theorem sendTransfer_records (payout : Payout) (reference : Option String) :
    (sendTransfer payout reference).Along P RecordsInHand (fun _ _ => True) h := by
  unfold sendTransfer
  split
  · trivial
  rw [along_perform_bind]
  refine ⟨trivial, fun e _ => trivial, fun seller _ => ?_⟩
  split
  · trivial
  rename_i recipient hrec
  rw [along_tryCatch, along_perform_bind]
  refine ⟨trivial, fun e _ => adopt_records e rfl, fun r _ => ?_⟩
  refine recordTransferSent_records rfl fun r' l => ?_
  cases r' with
  | ok _ => trivial
  | error e => exact adopt_records e (by simp [Op.isTransfer])

theorem executeRelease_records (transactionId : Uuid) :
    (executeRelease transactionId).Along P RecordsInHand (fun _ _ => True) h := by
  unfold executeRelease
  refine records_bind (along_recordsNothing (uses_perform trivial)) fun tx h₁ => ?_
  cases tx with
  | none => trivial
  | some tx =>
      dsimp only
      split
      · trivial
      · refine records_bind (along_recordsNothing (uses_perform trivial)) fun openDisputes h₂ => ?_
        split
        · trivial
        · refine records_bind (along_recordsNothing (uses_tryCatch (uses_perform trivial)
            fun err => ?_)) fun payout h₃ => sendTransfer_records payout none
          split
          · refine uses_bind (uses_perform trivial) fun existing => ?_
            cases existing <;> trivial
          · trivial

theorem markPaid_recordsNothing (key code : String) :
    (markPaid key code).Uses Op.recordsNothing := by
  have hpaid : ∀ input : ApplyTransitionInput, input.event = .payoutSucceeded →
      (Call.markPaid key code).Applies input := fun _ hev => hev
  exact (markPaid_does hpaid key code).mono (recordsNothing_of_does id)

theorem retryTransfer_records (key adminId : String) :
    (retryTransfer key adminId).Along P RecordsInHand (fun _ _ => True) h := by
  unfold retryTransfer
  refine records_bind (along_recordsNothing (uses_perform trivial)) fun payout h₁ => ?_
  cases payout with
  | none => trivial
  | some payout =>
      dsimp only
      split
      · trivial
      · split
        · trivial
        · refine records_bind (along_recordsNothing (uses_perform trivial)) fun openDisputes h₂ => ?_
          split
          · trivial
          · refine records_bind (along_recordsNothing (uses_tryCatch
              (uses_bind (uses_perform trivial) fun _ => trivial) fun _ => trivial))
              fun prior h₃ => ?_
            split
            · exact along_recordsNothing (uses_bind (uses_perform trivial) fun _ =>
                markPaid_recordsNothing _ _)
            · refine records_bind (along_recordsNothing (uses_perform trivial)) fun _ h₄ => ?_
              refine records_bind (along_recordsNothing (uses_perform ?_)) fun reset h₅ =>
                sendTransfer_records reset _
              exact fun hst => by cases hst

theorem records_map {β : Type} {f : α → β} {p : Program α}
    (hp : p.Along P RecordsInHand (fun _ _ => True) h) :
    (f <$> p).Along P RecordsInHand (fun _ _ => True) h := by
  rw [Prog.map_eq]
  exact records_bind hp fun _ _ => trivial

theorem processRelease_records (transactionId : Uuid) :
    (processRelease transactionId).Along P RecordsInHand (fun _ _ => True) h := by
  unfold processRelease
  refine records_bind (along_recordsNothing (uses_perform trivial)) fun start h₁ => ?_
  have executed : ∀ h', Prog.Along P RecordsInHand (fun _ _ => True) (do
      let _ ← executeRelease transactionId
      pure true : Program Bool) h' := fun h' =>
    records_bind (executeRelease_records transactionId) fun _ _ => trivial
  refine records_bind ?_ fun done h₂ => ?_
  · rw [along_tryCatch]
    refine (executed h₁).mono fun r h' _ => ?_
    cases r <;> trivial
  · split
    · exact along_recordsNothing (uses_perform trivial)
    · exact along_recordsNothing (uses_perform trivial)

/-- **Every call records the transfer it has in hand.** -/
theorem code_records (env : Env) (c : Call) :
    (code env c).Along P RecordsInHand (fun _ _ => True) [] := by
  by_cases hc : c.Disburses
  · cases c with
    | executeRelease id => exact records_map (executeRelease_records id)
    | processRelease id => exact records_map (processRelease_records id)
    | retryTransfer key adminId => exact records_map (retryTransfer_records key adminId)
    | _ => exact hc.elim
  · exact along_recordsNothing ((code_does env c).mono (recordsNothing_of_does hc))

/-! ## Who was told -/

/-- A lookup that says so found a dead transfer. -/
theorem dead_of_fetch {reference : String} {o : Outcome} {v : VerifyTransferResult}
    (he : exec (.fetchTransfer reference) o u = some (.ok v, w))
    (hv : v.status = TransferStatus.failed.text ∨ v.status = TransferStatus.reversed.text) :
    u.dead reference = true := by
  obtain ⟨t, ht, href, rfl⟩ : ∃ t ∈ u.paystack.transfers, t.reference = reference ∧
      v = ⟨t.transferCode, t.status.text⟩ := exec_answered he
  exact dead_iff.mpr ⟨t, ht, href, hv.imp TransferStatus.text_injective
    TransferStatus.text_injective⟩

/-- What a lookup said is still so. -/
theorem dead_of_saw (hx : Reachable env Guard.free x) {reference : String}
    {v : VerifyTransferResult}
    (hv : v.status = TransferStatus.failed.text ∨ v.status = TransferStatus.reversed.text) :
    ∀ p ∈ x.procs, Saw p.hist (.fetchTransfer reference) v →
      World.dead x.world reference = true := by
  induction hx with
  | refl => exact fun p hp => absurd hp List.not_mem_nil
  | @tail y z hy hstep ih =>
      obtain ⟨l, hl⟩ := hstep
      have hholds : (ground env).Holds y := Reachable.holds hy
      have hg : Grows y.world z.world := ((ground env).holds_next hholds hl).2
      intro q hq hsaw
      obtain ⟨j, hj⟩ := List.getElem?_of_mem hq
      rcases (Config.next_step hl).hist_cases hj with ⟨p, hp, -, hhist⟩ | hnil |
        ⟨p, op, k, o, a, hp, hk, rfl, he, -, hhist⟩
      · exact dead_mono hg (ih p (List.mem_of_getElem? hp) (hhist ▸ hsaw))
      · rw [hnil] at hsaw
        cases hsaw
      · rw [hhist] at hsaw
        rcases saw_cons hsaw with heq | hsaw
        · cases heq
          exact dead_mono hg (dead_of_fetch he hv)
        · exact dead_mono hg (ih p (List.mem_of_getElem? hp) hsaw)

/-- **A reported transfer is dead.** -/
theorem dead_of_reported (hx : Reachable env Guard.free x) {reference : String}
    (hr : FailureReported x reference) : World.dead x.world reference = true := by
  obtain ⟨p, hp, hrep | ⟨v, hsaw, hv⟩⟩ := hr
  · have hk : Known env p.call p.hist x.world := hx.holds.know p hp
    exact dead_iff.mpr (hk.told.failed reference hrep)
  · exact dead_of_saw hx hv p hp hsaw

/-! ## The invariant -/

/-- No transfer in the hands of a call in progress was reported. -/
def Unreported (x : Config (core env)) : Prop :=
  ∀ p ∈ x.procs, p.prog ≠ none → ∀ reference code, inHand p.hist = some (reference, code) →
    ¬ FailureReported x reference

theorem mem_handled {p : Process (core env)} (hp : p ∈ x.procs) (huncut : p.prog ≠ none)
    {reference code : String} (hin : inHand p.hist = some (reference, code)) :
    reference ∈ handled env x := by
  refine List.mem_filterMap.mpr ⟨p, hp, ?_⟩
  rw [if_pos (Option.isSome_iff_ne_none.mpr huncut), hin]
  rfl

/-- What some call is newly told, it is told in this step. -/
theorem reported_step {l : Label (core env)} (hs : x.Step y l) {reference : String}
    (hr : FailureReported y reference) : FailureReported x reference ∨
    (∃ c, l = .arrive c ∧ ReportsFailed env c reference) ∨
    ∃ i o p v k, l = .perform i o ∧ x.procs[i]? = some p ∧
      p.prog = some (.call (.fetchTransfer reference) k) ∧
      exec (.fetchTransfer reference) o x.world = some (.ok v, y.world) ∧
      (v.status = TransferStatus.failed.text ∨ v.status = TransferStatus.reversed.text) := by
  obtain ⟨q, hq, htold⟩ := hr
  cases hs with
  | @arrive c hadm hw hprocs =>
      rw [hprocs, List.mem_append, List.mem_singleton] at hq
      rcases hq with hq | rfl
      · exact .inl ⟨q, hq, htold⟩
      · rcases htold with hrep | ⟨v, hsaw, -⟩
        · exact .inr (.inl ⟨c, rfl, hrep⟩)
        · cases hsaw
  | @perform i o p op k a hp hk he hprocs =>
      rw [hprocs] at hq
      rcases List.mem_or_eq_of_mem_set hq with hq | rfl
      · exact .inl ⟨q, hq, htold⟩
      · rcases htold with hrep | ⟨v, hsaw, hv⟩
        · exact .inl ⟨p, List.mem_of_getElem? hp, .inl hrep⟩
        · rcases saw_cons hsaw with heq | hsaw
          · cases heq
            exact .inr (.inr ⟨i, o, p, v, k, rfl, hp, hk, he, hv⟩)
          · exact .inl ⟨p, List.mem_of_getElem? hp, .inr ⟨v, hsaw, hv⟩⟩
  | @crash i p hp hw hprocs =>
      rw [hprocs] at hq
      rcases List.mem_or_eq_of_mem_set hq with hq | rfl
      · exact .inl ⟨q, hq, htold⟩
      · exact .inl ⟨p, List.mem_of_getElem? hp, htold⟩
  | drift hm hprocs => exact .inl ⟨q, hprocs ▸ hq, htold⟩

/-- What a call newly has in hand, it just sent or found. -/
theorem inHand_cons {e : Event Op.Ans Err} {reference code : String}
    (hin : inHand (e :: h) = some (reference, code)) :
    inHand h = some (reference, code) ∨
    (∃ i r, e = ⟨.initiateTransfer i, .ok r⟩ ∧ i.reference = reference ∧ r.transferCode = code) ∨
    ∃ v, e = ⟨.fetchTransfer reference, .ok v⟩ ∧ v.transferCode = code ∧
      (h.any fun e => e.op.isTransfer) = true := by
  simp only [inHand] at hin
  unfold taken at hin
  split at hin
  · rename_i i r
    simp only [Option.getD_some, Option.some.injEq, Prod.mk.injEq] at hin
    exact .inr (.inl ⟨i, r, rfl, hin.1, hin.2⟩)
  · rename_i r v
    rw [Option.getD_some] at hin
    split at hin
    · rename_i hsent
      simp only [Option.some.injEq, Prod.mk.injEq] at hin
      obtain ⟨rfl, hcode⟩ := hin
      exact .inr (.inr ⟨v, rfl, hcode, hsent⟩)
    · cases hin
  · cases hin
  · exact .inl hin

theorem findsDead_of_fetch {reference : String} {o : Outcome} {v : VerifyTransferResult}
    (he : exec (.fetchTransfer reference) o u = some (.ok v, w)) (hd : u.dead reference = true) :
    (Op.fetchTransfer reference).findsDead o u = some reference := by
  cases o with
  | served s => simp only [Op.findsDead, hd, if_true]
  | lost s m => simp [exec, Op.writes] at he
  | failed m => simp [exec, Op.fallible] at he

/-- What the policy allows a lookup of a dead transfer. -/
theorem timely_fetch {i : Nat} {o : Outcome} {p : Process (core env)} {reference : String}
    {v : VerifyTransferResult} {k : Except Err VerifyTransferResult → Program Reply}
    (hP : timely env x (.perform i o) = true) (hp : x.procs[i]? = some p)
    (hk : p.prog = some (.call (.fetchTransfer reference) k))
    (he : exec (.fetchTransfer reference) o x.world = some (.ok v, w))
    (hd : World.dead x.world reference = true) :
    (p.hist.any fun e => e.op.isTransfer) = false ∧ reference ∉ handled env x := by
  simp only [timely, Config.pending_eq hp hk, findsDead_of_fetch he hd, Option.all_some,
    Bool.and_eq_true, Bool.not_eq_true', List.contains_eq_mem, decide_eq_false_iff_not] at hP
  exact hP

theorem unreported_step (hx : Reachable env Guard.free x) (hI : Unreported x)
    {l : Label (core env)} (hP : timely env x l = true) (hl : x.next Guard.free l = some y) :
    Unreported y := by
  have hs := Config.next_step hl
  have hy : Reachable env Guard.free y := hx.tail ⟨l, hl⟩
  -- a transfer that was already in hand is not reported by this step
  have keep : ∀ p ∈ x.procs, p.prog ≠ none → ∀ reference code,
      inHand p.hist = some (reference, code) → ¬ FailureReported y reference := by
    intro p hp huncut reference code hin hr
    have hmem := mem_handled hp huncut hin
    rcases reported_step hs hr with hold | ⟨c, rfl, hrep⟩ | ⟨i, o, q, v, k, rfl, hq, hk, he, hv⟩
    · exact hI p hp huncut reference code hin hold
    · have hall := List.all_eq_true.mp hP reference hmem
      rw [reportsFailed_iff.mpr hrep] at hall
      cases hall
    · exact (timely_fetch hP hq hk he (dead_of_fetch he hv)).2 hmem
  intro q hq huncut reference code hin
  cases hs with
  | arrive hadm hw hprocs =>
      rw [hprocs, List.mem_append, List.mem_singleton] at hq
      rcases hq with hq | rfl
      · exact keep q hq huncut reference code hin
      · cases hin
  | @perform i o p op k a hp hk he hprocs =>
      rw [hprocs] at hq
      rcases List.mem_or_eq_of_mem_set hq with hq | rfl
      · exact keep q hq huncut reference code hin
      · have hrun : p.prog ≠ none := by rw [hk]; exact Option.some_ne_none _
        rcases inHand_cons hin with hin | ⟨i', r, heq, href, -⟩ | ⟨v, heq, -, hsent⟩
        · exact keep p (List.mem_of_getElem? hp) hrun reference code hin
        · -- Paystack takes no reference twice, and what was reported has a transfer
          cases heq
          intro hr
          rcases reported_step (Config.next_step hl) hr with hold | ⟨c, hc, -⟩ |
            ⟨i'', o', q', v, k', heq, hq', hk', -⟩
          · obtain ⟨t, ht, htr, -⟩ := dead_iff.mp (dead_of_reported hx hold)
            have hnew : (∀ t ∈ (World.paystack x.world).transfers, t.reference ≠ i'.reference) ∧ _ :=
              exec_answered he
            exact hnew.1 t ht (htr.trans href.symm)
          · cases hc
          · cases heq
            rw [hp] at hq'
            cases hq'
            rw [hk] at hk'
            cases hk'
        · cases heq
          intro hr
          cases hd : World.dead x.world reference with
          | true =>
              rw [(timely_fetch hP hp hk he hd).1] at hsent
              cases hsent
          | false =>
              rcases reported_step (Config.next_step hl) hr with hold | ⟨c, hc, -⟩ |
                ⟨i'', o', q', v', k', heq, hq', hk', he', hv'⟩
              · rw [dead_of_reported hx hold] at hd
                cases hd
              · cases hc
              · rw [dead_of_fetch he' hv'] at hd
                cases hd
  | @crash i p hp hw hprocs =>
      rw [hprocs] at hq
      rcases List.mem_or_eq_of_mem_set hq with hq | rfl
      · exact keep q hq huncut reference code hin
      · exact absurd rfl huncut
  | drift hm hprocs => exact keep q (hprocs ▸ hq) huncut reference code hin

theorem unreported_of_follows (hx : Follows (timely env) ⟨World.initial, []⟩ x) : Unreported x :=
  hx.invariant (I := Unreported) (fun _ hp => absurd hp List.not_mem_nil) fun hu hI hP hl =>
    unreported_step hu hI hP hl

/-- What is in hand is at Paystack. -/
theorem transfer_of_inHand {reference code : String} (hk : Known env c h w)
    (hin : inHand h = some (reference, code)) :
    ∃ t ∈ w.paystack.transfers, t.reference = reference ∧ t.transferCode = code := by
  have shown : (∃ i r, Saw h (.initiateTransfer i) r ∧ i.reference = reference ∧
      r.transferCode = code) ∨
      ∃ v, Saw h (.fetchTransfer reference) v ∧ v.transferCode = code := by
    clear hk
    induction h with
    | nil => cases hin
    | cons e h ih =>
        rcases inHand_cons hin with hin | ⟨i, r, rfl, href, hcode⟩ | ⟨v, rfl, hcode, -⟩
        · exact (ih hin).imp
            (fun ⟨i, r, hsaw, hir⟩ => ⟨i, r, List.mem_cons_of_mem _ hsaw, hir⟩)
            fun ⟨v, hsaw, hv⟩ => ⟨v, List.mem_cons_of_mem _ hsaw, hv⟩
        · exact .inl ⟨i, r, List.mem_cons_self, href, hcode⟩
        · exact .inr ⟨v, List.mem_cons_self, hcode⟩
  rcases shown with ⟨i, r, hsaw, href, hcode⟩ | ⟨v, hsaw, hcode⟩
  · obtain ⟨t, ht, htr, htc, -⟩ := hk.remembered _ _ hsaw
    exact ⟨t, ht, htr.trans href, htc.trans hcode⟩
  · obtain ⟨t, ht, htr, htc⟩ := hk.remembered _ _ hsaw
    exact ⟨t, ht, htr, htc.trans hcode⟩

/-- **A recorded transfer is a live one.** In every run in which no report and no answer of a lookup
tells of the failure of a transfer some call has in hand, and no sender finds a failed or reversed
transfer in place of its own: whoever is about to record a payout as `PROCESSING` names the code and
the reference of one transfer, which was not reported failed or reversed. -/
theorem recorded_live (hx : Follows (timely env) ⟨World.initial, []⟩ x) {d : PayoutUpdate}
    (hd : Recording x d) : NamesLive x d := by
  obtain ⟨p, hp, key, k, hk, hst⟩ := hd
  have hreach : Reachable env Guard.free x := Follows.reaches hx
  have hrec : RecordsInHand p.hist (.payoutUpdate key d) :=
    (hreach.along (J := fun _ => RecordsInHand) (R := fun _ _ _ => True) possible_of_exec
      (fun _ => code_records env _) p hp _ hk).1
  obtain ⟨reference, code, hin, href, hcode⟩ := hrec hst
  obtain ⟨t, ht, rfl, rfl⟩ := transfer_of_inHand (hreach.holds.know p hp) hin
  refine ⟨t, ht, href, hcode, unreported_of_follows hx p hp ?_ _ _ hin⟩
  rw [hk]
  exact Option.some_ne_none _

namespace Demo

variable (env : Env)

/-- The sender of a transfer is about to record it. -/
def unrecorded : List (Label (core env)) :=
  checkout env ++ delivery env ++ .arrive (.executeRelease sale) :: serves env 7 2 ++
  [serve env 7 { id := Demo.release }, serve env 7, serve env 7 { id := sale, code := "TRF_0" }]

/-- It is cut off, the transfer fails, which is reported, and the release runs again. -/
def adopted : List (Label (core env)) :=
  unrecorded env ++ [.crash 7, .drift (.fail (releaseIdempotencyKey sale)),
    .arrive (.markFailed (releaseIdempotencyKey sale) .failed "could not be completed")] ++
  serves env 8 3 ++ [.arrive (.executeRelease sale)] ++ serves env 9 7

/-- The reference process `i` is about to record as `PROCESSING`. -/
def records (x : Config (core env)) (i : Nat) : Option String :=
  match x.pending i with
  | some (_, ⟨.payoutUpdate _ d, _⟩) =>
      if d.status = some .processing then d.providerTransferReference.join else none
  | _ => none

end Demo

theorem recording_of_records {i : Nat} {reference : String}
    (h : Demo.records env x i = some reference) :
    ∃ d, Recording x d ∧ d.providerTransferReference = some (some reference) := by
  unfold Demo.records at h
  split at h
  · rename_i p key d k hpend
    obtain ⟨hp, hk⟩ := Config.pending_spec hpend
    split at h
    · rename_i hst
      exact ⟨d, ⟨p, List.mem_of_getElem? hp, key, k, hk, hst⟩, Option.join_eq_some_iff.mp h⟩
    · cases h
  · cases h

set_option maxRecDepth 20000 in
/-- **A transfer that failed is adopted.** -/
theorem recorded_dead : ¬ ∀ (env : Env) (x : Config (core env)) (d : PayoutUpdate),
    Reachable env Guard.free x → Recording x d → NamesLive x d := by
  intro hall
  have hrun : ((Config.run Guard.free (Demo.adopted Demo.silent) ⟨World.initial, []⟩).map fun x =>
      decide (Demo.records _ x 9 = some (releaseIdempotencyKey Demo.sale)) &&
        x.procs.any fun p => reportsFailed Demo.silent p.call (releaseIdempotencyKey Demo.sale)) =
      some true := by decide
  obtain ⟨x, hx, htest⟩ := reachable_of_run hrun
  simp only [Bool.and_eq_true, decide_eq_true_eq, List.any_eq_true] at htest
  obtain ⟨hrec, p, hp, htold⟩ := htest
  obtain ⟨d, hd, href⟩ := recording_of_records hrec
  obtain ⟨t, -, href', -, hlive⟩ := hall _ x d hx hd
  rw [href] at href'
  rw [← Option.some.inj (Option.some.inj href')] at hlive
  exact hlive ⟨p, hp, .inl (reportsFailed_iff.mp htold)⟩

set_option maxRecDepth 20000 in
/-- The sender of a transfer that is pending records a live one. -/
theorem recorded_live_sale : ∃ (x : Config (core Demo.silent)) (d : PayoutUpdate),
    Follows (timely Demo.silent) ⟨World.initial, []⟩ x ∧
      d.providerTransferReference = some (some (releaseIdempotencyKey Demo.sale)) ∧
      Recording x d ∧ NamesLive x d := by
  have hrun : ((Config.follow (timely Demo.silent) (Demo.unrecorded Demo.silent)
      ⟨World.initial, []⟩).map fun x =>
        decide (Demo.records _ x 7 = some (releaseIdempotencyKey Demo.sale))) = some true := by
    decide
  obtain ⟨x, hx, htest⟩ := exists_of_follow hrun
  obtain ⟨d, hd, href⟩ := recording_of_records (of_decide_eq_true htest)
  exact ⟨x, d, hx, href, hd, recorded_live hx hd⟩

end Meduman
