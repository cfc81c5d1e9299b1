import Meduman.Effect.Walk
import Meduman.Log.Parity

/-!
# The milestones of a transaction

The timeline tells where a transaction stands: what happens once has one line if it has happened, what
comes and goes has as many lines as came and went. Merchants are told the same.

* `Path.walk` : a path of the machine is a walk along its edges
* `World.lines`, `World.notices` : how many lines, and events for merchants, are of some types
* `Lived` : the lines of a completed transaction, in their order
* **`milestones_run`** : in every run
-/

set_option autoImplicit false

namespace Meduman

open Effect

/-! ## Regions of the machine -/

/-- The buyer's money was collected. -/
def TransactionStatus.collected (s : TransactionStatus) : Bool := s.funded || s == .refunded

def Passage.edge (p : Passage) : Edge TransactionStatus TransactionEvent := ⟨p.src, p.event, p.dst⟩

/-- An edge of the machine. -/
def IsEdge (e : Edge TransactionStatus TransactionEvent) : Prop := (e.src, e.label, e.dst) ∈ edges

theorem Path.walk {s s' : TransactionStatus} {path : List Passage} (h : Path s path s') :
    Walk IsEdge s (path.map Passage.edge) s' := by
  induction h with
  | nil => exact .nil s
  | @snoc s' path p before src permitted ih =>
      obtain ⟨context, hok⟩ := permitted
      subst src
      rw [List.map_append]
      exact .snoc (e := p.edge) ih (transition_ok hok)

/-! ## Lines -/

/-- How many lines of the transaction's timeline are of one of the types. -/
def World.lines (w : World) (id : Uuid) (types : List String) : Nat :=
  (w.timelineOf id).countP fun e => types.contains e.type

/-- How many events about the transaction are of one of the types. -/
def World.notices (w : World) (id : Uuid) (types : List String) : Nat :=
  (w.outboundOf id).countP fun o => types.contains o.type

variable {w : World} {t : Transaction} {path : List Passage}

theorem Agrees.types (h : Agrees w t path) :
    (w.timelineOf t.id).map TimelineEvent.type = path.map fun p => timelineType p.event := by
  have := congrArg (List.map Prod.fst) h.timeline
  simpa [Passage.timeline, Function.comp_def] using this

theorem Agrees.lines (h : Agrees w t path) (types : List String) :
    w.lines t.id types = (path.map Passage.edge).countP fun e =>
      types.contains (timelineType e.label) := by
  have hcount := congrArg (List.countP fun s => types.contains s) h.types
  rw [List.countP_map, List.countP_map] at hcount
  rw [World.lines, List.countP_map]
  exact hcount

theorem Agrees.notices (h : Agrees w t path) {merchantId : Uuid} (hm : t.merchantId = some merchantId)
    (types : List String) : w.notices t.id types = (path.map Passage.edge).countP fun e =>
      (outboundType e.label).any types.contains := by
  have hcount := congrArg (List.countP fun o => types.contains o.2.1) h.outbound
  rw [List.countP_map, List.countP_filterMap, hm] at hcount
  rw [World.notices, List.countP_map]
  refine Eq.trans hcount (List.countP_congr fun p _ => ?_)
  simp only [Passage.outbound, Function.comp_apply, Passage.edge]
  cases outboundType p.event <;> rfl

/-- An event about the transaction is to its merchant, and of a type that the machine sends. -/
theorem Agrees.addressed (h : Agrees w t path) {o : OutboundEvent} (ho : o ∈ w.outboundOf t.id) :
    t.merchantId = some o.merchantId ∧ ∃ e ∈ edges, outboundType e.2.1 = some o.type := by
  have hmem := List.mem_map_of_mem (f := fun o => (o.merchantId, o.type, o.payload.status)) ho
  rw [h.outbound] at hmem
  obtain ⟨p, hp, hout⟩ := List.mem_filterMap.mp hmem
  have hedge : IsEdge p.edge := h.leads.walk.mem _ (List.mem_map_of_mem hp)
  unfold Passage.outbound at hout
  split at hout
  · rename_i merchantId type hm ht
    obtain ⟨hmerchant, htype, -⟩ : merchantId = o.merchantId ∧ type = o.type ∧ _ := by
      simpa using Option.some.inj hout
    exact ⟨by rw [hm, hmerchant], _, hedge, by rw [← htype]; exact ht⟩
  · cases hout

/-- **Lines that enter and leave a region.** -/
theorem Agrees.balance (h : Agrees w t path) (A : TransactionStatus → Bool) (hdraft : A .draft = false)
    {entering leaving : List String}
    (henter : ∀ e ∈ edges, (!A e.1 && A e.2.2) = entering.contains (timelineType e.2.1))
    (hleave : ∀ e ∈ edges, (A e.1 && !A e.2.2) = leaving.contains (timelineType e.2.1)) :
    w.lines t.id entering = w.lines t.id leaving + (A t.status).toNat := by
  have hwalk := h.leads.walk
  have hbalance := hwalk.balance A
  rw [h.lines, h.lines]
  rw [hdraft] at hbalance
  have hin : (path.map Passage.edge).countP (Edge.enters A) =
      (path.map Passage.edge).countP fun e => entering.contains (timelineType e.label) :=
    List.countP_congr fun e he => by
      rw [Edge.enters, henter _ (hwalk.mem e he)]
  have hout : (path.map Passage.edge).countP (Edge.leaves A) =
      (path.map Passage.edge).countP fun e => leaving.contains (timelineType e.label) :=
    List.countP_congr fun e he => by
      rw [Edge.leaves, hleave _ (hwalk.mem e he)]
  rw [hin, hout] at hbalance
  exact hbalance

/-- Merchants are sent events of some types for lines of other types. -/
theorem Agrees.told (h : Agrees w t path) {merchantId : Uuid} (hm : t.merchantId = some merchantId)
    {types lines : List String}
    (hsame : ∀ e ∈ edges, (outboundType e.2.1).any types.contains = lines.contains (timelineType e.2.1)) :
    w.notices t.id types = w.lines t.id lines := by
  rw [h.notices hm, h.lines]
  exact List.countP_congr fun e he => by
    rw [hsame _ (h.leads.walk.mem e he)]

/-! ## A completed transaction -/

/-- Types of a release: a confirmation, by the buyer or on its own, or a dispute that the seller won. -/
def releaseTypes : List String :=
  ["delivery.confirmed", "delivery.auto_confirmed", "dispute.resolved_release"]

/-- The money came in, was released to the seller, and was paid out, in this order; between its release and
the end the payout was only retried. -/
def Lived (types : List String) : Prop :=
  ∃ before between release retries,
    types = before ++ "payment.protected" :: between ++ release :: retries ++ ["payout.completed"] ∧
    release ∈ releaseTypes ∧ ∀ s ∈ retries, s = "payout.retry"

/-- **A walk to the end.** -/
theorem walk_lived {es : List (Edge TransactionStatus TransactionEvent)}
    (h : Walk IsEdge .draft es .completed) : Lived (es.map fun e => timelineType e.label) := by
  obtain ⟨es₁, last, es₂, rfl, hwalk₁, hlast, henters, hstays⟩ :=
    h.enters (A := (· == .completed)) rfl rfl
  -- nothing leads on from the end
  have hnil : es₂ = [] := by
    refine List.eq_nil_iff_forall_not_mem.mpr fun e he => ?_
    obtain ⟨hedge, hsrc, -⟩ := hstays e he
    have hno : ∀ e ∈ edges, (e.1 == TransactionStatus.completed) = false := by decide
    rw [hno _ hedge] at hsrc
    cases hsrc
  have hpaid : last.src = .releaseProcessing ∧ timelineType last.label = "payout.completed" := by
    have hall : ∀ e ∈ edges, (!(e.1 == TransactionStatus.completed) &&
        e.2.2 == TransactionStatus.completed) = true →
        e.1 = .releaseProcessing ∧ timelineType e.2.1 = "payout.completed" := by decide
    exact hall _ hlast henters
  rw [hpaid.1] at hwalk₁
  obtain ⟨es₃, release, es₄, rfl, hwalk₃, hrelease, henters₃, hstays₄⟩ :=
    hwalk₁.enters (A := (· == .releaseProcessing)) rfl rfl
  have hreleased : release.src.collected = true ∧ timelineType release.label ∈ releaseTypes := by
    have hall : ∀ e ∈ edges, (!(e.1 == TransactionStatus.releaseProcessing) &&
        e.2.2 == TransactionStatus.releaseProcessing) = true →
        e.1.collected = true ∧ timelineType e.2.1 ∈ releaseTypes := by decide
    exact hall _ hrelease henters₃
  obtain ⟨es₅, money, es₆, rfl, -, hmoney, henters₅, -⟩ :=
    hwalk₃.enters (A := TransactionStatus.collected) rfl hreleased.1
  have hcollected : timelineType money.label = "payment.protected" := by
    have hall : ∀ e ∈ edges, (!e.1.collected && e.2.2.collected) = true →
        timelineType e.2.1 = "payment.protected" := by decide
    exact hall _ hmoney henters₅
  refine ⟨es₅.map fun e => timelineType e.label, es₆.map fun e => timelineType e.label,
    timelineType release.label, es₄.map fun e => timelineType e.label, ?_, hreleased.2, ?_⟩
  · simp [hnil, hpaid.2, hcollected]
  · intro s hs
    obtain ⟨e, he, rfl⟩ := List.mem_map.mp hs
    obtain ⟨hedge, hsrc, hdst⟩ := hstays₄ e he
    have hall : ∀ e ∈ edges, (e.1 == TransactionStatus.releaseProcessing) = true →
        (e.2.2 == TransactionStatus.releaseProcessing) = true →
        timelineType e.2.1 = "payout.retry" := by decide
    exact hall _ hedge hsrc hdst

/-! ## Runs -/

/-- The types of the events a merchant is sent, with the types of the lines they are sent for. -/
def noticedTypes : List (String × List String) :=
  [("transaction.protected", ["payment.protected"]), ("transaction.cancelled", ["transaction.cancelled"]),
    ("dispute.opened", ["dispute.raised"]),
    ("dispute.resolved", ["dispute.resolved_release", "dispute.resolved_refund"]),
    ("funds.released", ["payout.completed"])]

/-- What the logs of a transaction tell of it. -/
structure Milestones (w : World) (t : Transaction) : Prop where
  /-- What happens once has one line if it has happened. -/
  collected : w.lines t.id ["payment.protected"] = t.status.collected.toNat
  completed : w.lines t.id ["payout.completed"] = (t.status == .completed).toNat
  refunded : w.lines t.id ["transaction.refunded", "dispute.resolved_refund"] =
    (t.status == .refunded).toNat
  cancelled : w.lines t.id ["transaction.cancelled"] = (t.status == .cancelled).toNat
  expired : w.lines t.id ["transaction.expired"] = (t.status == .expired).toNat
  /-- Disputes and releases come and go. -/
  disputed : w.lines t.id ["dispute.raised", "admin.intervention"] =
    w.lines t.id ["dispute.resolved_release", "dispute.resolved_refund", "dispute.withdrawn"] +
      (t.status == .disputed).toNat
  released : w.lines t.id releaseTypes =
    w.lines t.id ["admin.intervention"] + t.status.released.toNat
  lived : t.status = .completed → Lived ((w.timelineOf t.id).map TimelineEvent.type)
  /-- The merchant is told of each line that is for merchants, and nobody of anything else. -/
  addressed : ∀ o ∈ w.outboundOf t.id,
    t.merchantId = some o.merchantId ∧ o.type ∈ noticedTypes.map Prod.fst
  told : ∀ merchantId, t.merchantId = some merchantId →
    ∀ n ∈ noticedTypes, w.notices t.id [n.1] = w.lines t.id n.2
  untold : t.merchantId = none → w.outboundOf t.id = []

@[simp] theorem lines_nil (w : World) (id : Uuid) : w.lines id [] = 0 := by simp [World.lines]

/-- Lines that enter a region which is never left. -/
theorem Agrees.once (h : Agrees w t path) (A : TransactionStatus → Bool) (hdraft : A .draft = false)
    {entering : List String}
    (henter : ∀ e ∈ edges, (!A e.1 && A e.2.2) = entering.contains (timelineType e.2.1))
    (hclosed : ∀ e ∈ edges, (A e.1 && !A e.2.2) = false) :
    w.lines t.id entering = (A t.status).toNat := by
  have hbalance : w.lines t.id entering = w.lines t.id [] + (A t.status).toNat :=
    h.balance A hdraft henter fun e he => hclosed e he
  rw [hbalance, lines_nil, Nat.zero_add]

theorem milestones_of_agrees (h : Agrees w t path) : Milestones w t where
  collected := h.once TransactionStatus.collected rfl (by decide) (by decide)
  completed := h.once (· == .completed) rfl (by decide) (by decide)
  refunded := h.once (· == .refunded) rfl (by decide) (by decide)
  cancelled := h.once (· == .cancelled) rfl (by decide) (by decide)
  expired := h.once (· == .expired) rfl (by decide) (by decide)
  disputed := h.balance (· == .disputed) rfl (by decide) (by decide)
  released := h.balance TransactionStatus.released rfl (by decide) (by decide)
  lived hcompleted := by
    have hwalk := h.leads.walk
    rw [hcompleted] at hwalk
    rw [h.types]
    simpa [Function.comp_def, Passage.edge] using walk_lived hwalk
  addressed o ho := by
    obtain ⟨hmerchant, e, he, htype⟩ := h.addressed ho
    have hnoticed : ∀ e ∈ edges, ∀ type ∈ outboundType e.2.1, type ∈ noticedTypes.map Prod.fst := by
      decide
    exact ⟨hmerchant, hnoticed e he _ htype⟩
  told merchantId hm n hn := by
    have hsame : ∀ n ∈ noticedTypes, ∀ e ∈ edges, (outboundType e.2.1).any [n.1].contains =
      n.2.contains (timelineType e.2.1) := by decide
    exact h.told hm (hsame n hn)
  untold hm := by
    have hnone : path.filterMap (Passage.outbound none) = [] :=
      List.filterMap_eq_nil_iff.mpr fun _ _ => rfl
    have hempty := h.outbound
    rw [hm, hnone] at hempty
    exact List.map_eq_nil_iff.mp hempty

/-- **The milestones of every transaction,** in every run of any events: collected money, completion, refund,
cancellation and expiry have one line each, just if the transaction has got there; disputes and releases
are counted; a completed transaction lived in order; and each event about it is to its merchant, one for
each line that is for merchants. -/
theorem milestones_run {env : Env} {x : Config (eventful env)}
    (hx : Reaches Guard.free ⟨World.initial, []⟩ x) : ∀ t ∈ x.world.transactions, Milestones x.world t := by
  intro t ht
  have hjournal := ((journal env).holds_reaches ((journal env).holds_init journal_initial) hx).1.inv
  obtain ⟨path, hagrees⟩ := hjournal.agrees t ht
  exact milestones_of_agrees hagrees

namespace Demo

/-- A merchant's sale, from its creation to its payout. -/
def lived (env : Env) : List (Label (eventful env)) :=
  ([.arrive (.create (.v1 buyer { sellerId := seller, title := "Phone", amount := 1000 }))] ++
    serves env 0 3 ++ drives env 1 .sellerPublish ++ drives env 2 .buyerInitiateCheckout ++
    drives env 3 (.paymentVerified .webhook) ++ drives env 4 .sellerStartDelivery ++
    drives env 5 .sellerMarkDelivered ++ drives env 6 .buyerConfirm ++
    drives env 7 .payoutSucceeded : List (Label (core env))).map Label.within

end Demo

set_option maxRecDepth 20000 in
/-- A sale that is completed. -/
theorem milestones_lived : ∃ x : Config (eventful Demo.silent),
    (∃ t ∈ x.world.transactions, t.status = .completed) ∧
      ∀ t ∈ x.world.transactions, Milestones x.world t := by
  have hrun : ((Config.run Guard.free (Demo.lived Demo.silent) ⟨World.initial, []⟩).map fun x =>
      decide (x.world.transactions.rows.map Transaction.status = [.completed])) = some true := by
    decide
  obtain ⟨x, hx, htest⟩ := exists_of_run hrun
  exact ⟨x, (Table.of_map_eq_singleton (of_decide_eq_true htest)).1, milestones_run hx⟩

end Meduman
