import Mathlib
import Meduman.Analytics.Number
import Meduman.Log.Parity

/-!
# The analytics funnel

What a transaction reached is read off its timeline, and the timeline is a path of the machine: whoever
was protected had been published and had a payment pending, whoever was delivered, released or
disputed had been protected.

* `milestones`, **`milestones_reached`** : the stages on every path to a state
* `Ledger` : transactions whose timelines are paths of the machine
* `platforms_eq` : seven rows, each the aggregate of its origin
* **`funnel_sound`** : the response for any cohort
* `total_rounded` : a count past `2 ^ 53` that is not the sum
-/

set_option autoImplicit false

namespace Meduman.Analytics

open Effect

/-! ## Stages on every path -/

/-- The stages a transaction has entered when it is in this state, whatever way it came. -/
def milestones : TransactionStatus → List TransactionStatus
  | .draft | .cancelled | .expired => []
  | .linkActive => [.linkActive]
  | .paymentPending => [.linkActive, .paymentPending]
  | _ => [.linkActive, .paymentPending, .paymentProtected]

/-- The states a path enters. -/
def entered (path : List Passage) : List TransactionStatus := path.map Passage.dst

theorem milestones_edge : ∀ e ∈ edges, ∀ m ∈ milestones e.2.2, m ∈ milestones e.1 ∨ m = e.2.2 := by
  decide

theorem milestones_entered {path : List Passage} {s : TransactionStatus} (h : Path .draft path s) :
    ∀ m ∈ milestones s, m ∈ entered path := by
  induction h with
  | nil => exact fun m hm => absurd hm List.not_mem_nil
  | snoc before src permitted ih =>
      obtain ⟨context, hok⟩ := permitted
      intro m hm
      simp only [entered, List.map_append, List.map_cons, List.map_nil, List.mem_append,
        List.mem_singleton]
      exact (milestones_edge _ (transition_ok hok) m hm).imp_left fun hsrc => ih m (src ▸ hsrc)

/-- A path that enters a state begins with one that leads there. -/
theorem exists_prefix {path : List Passage} {s d : TransactionStatus} (h : Path .draft path s)
    (hd : d ∈ entered path) : ∃ pre, Path .draft pre d ∧ entered pre ⊆ entered path := by
  induction h with
  | nil => exact absurd hd List.not_mem_nil
  | snoc before src permitted ih =>
      have hsnoc := Path.snoc before src permitted
      simp only [entered, List.map_append, List.map_cons, List.map_nil, List.mem_append,
        List.mem_singleton] at hd
      rcases hd with hd | rfl
      · obtain ⟨pre, hpre, hsub⟩ := ih hd
        refine ⟨pre, hpre, List.Subset.trans hsub ?_⟩
        rw [entered, entered, List.map_append]
        exact List.subset_append_left _ _
      · exact ⟨_, hsnoc, List.Subset.refl _⟩

/-- **Whoever entered a state had entered its milestones.** -/
theorem milestones_reached {path : List Passage} {s d m : TransactionStatus}
    (h : Path .draft path s) (hd : d ∈ entered path) (hm : m ∈ milestones d) :
    m ∈ entered path := by
  obtain ⟨pre, hpre, hsub⟩ := exists_prefix h hd
  exact hsub (milestones_entered hpre m hm)

/-! ## Ledgers -/

/-- The timeline of every transaction is that of a path of the machine to its status. -/
structure Ledger extends Store where
  recorded : ∀ t ∈ transactions, ∃ path, Path .draft path t.status ∧
    (timeline.filter fun e => e.transactionId == t.id).map TimelineEvent.newState =
      (entered path).map TransactionStatus.text

/-- What the services leave is such a ledger, whenever its transactions were created. -/
def Ledger.ofReachable {env : Env} {x : Config (eventful env)}
    (hx : Reaches Guard.free ⟨World.initial, []⟩ x) (createdAt : Uuid → Int) : Ledger where
  transactions := World.transactions x.world
  timeline := World.timeline x.world
  createdAt := createdAt
  recorded t ht := by
    have hjournal : Journal x.world :=
      ((journal env).holds_reaches ((journal env).holds_init journal_initial) hx).1.inv
    obtain ⟨path, hpath⟩ := hjournal.agrees t ht
    refine ⟨path, hpath.leads, ?_⟩
    have hstates := congrArg (List.map fun e => e.2.2) hpath.timeline
    rw [List.map_map, List.map_map] at hstates
    rw [entered, List.map_map]
    exact hstates

variable {w : Ledger} {t : Transaction}

theorem reached_iff (ht : t ∈ w.transactions) : ∃ path, Path .draft path t.status ∧
    ∀ s, w.reached s t = true ↔ s ∈ entered path := by
  obtain ⟨path, hpath, hstates⟩ := w.recorded t ht
  refine ⟨path, hpath, fun s => ?_⟩
  have hmem : s ∈ entered path ↔ s.text ∈ (entered path).map TransactionStatus.text := by
    rw [List.mem_map]
    exact ⟨fun h => ⟨s, h, rfl⟩, fun ⟨s', h, heq⟩ => TransactionStatus.text_injective heq ▸ h⟩
  rw [hmem, ← hstates]
  simp only [Store.reached, List.any_eq_true, Bool.and_eq_true, beq_iff_eq, List.mem_map,
    List.mem_filter]
  exact ⟨fun ⟨e, he, hid, hs⟩ => ⟨e, ⟨he, hid⟩, hs⟩, fun ⟨e, ⟨he, hid⟩, hs⟩ => ⟨e, he, hid, hs⟩⟩

/-- Who reached a stage had reached its milestones. -/
theorem reached_milestone (ht : t ∈ w.transactions) {d m : TransactionStatus}
    (hm : m ∈ milestones d) (hd : w.reached d t = true) : w.reached m t = true := by
  obtain ⟨path, hpath, hiff⟩ := reached_iff ht
  exact (hiff m).mpr (milestones_reached hpath ((hiff d).mp hd) hm)

/-! ## Counts and money, one by one -/

inductive Count
  | sellers | buyers | created | published | paymentStarted | protectedCount | delivered | released
  | disputed

def PlatformMetrics.count (row : PlatformMetrics) : Count → Nat
  | .sellers => row.sellers
  | .buyers => row.buyers
  | .created => row.created
  | .published => row.published
  | .paymentStarted => row.paymentStarted
  | .protectedCount => row.protectedCount
  | .delivered => row.delivered
  | .released => row.released
  | .disputed => row.disputed

def PlatformMetricsResponse.count (p : PlatformMetricsResponse) : Count → Nat
  | .sellers => p.sellers
  | .buyers => p.buyers
  | .created => p.created
  | .published => p.published
  | .paymentStarted => p.paymentStarted
  | .protectedCount => p.protectedCount
  | .delivered => p.delivered
  | .released => p.released
  | .disputed => p.disputed

inductive Money
  | protectedVolume | releasedVolume | fees

def PlatformMetrics.money (row : PlatformMetrics) : Money → Int
  | .protectedVolume => row.protectedVolumeKobo
  | .releasedVolume => row.releasedVolumeKobo
  | .fees => row.feesKobo

def PlatformMetricsResponse.money (p : PlatformMetricsResponse) : Money → String
  | .protectedVolume => p.protectedVolumeKobo
  | .releasedVolume => p.releasedVolumeKobo
  | .fees => p.feesKobo

@[simp] theorem count_toResponse (row : PlatformMetrics) (c : Count) :
    (toResponse row).count c = toNumber (row.count c) := by cases c <;> rfl

@[simp] theorem money_toResponse (row : PlatformMetrics) (m : Money) :
    (toResponse row).money m = kobo (row.money m) := by cases m <;> rfl

@[simp] theorem bigInt_kobo (value : Int) : bigInt (kobo value) = value := by
  rw [bigInt, kobo, Int.toInt?_repr]
  rfl

/-! ## Totals -/

theorem count_totals (l : List PlatformMetricsResponse) (acc : Summed) (c : Count) :
    (l.foldl Summed.add acc).totals.count c =
      (l.map fun p => p.count c).foldl add (acc.totals.count c) := by
  induction l generalizing acc with
  | nil => rfl
  | cons p l ih =>
      rw [List.foldl_cons, ih, List.map_cons, List.foldl_cons]
      cases c <;> rfl

theorem money_totals (l : List PlatformMetricsResponse) (acc : Summed) (m : Money) :
    bigInt ((l.foldl Summed.add acc).totals.money m) =
      bigInt (acc.totals.money m) + (l.map fun p => bigInt (p.money m)).sum := by
  induction l generalizing acc with
  | nil => simp
  | cons p l ih =>
      rw [List.foldl_cons, ih, List.map_cons, List.sum_cons, ← Int.add_assoc]
      congr 1
      cases m <;> simp [Summed.totals, Summed.add, PlatformMetricsResponse.money]

/-- Numbers add up exactly as long as their sum is small. -/
theorem foldl_add_exact {l : List Nat} {acc : Nat} (h : acc + l.sum ≤ 2 ^ 53) :
    l.foldl add acc = acc + l.sum := by
  induction l generalizing acc with
  | nil => rfl
  | cons n l ih =>
      rw [List.sum_cons] at h
      have hadd : add acc n = acc + n := toNumber_exact (by omega)
      rw [List.foldl_cons, hadd, ih (by omega), List.sum_cons]
      omega

theorem foldl_add_mono {α : Type} {f g : α → Nat} {l : List α} (h : ∀ a ∈ l, f a ≤ g a)
    {acc acc' : Nat} (hacc : acc ≤ acc') : (l.map f).foldl add acc ≤ (l.map g).foldl add acc' := by
  induction l generalizing acc acc' with
  | nil => exact hacc
  | cons a l ih =>
      exact ih (fun b hb => h b (List.mem_cons_of_mem _ hb))
        (add_mono hacc (h a List.mem_cons_self))

/-! ## Rows -/

/-- The transactions of a cohort from one origin. -/
def from' (origin : TransactionOrigin) (cohort : List Transaction) : List Transaction :=
  cohort.filter fun t => t.origin == origin

theorem find_filterMap {g : TransactionOrigin → Option PlatformMetrics}
    (hg : ∀ o r, g o = some r → r.origin = o) {l : List TransactionOrigin} {o : TransactionOrigin}
    (ho : o ∈ l) : ((l.filterMap g).reverse.find? fun r => r.origin == o) = g o := by
  have hmem : ∀ r ∈ (l.filterMap g).reverse, r.origin = o → g o = some r := by
    intro r hr horigin
    obtain ⟨o', -, hr⟩ := List.mem_filterMap.mp (List.mem_reverse.mp hr)
    rwa [← horigin, hg o' r hr]
  cases hgo : g o with
  | none =>
      refine List.find?_eq_none.mpr fun r hr horigin => ?_
      have hsome := hmem r hr (beq_iff_eq.mp horigin)
      rw [hgo] at hsome
      cases hsome
  | some r =>
      have hr : r ∈ (l.filterMap g).reverse :=
        List.mem_reverse.mpr (List.mem_filterMap.mpr ⟨o, ho, hgo⟩)
      have hfound : ((l.filterMap g).reverse.find? fun r => r.origin == o).isSome = true :=
        List.find?_isSome.mpr ⟨r, hr, beq_iff_eq.mpr (hg o r hgo)⟩
      obtain ⟨r', hr'⟩ := Option.isSome_iff_exists.mp hfound
      have horigin := @List.find?_some _ (fun r : PlatformMetrics => r.origin == o) _ _ hr'
      have hsame := hmem r' (List.mem_of_find?_eq_some hr') (beq_iff_eq.mp horigin)
      rw [hr', ← hsame, hgo]

/-- **Seven rows,** each the aggregate of its origin. -/
theorem platforms_eq (w : Store) (start stop : Int) :
    (w.getPlatformMetrics start stop).platforms = allOrigins.map fun o =>
      toResponse (w.aggregate o (from' o (w.cohort start stop))) := by
  refine List.map_congr_left fun o ho => congrArg toResponse ?_
  have hfind := find_filterMap (g := fun origin =>
    if (from' origin (w.cohort start stop)).isEmpty then none
    else some (w.aggregate origin (from' origin (w.cohort start stop))))
    (fun o r h => by
      split at h
      · cases h
      · cases h
        rfl) ho
  rw [Store.queryRaw]
  refine (congrArg (fun r => Option.getD r { origin := o }) hfind).trans ?_
  split
  · rename_i hempty
    rw [List.isEmpty_iff.mp hempty]
    rfl
  · rfl

/-! ## The funnel -/

/-- The counts a count cannot exceed. -/
def below : List (Count × Count) :=
  [(.published, .created), (.paymentStarted, .published), (.protectedCount, .paymentStarted),
   (.delivered, .protectedCount), (.released, .protectedCount), (.disputed, .protectedCount)]

/-- Later stages count no more than earlier ones, and the rate is a fraction. -/
structure Funnel (p : PlatformMetricsResponse) : Prop where
  published : p.published ≤ p.created
  paymentStarted : p.paymentStarted ≤ p.published
  protectedCount : p.protectedCount ≤ p.paymentStarted
  delivered : p.delivered ≤ p.protectedCount
  released : p.released ≤ p.protectedCount
  disputed : p.disputed ≤ p.protectedCount
  rate_nonneg : 0 ≤ p.disputeRate
  rate_le_one : p.disputeRate ≤ 1

theorem rate_nonneg (disputed protectedCount : Nat) : 0 ≤ rate disputed protectedCount := by
  unfold rate
  split
  · exact Rat.le_refl
  · positivity

theorem rate_le_one {disputed protectedCount : Nat} (h : disputed ≤ protectedCount) :
    rate disputed protectedCount ≤ 1 := by
  unfold rate
  split
  · exact zero_le_one
  · rename_i hpos
    have hquotient : disputed * 10000 / protectedCount ≤ 10000 :=
      Nat.div_le_of_le_mul (by omega)
    have hrounded : toNumber (disputed * 10000 / protectedCount) ≤ 10000 :=
      (toNumber_mono hquotient).trans_eq (toNumber_exact (by norm_num))
    rw [div_le_one (by norm_num)]
    exact_mod_cast hrounded

theorem Funnel.of_below {p : PlatformMetricsResponse}
    (hbelow : ∀ c ∈ below, p.count c.1 ≤ p.count c.2) (hrate : 0 ≤ p.disputeRate ∧
      p.disputeRate ≤ 1) : Funnel p where
  published := hbelow (.published, .created) (by simp [below])
  paymentStarted := hbelow (.paymentStarted, .published) (by simp [below])
  protectedCount := hbelow (.protectedCount, .paymentStarted) (by simp [below])
  delivered := hbelow (.delivered, .protectedCount) (by simp [below])
  released := hbelow (.released, .protectedCount) (by simp [below])
  disputed := hbelow (.disputed, .protectedCount) (by simp [below])
  rate_nonneg := hrate.1
  rate_le_one := hrate.2

variable {l : List Transaction} {o : TransactionOrigin}

/-- Later stages aggregate no more transactions than earlier ones. -/
theorem aggregate_below (hl : ∀ t ∈ l, t ∈ w.transactions) :
    ∀ c ∈ below, (w.aggregate o l).count c.1 ≤ (w.aggregate o l).count c.2 := by
  have stage : ∀ {d m : TransactionStatus}, m ∈ milestones d →
      l.countP (w.reached d) ≤ l.countP (w.reached m) := fun hm =>
    List.countP_mono_left fun t ht hd => reached_milestone (hl t ht) hm hd
  intro c hc
  simp only [below, List.mem_cons, List.not_mem_nil, or_false] at hc
  rcases hc with rfl | rfl | rfl | rfl | rfl | rfl
  · exact List.countP_le_length
  · exact stage (d := .paymentPending) (by decide)
  · exact stage (d := .paymentProtected) (by decide)
  · exact stage (d := .confirmationPending) (by decide)
  · exact stage (d := .completed) (by decide)
  · exact stage (d := .disputed) (by decide)

/-- What fewer transactions add up to is less, where no amount is negative. -/
theorem sum_filter_le {p q : Transaction → Bool} (hpos : ∀ t ∈ l, 0 ≤ t.amount)
    (hpq : ∀ t ∈ l, p t = true → q t = true) :
    ((l.filter p).map Transaction.amount).sum ≤ ((l.filter q).map Transaction.amount).sum := by
  induction l with
  | nil => exact Int.le_refl _
  | cons t l ih =>
      have hrest := ih (fun a ha => hpos a (List.mem_cons_of_mem _ ha))
        fun a ha => hpq a (List.mem_cons_of_mem _ ha)
      have ht := hpos t List.mem_cons_self
      cases hp : p t with
      | true =>
          rw [List.filter_cons_of_pos hp, List.filter_cons_of_pos (hpq t List.mem_cons_self hp)]
          simpa using hrest
      | false =>
          rw [List.filter_cons_of_neg (by simp [hp])]
          cases hq : q t with
          | true =>
              rw [List.filter_cons_of_pos hq, List.map_cons, List.sum_cons]
              omega
          | false => rwa [List.filter_cons_of_neg (by simp [hq])]

theorem aggregate_volumes (hl : ∀ t ∈ l, t ∈ w.transactions) (hpos : ∀ t ∈ l, 0 ≤ t.amount) :
    (w.aggregate o l).releasedVolumeKobo ≤ (w.aggregate o l).protectedVolumeKobo :=
  sum_filter_le hpos fun t ht => reached_milestone (hl t ht) (by decide)

/-! ## Counts of a whole cohort -/

/-- The origins part a cohort. -/
theorem length_from (l : List Transaction) :
    (allOrigins.map fun o => (from' o l).length).sum = l.length := by
  induction l with
  | nil => rfl
  | cons t l ih =>
      have hsplit : ∀ o, (from' o (t :: l)).length =
          (if t.origin = o then 1 else 0) + (from' o l).length := by
        intro o
        by_cases ho : t.origin = o
        · simp [from', ho, Nat.add_comm]
        · simp [from', ho]
      have hone : (allOrigins.map fun o => if t.origin = o then 1 else 0).sum = 1 := by
        cases t.origin <;> decide
      simp only [hsplit, List.sum_map_add, hone, ih, List.length_cons]
      omega

/-- No count of an aggregate exceeds the number of its transactions. -/
theorem aggregate_le_length (w : Store) (o : TransactionOrigin) (l : List Transaction) (c : Count) :
    (w.aggregate o l).count c ≤ l.length := by
  cases c with
  | sellers => exact (List.dedup_sublist _).length_le.trans_eq (List.length_map ..)
  | buyers => exact (List.dedup_sublist _).length_le.trans (List.length_filterMap_le ..)
  | created => exact Nat.le_refl _
  | _ => exact List.countP_le_length

theorem mem_cohort {start stop : Int} (ht : t ∈ from' o (w.cohort start stop)) :
    t ∈ w.transactions := (Table.mem_filter.mp (List.mem_of_mem_filter ht)).1

/-- **The analytics funnel is sound.** For any transactions whose timelines are paths of the machine
and any range, there is a row for each of the seven origins; in each row and in the totals, later
stages count no more than earlier ones, the dispute rate lies between 0 and 1, and the released volume
is no more than the protected one where no amount is negative. Money is the exact amount, in the rows
and in the totals; the totals' rate is that of the summed counts, and a cohort of up to `2 ^ 53`
transactions has exact counts. -/
theorem funnel_sound (w : Ledger) (start stop : Int) :
    let r := w.getPlatformMetrics start stop
    r.platforms.map PlatformMetricsResponse.origin = allOrigins.map some ∧
    (∀ p ∈ r.totals :: r.platforms, Funnel p) ∧
    ((∀ t ∈ w.transactions, 0 ≤ t.amount) → ∀ p ∈ r.totals :: r.platforms,
      bigInt p.releasedVolumeKobo ≤ bigInt p.protectedVolumeKobo) ∧
    (∀ m, r.platforms.map (fun p => p.money m) =
        allOrigins.map fun o => kobo ((w.aggregate o (from' o (w.cohort start stop))).money m)) ∧
    (∀ m, r.totals.money m = kobo ((r.platforms.map fun p => bigInt (p.money m)).sum)) ∧
    r.totals.disputeRate = rate r.totals.disputed r.totals.protectedCount ∧
    ((w.cohort start stop).length ≤ 2 ^ 53 →
      (∀ c, r.platforms.map (fun p => p.count c) =
        allOrigins.map fun o => (w.aggregate o (from' o (w.cohort start stop))).count c) ∧
      ∀ c, r.totals.count c = (r.platforms.map fun p => p.count c).sum) := by
  intro r
  have hplatforms : r.platforms = allOrigins.map fun o =>
      toResponse (w.aggregate o (from' o (w.cohort start stop))) := platforms_eq w.toStore start stop
  have htotals : r.totals = (r.platforms.foldl Summed.add {}).totals := rfl
  have hin : ∀ o, ∀ t ∈ from' o (w.cohort start stop), t ∈ w.transactions := fun o t => mem_cohort
  have hbelow : ∀ p ∈ r.platforms, ∀ c ∈ below, p.count c.1 ≤ p.count c.2 := by
    rw [hplatforms]
    intro p hp c hc
    obtain ⟨o, -, rfl⟩ := List.mem_map.mp hp
    simp only [count_toResponse]
    exact toNumber_mono (aggregate_below (hin o) c hc)
  have htotalsBelow : ∀ c ∈ below, r.totals.count c.1 ≤ r.totals.count c.2 := by
    intro c hc
    rw [htotals, count_totals, count_totals]
    refine foldl_add_mono (fun p hp => hbelow p hp c hc) ?_
    cases c with
    | mk a b => cases a <;> cases b <;> decide
  have hmoney : ∀ m, bigInt (r.totals.money m) = (r.platforms.map fun p => bigInt (p.money m)).sum := by
    intro m
    rw [htotals, money_totals]
    cases m <;> simp [Summed.totals, PlatformMetricsResponse.money]
  refine ⟨?_, ?_, ?_, ?_, ?_, rfl, ?_⟩
  · rw [hplatforms, List.map_map]
    rfl
  · intro p hp
    rcases List.mem_cons.mp hp with rfl | hp
    · exact .of_below htotalsBelow ⟨rate_nonneg _ _,
        rate_le_one (htotalsBelow (.disputed, .protectedCount) (by simp [below]))⟩
    · refine .of_below (hbelow p hp) ?_
      rw [hplatforms] at hp
      obtain ⟨o, -, rfl⟩ := List.mem_map.mp hp
      exact ⟨rate_nonneg _ _, rate_le_one
        (aggregate_below (hin o) (.disputed, .protectedCount) (by simp [below]))⟩
  · intro hpos p hp
    have hrows : ∀ p ∈ r.platforms, bigInt p.releasedVolumeKobo ≤ bigInt p.protectedVolumeKobo := by
      rw [hplatforms]
      intro p hp
      obtain ⟨o, -, rfl⟩ := List.mem_map.mp hp
      simp only [toResponse, bigInt_kobo]
      exact aggregate_volumes (hin o) fun t ht => hpos t (hin o t ht)
    rcases List.mem_cons.mp hp with rfl | hp
    · have hreleased := hmoney .releasedVolume
      have hprotected := hmoney .protectedVolume
      simp only [PlatformMetricsResponse.money] at hreleased hprotected
      rw [hreleased, hprotected]
      exact List.sum_le_sum hrows
    · exact hrows p hp
  · intro m
    rw [hplatforms, List.map_map]
    exact List.map_congr_left fun o _ => money_toResponse _ m
  · intro m
    rw [← hmoney m, htotals]
    cases m <;> simp [Summed.totals, PlatformMetricsResponse.money]
  · intro hsmall
    have hexact : ∀ c, r.platforms.map (fun p => p.count c) =
        allOrigins.map fun o => (w.aggregate o (from' o (w.cohort start stop))).count c := by
      intro c
      rw [hplatforms, List.map_map]
      refine List.map_congr_left fun o _ => (count_toResponse _ c).trans (toNumber_exact ?_)
      exact (aggregate_le_length _ _ _ c).trans ((List.length_filter_le _ _).trans hsmall)
    refine ⟨hexact, fun c => ?_⟩
    have hsum : (r.platforms.map fun p => p.count c).sum ≤ (w.cohort start stop).length := by
      rw [hexact c, ← length_from]
      exact List.sum_le_sum fun o _ => aggregate_le_length _ _ _ c
    have hzero : (Summed.totals {}).count c = 0 := by cases c <;> rfl
    rw [htotals, count_totals, hzero, foldl_add_exact (by omega), Nat.zero_add]

namespace Demo

/-- A transaction as the chat makes one, with this identifier. -/
def transaction (id : Uuid) (origin : TransactionOrigin) (status : TransactionStatus) :
    Transaction where
  id := id
  publicLinkId := id.text
  sellerId := id
  buyerId := none
  title := "phone"
  description := none
  amount := 5000
  currency := "NGN"
  status := status
  releaseRule := .buyerConfirmation
  expectedDeliveryDate := none
  feeModel := .sellerPays
  feeAmount := 0
  merchantId := none
  origin := origin

/-- A character of an identifier: of its first two places and its last twelve. -/
def digit (f : Fin 14 → Fin 16) (i : Fin 36) : Char :=
  if i.val = 8 ∨ i.val = 13 ∨ i.val = 18 ∨ i.val = 23 then '-'
  else if h : i.val < 2 then Nat.digitChar (f ⟨i, by omega⟩)
  else if h : 24 ≤ i.val then Nat.digitChar (f ⟨i - 22, by omega⟩)
  else '0'

theorem digitChar_hex : ∀ d : Fin 16, ((Nat.digitChar d).isDigit ||
    ('a'.val ≤ (Nat.digitChar d).val && (Nat.digitChar d).val ≤ 'f'.val)) = true := by decide

theorem digitChar_injective : ∀ d d' : Fin 16, Nat.digitChar d = Nat.digitChar d' → d = d' := by
  decide

theorem isUuid_digits (f : Fin 14 → Fin 16) : isUuid (String.ofList (List.ofFn (digit f))) = true := by
  rw [isUuid, String.toList_ofList, List.length_ofFn, Bool.and_eq_true, List.all_eq_true]
  refine ⟨by decide, ?_⟩
  rintro ⟨c, i⟩ hmem
  obtain ⟨hi, hc⟩ := List.getElem?_eq_some_iff.mp (List.mem_zipIdx_iff_getElem?.mp hmem)
  rw [List.getElem_ofFn] at hc
  replace hi : i < 36 := by simpa using hi
  obtain rfl : digit f ⟨i, hi⟩ = c := hc
  simp only [digit]
  by_cases hdash : i = 8 ∨ i = 13 ∨ i = 18 ∨ i = 23
  · rcases hdash with rfl | rfl | rfl | rfl <;> rfl
  · have hno : ¬ (i == 8 || i == 13 || i == 18 || i == 23) = true := by
      simpa [or_assoc] using hdash
    have hplain : ∀ c : Char, (c.isDigit || ('a'.val ≤ c.val && c.val ≤ 'f'.val)) = true →
        (if (i == 8 || i == 13 || i == 18 || i == 23) = true then c == '-'
          else c.isDigit || ('a'.val ≤ c.val && c.val ≤ 'f'.val)) = true :=
      fun c hc => by rw [if_neg hno]; exact hc
    refine hplain _ ?_
    rw [if_neg hdash]
    split
    · exact digitChar_hex _
    · split
      · exact digitChar_hex _
      · decide

/-- The identifier with these digits. -/
def identifier (f : Fin 14 → Fin 16) : Uuid := ⟨_, isUuid_digits f⟩

theorem identifier_injective {f g : Fin 14 → Fin 16} (h : identifier f = identifier g) : f = g := by
  have hdigits : digit f = digit g := List.ofFn_injective
    (String.ofList_injective (congrArg Uuid.text h))
  funext i
  refine digitChar_injective _ _ ?_
  by_cases hi : i.val < 2
  · have hplace := congrFun hdigits ⟨i, by omega⟩
    rwa [digit, digit, if_neg (by simp only; omega), dif_pos hi,
      if_neg (by simp only; omega), dif_pos hi] at hplace
  · have hplace := congrFun hdigits ⟨i + 22, by omega⟩
    have hlow : ¬ i.val + 22 < 2 := by omega
    have hhigh : 24 ≤ i.val + 22 := by omega
    rw [digit, digit, if_neg (by simp only; omega), dif_neg hlow, dif_pos hhigh,
      if_neg (by simp only; omega), dif_neg hlow, dif_pos hhigh] at hplace
    simpa using hplace

/-- Transactions of different identifiers are rows of one table. -/
theorem no_clash {f g : Fin 14 → Fin 16} {o o' : TransactionOrigin} {s s' : TransactionStatus}
    (h : f ≠ g) : Constrained.clash (transaction (identifier f) o s)
      (transaction (identifier g) o' s') = false := by
  have hid : identifier f ≠ identifier g := fun heq => h (identifier_injective heq)
  have htext : (identifier f).text ≠ (identifier g).text := fun heq => hid (Uuid.ext heq)
  simp [Constrained.clash, transaction, hid, htext]

/-- Drafts: one from Telegram, the others from the web. -/
def drafts (first : Fin 14 → Fin 16) (others : List (Fin 14 → Fin 16))
    (h : (first :: others).Nodup) : Ledger where
  transactions := {
    rows := transaction (identifier first) .telegram .draft ::
      others.map fun f => transaction (identifier f) .web .draft
    distinct := List.pairwise_cons.mpr ⟨fun t ht => by
        obtain ⟨f, hf, rfl⟩ := List.mem_map.mp ht
        exact no_clash fun heq => (List.nodup_cons.mp h).1 (heq ▸ hf),
      List.pairwise_map.mpr ((List.nodup_cons.mp h).2.imp fun hne => no_clash hne)⟩ }
  timeline := []
  createdAt _ := 0
  recorded t ht := by
    have hdraft : t.status = .draft := by
      rcases List.mem_cons.mp ht with rfl | ht
      · rfl
      · obtain ⟨f, -, rfl⟩ := List.mem_map.mp ht
        rfl
    exact ⟨[], hdraft ▸ .nil _, rfl⟩

theorem count_drafts (first : Fin 14 → Fin 16) (others : List (Fin 14 → Fin 16))
    (h : (first :: others).Nodup) :
    ((drafts first others h).getPlatformMetrics 0 1).platforms.map (fun p => p.count .created) =
      [toNumber others.length, 1, 0, 0, 0, 0, 0] := by
  have hcohort : (drafts first others h).cohort 0 1 = transaction (identifier first) .telegram .draft ::
      others.map fun f => transaction (identifier f) .web .draft := by
    simp [Store.cohort, Table.filter, drafts]
  have hweb : ∀ o, o ≠ .web → (others.map fun f => transaction (identifier f) .web .draft).filter
      (fun t => t.origin == o) = [] := by
    intro o ho
    simp [transaction, List.filter_map, Function.comp_def, ho.symm]
  rw [platforms_eq, List.map_map, hcohort]
  simp only [allOrigins, List.map_cons, List.map_nil, Function.comp_apply, count_toResponse,
    PlatformMetrics.count, Store.aggregate, from', List.filter_cons, hweb, ne_eq, reduceCtorEq,
    not_false_eq_true]
  simp [transaction, List.filter_map, Function.comp_def]
  decide

/-- A disputed transaction that was released all the same. -/
def contested : List Passage :=
  [⟨.draft, .sellerPublish, .linkActive⟩, ⟨.linkActive, .buyerInitiateCheckout, .paymentPending⟩,
   ⟨.paymentPending, .paymentVerified .webhook, .paymentProtected⟩,
   ⟨.paymentProtected, .raiseDispute, .disputed⟩,
   ⟨.disputed, .resolveDisputeForSeller, .releaseProcessing⟩,
   ⟨.releaseProcessing, .payoutSucceeded, .completed⟩]

def settled : TransactionContext := ⟨.buyerConfirmation, false, false⟩

theorem contested_path : Path .draft contested .completed :=
  (((((((Path.nil .draft).snoc (p := ⟨.draft, .sellerPublish, .linkActive⟩) rfl ⟨settled, rfl⟩).snoc
    (p := ⟨.linkActive, .buyerInitiateCheckout, .paymentPending⟩) rfl ⟨settled, rfl⟩).snoc
    (p := ⟨.paymentPending, .paymentVerified .webhook, .paymentProtected⟩) rfl ⟨settled, rfl⟩).snoc
    (p := ⟨.paymentProtected, .raiseDispute, .disputed⟩) rfl ⟨settled, rfl⟩).snoc
    (p := ⟨.disputed, .resolveDisputeForSeller, .releaseProcessing⟩) rfl ⟨settled, rfl⟩).snoc
    (p := ⟨.releaseProcessing, .payoutSucceeded, .completed⟩) rfl ⟨settled, rfl⟩)

/-- The one transaction, and its timeline. -/
def released : Ledger where
  transactions := ⟨[transaction (identifier fun _ => 0) .web .completed], List.pairwise_singleton _ _⟩
  timeline := contested.map fun p =>
    { transactionId := identifier fun _ => 0, actorId := none, actorRole := none,
      type := timelineType p.event, oldState := p.src.text, newState := p.dst.text, reason := none }
  createdAt _ := 0
  recorded t ht := by
    cases List.mem_singleton.mp ht
    refine ⟨contested, contested_path, ?_⟩
    simp [contested, entered, transaction]

theorem cohort_released : released.cohort 0 1 =
    [transaction (identifier fun _ => 0) .web .completed] := by
  simp [Store.cohort, Table.filter, released]

end Demo

/-- The funnel of a transaction that was disputed and released. -/
theorem funnel_sound_released :
    (∀ p ∈ (Demo.released.getPlatformMetrics 0 1).totals ::
        (Demo.released.getPlatformMetrics 0 1).platforms,
      Funnel p ∧ bigInt p.releasedVolumeKobo ≤ bigInt p.protectedVolumeKobo) ∧
    ∀ c, (Demo.released.getPlatformMetrics 0 1).totals.count c =
      ((Demo.released.getPlatformMetrics 0 1).platforms.map fun p => p.count c).sum := by
  obtain ⟨-, hfunnel, hvolumes, -, -, -, hcounts⟩ := funnel_sound Demo.released 0 1
  have hpos : ∀ t ∈ Demo.released.transactions, 0 ≤ t.amount := by
    intro t ht
    cases List.mem_singleton.mp ht
    decide
  refine ⟨fun p hp => ⟨hfunnel p hp, hvolumes hpos p hp⟩, (hcounts ?_).2⟩
  rw [Demo.cohort_released]
  norm_num

/-- **A total that is not the sum.** One draft from Telegram and `2 ^ 53` from the web: the total says
`2 ^ 53`. -/
theorem total_rounded : ¬ ∀ (w : Ledger) (start stop : Int) (c : Count),
    (w.getPlatformMetrics start stop).totals.count c =
      ((w.getPlatformMetrics start stop).platforms.map fun p => p.count c).sum := by
  intro hall
  have hcard : 2 ^ 53 ≤ ((Finset.univ : Finset (Fin 14 → Fin 16)).erase fun _ => 0).card := by
    rw [Finset.card_erase_of_mem (Finset.mem_univ _), Finset.card_univ, Fintype.card_fun,
      Fintype.card_fin, Fintype.card_fin]
    norm_num
  obtain ⟨s, hs, hsize⟩ := Finset.exists_subset_card_eq hcard
  have hnodup : ((fun _ => 0) :: s.toList : List (Fin 14 → Fin 16)).Nodup := by
    refine List.nodup_cons.mpr ⟨fun hmem => ?_, s.nodup_toList⟩
    exact absurd rfl (Finset.mem_erase.mp (hs (Finset.mem_toList.mp hmem))).1
  have htotal := hall (Demo.drafts _ _ hnodup) 0 1 .created
  have hrows := Demo.count_drafts _ _ hnodup
  rw [Finset.length_toList, hsize] at hrows
  rw [hrows] at htotal
  have hfold : ((Demo.drafts _ _ hnodup).getPlatformMetrics 0 1).totals.count .created =
      [toNumber (2 ^ 53), 1, 0, 0, 0, 0, 0].foldl add 0 := by
    rw [← hrows]
    exact count_totals _ {} .created
  rw [hfold] at htotal
  revert htotal
  decide

end Meduman.Analytics
