import Meduman.Core.Outline
import Meduman.Linking.Does
import Meduman.Linking.Merge

/-!
# A merge and counterparties

Collision detection reports two seller profiles before it looks for a transaction or an invoice between
the two users, and an admin may override what it reports.

* `Joined`, `SelfDealt` : the two are seller and buyer of something; someone is both
* `detectCollision_none_iff`, `detectCollision_seller_iff` : what is reported
* **`never_joined`** : counterparties are merged just where an override hides that they are
* `joined` : there they are
-/

set_option autoImplicit false

namespace Meduman.Linking

open Effect Chat

/-- One of the two sells to the other. -/
def Joined (a b : Uuid) (w : World) : Prop :=
  (∃ t ∈ w.transactions, joins a b t.sellerId t.buyerId = true) ∨
    ∃ i ∈ w.invoices, joins a b i.sellerId i.buyerId = true

/-- Both have a seller profile. -/
def BothSell (a b : Uuid) (w : World) : Prop :=
  (∃ p ∈ w.sellerProfiles, p.userId = a) ∧ ∃ p ∈ w.sellerProfiles, p.userId = b

/-- Somebody buys from themselves. -/
def SelfDealt (w : World) : Prop :=
  (∃ t ∈ w.transactions, t.buyerId = some t.sellerId) ∨
    ∃ i ∈ w.invoices, i.buyerId = some i.sellerId

variable {source target : Uuid} {opts : MergeOptions} {w w' : World}

/-! ## What is reported -/

theorem find_isSome_iff {α : Type} [Constrained α] {t : Table α} {p : α → Bool} :
    (t.find p).isSome = true ↔ ∃ a ∈ t, p a = true := List.find?_isSome

theorem seller_isSome_iff {userId : Uuid} :
    (w.sellerProfiles.find (isOf userId)).isSome = true ↔
      ∃ p ∈ w.sellerProfiles, p.userId = userId := by
  simp only [find_isSome_iff, isOf, beq_iff_eq]

/-- Two seller profiles are reported, whatever else there is. -/
theorem detectCollision_seller_iff :
    detectCollision source target w = some .sellerProfileConflict ↔ BothSell source target w := by
  rw [BothSell, ← seller_isSome_iff, ← seller_isSome_iff, ← Bool.and_eq_true]
  unfold detectCollision
  split
  · simp [*]
  · rename_i hsell
    split
    · simp [hsell]
    · split <;> simp [hsell]

theorem detectCollision_none_iff :
    detectCollision source target w = none ↔
      ¬ BothSell source target w ∧ ¬ Joined source target w := by
  rw [BothSell, Joined, ← seller_isSome_iff, ← seller_isSome_iff, ← Bool.and_eq_true,
    ← find_isSome_iff, ← find_isSome_iff]
  unfold detectCollision
  split
  · simp [*]
  · rename_i hsell
    split
    · simp [*]
    · split <;> simp [*]

/-! ## Who buys from themselves afterwards -/

/-- The parties agree after a merge if they agreed before, or were the two. -/
theorem merged_eq_iff {a b : Uuid} : b.merged source target = a.merged source target ↔
    b = a ∨ (a = source ∧ b = target ∨ a = target ∧ b = source) := by
  unfold Uuid.merged
  by_cases ha : a = source
  · by_cases hb : b = source
    · simp [ha, hb]
    · simp [ha, hb, eq_comm]
  · by_cases hb : b = source
    · simp [ha, Ne.symm ha, hb, eq_comm]
    · simp [ha, hb]

theorem selfDealt_row {sellerId : Uuid} {buyerId : Option Uuid} :
    (buyerId.map fun u => u.merged source target) = some (sellerId.merged source target) ↔
      buyerId = some sellerId ∨ joins source target sellerId buyerId = true := by
  cases buyerId with
  | none => simp [joins]
  | some b => simp [joins, merged_eq_iff]

/-- **Who buys from themselves after a merge** did so before it, or was merged with a counterparty. -/
theorem selfDealt_iff (h : Merged source target w w') :
    SelfDealt w' ↔ SelfDealt w ∨ Joined source target w := by
  simp only [SelfDealt, Joined, Table.mem_def, h.transactions, h.invoices, List.mem_map,
    exists_exists_and_eq_and, reparentTransaction, Invoice.reparent, selfDealt_row, and_or_left,
    exists_or]
  exact or_or_or_comm

/-! ## The merge -/

/-- No merge with these options joins counterparties. -/
def KeepsApart (source target : Uuid) (opts : MergeOptions) (w : World) : Prop :=
  ∀ r, merge source target opts w = .ok r →
    ¬ Joined source target w ∧ (¬ SelfDealt w → ¬ SelfDealt r.2)

/-- **Counterparties are merged just where an override hides them.** -/
theorem keepsApart_iff : KeepsApart source target opts w ↔
    ¬ (opts.overrideCollision = some .sellerProfileConflict ∧ BothSell source target w ∧
      Joined source target w ∧ Clear source target w) := by
  constructor
  · rintro hkeeps ⟨hoverride, hsell, hjoined, hclear⟩
    obtain ⟨r, hr⟩ := merge_commits_iff.mpr
      ⟨.inr (by rw [detectCollision_seller_iff.mpr hsell, hoverride]; rfl), hclear⟩
    exact (hkeeps r hr).1 hjoined
  · rintro hno ⟨report, w'⟩ hr
    obtain ⟨hcollision, hclear⟩ := merge_commits_iff.mp ⟨_, hr⟩
    have hjoined : ¬ Joined source target w := by
      intro hjoined
      rcases hcollision with hnone | heq
      · exact (detectCollision_none_iff.mp hnone).2 hjoined
      · cases hoverride : opts.overrideCollision with
        | none =>
            rw [hoverride] at heq
            exact (detectCollision_none_iff.mp heq).2 hjoined
        | some override =>
            cases override
            rw [hoverride] at heq
            exact hno ⟨hoverride, detectCollision_seller_iff.mp heq, hjoined, hclear⟩
    refine ⟨hjoined, fun hbefore hafter => ?_⟩
    exact ((selfDealt_iff (merge_merged hr)).mp hafter).elim hbefore hjoined

/-- **A merge never joins counterparties.** A merge of counterparties commits just where an override
meets two seller profiles and nothing else is in the way; and the merge that a message is about to make
overrides nothing, so it joins none. -/
theorem never_joined (env : Env) :
    (∀ source target opts w, KeepsApart source target opts w ↔
      ¬ (opts.overrideCollision = some .sellerProfileConflict ∧ BothSell source target w ∧
        Joined source target w ∧ Clear source target w)) ∧
    ∀ x : Config (service env), Reachable env x → ∀ p ∈ x.procs, ∀ source target opts
      (k : Except Err MergeReport → Program Reply),
      p.prog = some (.call (.mergeAccounts source target opts) k) →
        KeepsApart source target opts x.world ∨ ∃ input, p.call = .resolve input := by
  refine ⟨fun _ _ _ _ => keepsApart_iff, fun x hx p hp source target opts k hk => ?_⟩
  rcases does_of_reaches hx hp hk with ⟨-, rfl⟩ | hresolve
  · exact .inl (keepsApart_iff.mpr fun hboth => Option.some_ne_none _ hboth.1.symm)
  · exact .inr hresolve

namespace Demo

def sale : Uuid := ⟨"00000000-0000-4000-8001-000000000003", by decide⟩

/-- The one sells to the other. -/
def soldTo (sellerId buyerId : Uuid) : Transaction where
  id := sale
  publicLinkId := "link"
  sellerId := sellerId
  buyerId := some buyerId
  title := "Phone"
  description := none
  amount := 1000
  currency := "NGN"
  status := .paymentProtected
  releaseRule := .buyerConfirmation
  expectedDeliveryDate := none
  feeModel := .sellerPays
  feeAmount := 0
  merchantId := none
  origin := .web

/-- Two sellers, one of whom buys from the other. -/
def counterparts : World :=
  { World.initial with
    users := ⟨[webUser chatBorn "chat", webUser webBorn "web"], by decide⟩
    sellerProfiles := ⟨[{ userId := chatBorn, providerRecipientCode := some "RCP_1" },
      { userId := webBorn, providerRecipientCode := some "RCP_2" }], by decide⟩
    transactions := ⟨[soldTo chatBorn webBorn], List.pairwise_singleton _ _⟩ }

/-- An admin keeps one of the seller profiles. -/
def ruled : MergeOptions := ⟨some .target, some .sellerProfileConflict⟩

/-- A message of this process is about to merge. -/
def merging (source target : Uuid) (p : Process (service settings)) : Bool :=
  match p.call, p.prog with
  | .message .., some (.call (.mergeAccounts s t _) _) => s == source && t == target
  | _, _ => false

theorem merging_iff {source target : Uuid} {p : Process (service settings)}
    (h : merging source target p = true) : (∃ opts k,
      p.prog = some (.call (.mergeAccounts source target opts) k)) ∧ ∀ i, p.call ≠ .resolve i := by
  unfold merging at h
  split at h
  · rename_i s t opts k hcall hprog
    obtain ⟨hs, ht⟩ := Bool.and_eq_true_iff.mp h
    rw [beq_iff_eq] at hs ht
    subst hs ht
    exact ⟨⟨opts, k, hprog⟩, fun i hi => by rw [hcall] at hi; cases hi⟩
  · cases h

end Demo

set_option maxRecDepth 20000 in
/-- The merge of a first contact joins nobody. -/
theorem never_joined_connecting : ∃ x : Config (service Demo.settings),
    Reachable Demo.settings x ∧ (∃ p ∈ x.procs, Demo.merging Demo.chatBorn Demo.webBorn p = true) ∧
      ∃ opts, KeepsApart Demo.chatBorn Demo.webBorn opts x.world := by
  have hrun : ((Config.run Guard.free Demo.connecting ⟨World.initial, []⟩).map fun x =>
      x.procs.any (Demo.merging Demo.chatBorn Demo.webBorn)) = some true := by decide
  obtain ⟨x, hx, htest⟩ := exists_of_run hrun
  obtain ⟨p, hp, hmerging⟩ := List.any_eq_true.mp htest
  obtain ⟨⟨opts, k, hk⟩, hno⟩ := Demo.merging_iff hmerging
  refine ⟨x, hx, ⟨p, hp, hmerging⟩, opts, ?_⟩
  rcases (never_joined Demo.settings).2 x hx p hp _ _ opts k hk with happart | ⟨input, hresolve⟩
  · exact happart
  · exact absurd hresolve (hno input)

/-- **An override merges a seller with their buyer.** -/
theorem joined : ¬ ∀ source target opts w, KeepsApart source target opts w := by
  intro hall
  have hcommits : (merge Demo.chatBorn Demo.webBorn Demo.ruled Demo.counterparts).toBool = true := by
    decide
  obtain ⟨r, hr⟩ : ∃ r, merge Demo.chatBorn Demo.webBorn Demo.ruled Demo.counterparts = .ok r := by
    cases h : merge Demo.chatBorn Demo.webBorn Demo.ruled Demo.counterparts with
    | ok r => exact ⟨r, rfl⟩
    | error e => rw [h] at hcommits; cases hcommits
  exact (hall _ _ _ _ r hr).1 (.inl ⟨_, List.mem_cons_self, by decide⟩)

end Meduman.Linking
