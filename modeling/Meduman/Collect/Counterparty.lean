import Meduman.Core.Does
import Meduman.Core.Outline

/-!
# Counterparties

A checkout links its buyer to the transaction it read, if that had none. It does not look at who
sells it; only the chat's `/pay` does.

* `storefront` : the core without account merges
* `Op.ownSale`, `strangers` : no checkout finds that its buyer sells what is to be paid
* **`never_own_counterparty`** : then nobody buys from themselves
* `own_counterparty` : otherwise a seller does
-/

set_option autoImplicit false

namespace Meduman

open Effect

/-- The buyer of a checkout. -/
def Call.checkoutBuyer : Call → Option Uuid
  | .initializeCollection input => some input.buyerId
  | .initializeVirtualAccount _ buyerId _ => some buyerId
  | _ => none

/-- No account merges. -/
def storefrontDrift (m : Move) (w : World) : Option World :=
  match m with
  | .merge .. => none
  | m => drift m w

/-- The core without account merges. -/
abbrev storefront (env : Env) : Service Op.Ans Err :=
  (core env).within (admits env) storefrontDrift

/-- The lookup finds a transaction without a buyer, sold by this user. -/
def Op.ownSale (w : World) (buyerId : Uuid) : Op → Bool
  | .transactionFindUnique key => (w.transactions.find key.selects).any fun t =>
      t.buyerId.isNone && t.sellerId == buyerId
  | _ => false

/-- No checkout finds that its buyer sells the transaction it is for. -/
def strangers (env : Env) : Policy (storefront env) := fun x l =>
  match l with
  | .perform i _ => match x.pending i with
      | some (p, ⟨op, _⟩) => p.call.checkoutBuyer.all fun buyerId => !op.ownSale x.world buyerId
      | none => true
  | _ => true

variable {env : Env} {c : Call} {h : Hist} {u w : World}

/-! ## What one operation does to the parties -/

/-- A later version of a transaction, with the same parties. -/
structure Transaction.SameParties (t t' : Transaction) : Prop where
  id : t'.id = t.id
  sellerId : t'.sellerId = t.sellerId
  buyerId : t'.buyerId = t.buyerId

/-- An operation keeps the parties of a transaction, creates it without a buyer, or links one. -/
theorem parties_change {op : Op} (hc : Change op u w) : ∀ t' ∈ w.transactions,
    (∃ t ∈ u.transactions, t.SameParties t') ∨ t'.buyerId = none ∨
    ∃ t ∈ u.transactions, ∃ buyerId, op = .transactionUpdateBuyer t.id buyerId ∧
      t'.sellerId = t.sellerId ∧ t'.buyerId = some buyerId := by
  intro t' ht'
  cases hc with
  | frame same => exact .inl ⟨t', same.transactions ▸ ht', rfl, rfl, rfl⟩
  | transactionCreate write =>
      rcases (Table.mem_create write).mp ht' with ht' | rfl
      · exact .inl ⟨t', ht', rfl, rfl, rfl⟩
      · exact .inr (.inl rfl)
  | transactionUpdateBuyer write =>
      obtain ⟨t, ht, rfl⟩ := (Table.mem_update write).mp ht'
      split
      · rename_i id buyerId _ hsel
        obtain rfl : t.id = id := by simpa using hsel
        exact .inr (.inr ⟨t, ht, buyerId, rfl, rfl, rfl⟩)
      · exact .inl ⟨t, ht, rfl, rfl, rfl⟩
  | commit found write payments payouts webhookEvents timeline paystack =>
      obtain ⟨t, ht, rfl⟩ := (Table.mem_update write).mp ht'
      split <;> exact .inl ⟨t, ht, rfl, rfl, rfl⟩
  | _ => exact .inl ⟨t', ht', rfl, rfl, rfl⟩

/-- A transaction stays, and with it who sells it. -/
theorem seller_change {op : Op} (hc : Change op u w) : ∀ t ∈ u.transactions,
    ∃ t' ∈ w.transactions, t'.id = t.id ∧ t'.sellerId = t.sellerId := by
  intro t ht
  cases hc with
  | frame same => exact ⟨t, same.transactions ▸ ht, rfl, rfl⟩
  | transactionCreate write => exact ⟨t, (Table.mem_create write).mpr (.inl ht), rfl, rfl⟩
  | transactionUpdateBuyer write =>
      exact Table.exists_update write (R := fun a b => b.id = a.id ∧ b.sellerId = a.sellerId)
        (fun _ => ⟨rfl, rfl⟩) (fun _ _ _ => ⟨rfl, rfl⟩) t ht
  | commit found write payments payouts webhookEvents timeline paystack =>
      exact Table.exists_update write (R := fun a b => b.id = a.id ∧ b.sellerId = a.sellerId)
        (fun _ => ⟨rfl, rfl⟩) (fun _ _ _ => ⟨rfl, rfl⟩) t ht
  | _ => exact ⟨t, ht, rfl, rfl⟩

theorem transactions_storefrontDrift {m : Move} (hm : storefrontDrift m u = some w) :
    w.transactions = u.transactions := by
  cases m with
  | merge source target => cases hm
  | charge reference =>
      simp only [storefrontDrift, drift] at hm
      split at hm <;> cases hm
      rfl
  | _ => cases hm; rfl

/-! ## What a checkout links -/

/-- The call read this transaction, which had no buyer. -/
def SawUnsold (h : Hist) (id : Uuid) : Prop :=
  ∃ key t, Saw h (.transactionFindUnique key) (some t) ∧ t.id = id ∧ t.buyerId = none

/-- A buyer is linked by their own checkout, to a transaction that had none when it was read. -/
def LinksUnsold (c : Call) (h : Hist) : Op → Prop
  | .transactionUpdateBuyer id buyerId => c.checkoutBuyer = some buyerId ∧ SawUnsold h id
  | _ => True

def Op.linksNobody : Op → Prop
  | .transactionUpdateBuyer .. => False
  | _ => True

theorem linksUnsold_of_linksNobody (h : Hist) (op : Op) (hop : op.linksNobody) :
    LinksUnsold c h op := by
  cases op with
  | transactionUpdateBuyer id buyerId => exact hop.elim
  | _ => trivial

variable {α : Type} {P : Event Op.Ans Err → Prop}

theorem along_linksNobody {p : Program α} {Q : Except Err α → Hist → Prop}
    (hp : p.Uses Op.linksNobody) (hQ : ∀ r l, Q r (l ++ h)) :
    p.Along P (LinksUnsold c) Q h :=
  hp.along linksUnsold_of_linksNobody fun r l _ => hQ r l

theorem apply_linksNobody (input : ApplyTransitionInput) : (apply input).Uses Op.linksNobody :=
  apply_uses trivial (fun _ => trivial) fun _ => trivial

theorem SawUnsold.append {id : Uuid} (hs : SawUnsold h id) (l : Hist) : SawUnsold (l ++ h) id := by
  obtain ⟨key, t, hsaw, ht⟩ := hs
  exact ⟨key, t, List.mem_append_right _ hsaw, ht⟩

/-- What a checkout does after it read its transaction. -/
theorem link_linksUnsold {tx : Transaction} {buyerId : Uuid} {rest : Program α}
    {key : TransactionKey} (hc : c.checkoutBuyer = some buyerId)
    (hsaw : Saw h (.transactionFindUnique key) (some tx)) (hrest : rest.Uses Op.linksNobody) :
    (do let _ ← apply (checkout tx.id buyerId)
        linkBuyer tx buyerId
        rest).Along P (LinksUnsold c) (fun _ _ => True) h := by
  rw [along_bind]
  refine along_linksNobody (apply_linksNobody _) fun r l => ?_
  cases r with
  | error e => trivial
  | ok _ =>
      rw [then_ok, along_bind]
      unfold linkBuyer
      split
      · rename_i hnone
        have hunsold : SawUnsold (l ++ h) tx.id :=
          SawUnsold.append ⟨key, tx, hsaw, rfl, Option.isNone_iff_eq_none.mp hnone⟩ l
        refine (along_perform _ _).mpr ⟨⟨hc, hunsold⟩, fun _ _ => trivial, fun _ _ => ?_⟩
        exact along_linksNobody hrest fun _ _ => trivial
      · rw [Prog.pure_eq, along_done, then_ok]
        exact along_linksNobody hrest fun _ _ => trivial

/-- The transaction a checkout resolves is one it read. -/
theorem resolveTransaction_saw (input : InitializeCollectionInput) :
    (resolveTransaction input).Along P (LinksUnsold c) (fun r h' =>
      ∀ tx, r = .ok (some tx) → ∃ key, Saw h' (.transactionFindUnique key) (some tx)) h := by
  have found : ∀ key, (await (.transactionFindUnique key)).Along P (LinksUnsold c) (fun r h' =>
      ∀ tx, r = .ok (some tx) → ∃ key, Saw h' (.transactionFindUnique key) (some tx)) h := by
    refine fun key => (along_perform _ _).mpr ⟨trivial, ?_, ?_⟩
    · rintro e - tx ⟨⟩
    · rintro a - tx heq
      cases heq
      exact ⟨key, List.mem_cons_self⟩
  unfold resolveTransaction
  split
  · exact found _
  · exact found _
  · rintro tx ⟨⟩

theorem initializeCollection_linksUnsold (input : InitializeCollectionInput) :
    (initializeCollection env input).Along P (LinksUnsold (.initializeCollection input))
      (fun _ _ => True) h := by
  unfold initializeCollection
  rw [along_bind]
  refine (resolveTransaction_saw input).mono fun r h' hr => ?_
  rcases r with e | (_ | tx)
  · trivial
  · trivial
  · obtain ⟨key, hsaw⟩ := hr tx rfl
    refine link_linksUnsold rfl hsaw ?_
    refine uses_bind (uses_perform trivial) fun uuid => ?_
    refine uses_bind (uses_perform trivial) fun payment => ?_
    exact uses_bind (uses_perform trivial) fun _ => trivial

theorem initializeVirtualAccount_linksUnsold (transactionId buyerId : Uuid) (email : String) :
    (initializeVirtualAccount transactionId buyerId email).Along P
      (LinksUnsold (.initializeVirtualAccount transactionId buyerId email)) (fun _ _ => True) h := by
  unfold initializeVirtualAccount
  rw [along_perform_bind]
  refine ⟨trivial, fun _ _ => trivial, ?_⟩
  rintro (_ | tx) -
  · trivial
  · dsimp only
    rw [along_perform_bind]
    refine ⟨trivial, fun _ _ => trivial, ?_⟩
    rintro (_ | existing) -
    · refine link_linksUnsold rfl (List.mem_cons_of_mem _ List.mem_cons_self) ?_
      refine uses_bind (uses_perform trivial) fun uuid => ?_
      refine uses_bind (uses_perform trivial) fun customerCode => ?_
      refine uses_bind (uses_perform trivial) fun account => ?_
      exact uses_bind (uses_perform trivial) fun _ => trivial
    · trivial

theorem linksUnsold_map {β : Type} {f : α → β} {p : Program α}
    (hp : p.Along P (LinksUnsold c) (fun _ _ => True) h) :
    (f <$> p).Along P (LinksUnsold c) (fun _ _ => True) h := by
  rw [Prog.map_eq, along_bind]
  refine hp.mono fun r h' _ => ?_
  cases r <;> trivial

/-- **Every call links its own buyer, to a transaction it read without one.** -/
theorem code_linksUnsold (env : Env) (c : Call) :
    (code env c).Along P (LinksUnsold c) (fun _ _ => True) [] := by
  have other : (∀ buyerId, ¬ c.ChecksOut buyerId) →
      (code env c).Along P (LinksUnsold c) (fun _ _ => True) [] := by
    refine fun hc => along_linksNobody ((code_does env c).mono fun op hop => ?_) fun _ _ => trivial
    cases op with
    | transactionUpdateBuyer id buyerId => exact absurd hop (hc buyerId)
    | _ => trivial
  cases c with
  | initializeCollection input => exact linksUnsold_map (initializeCollection_linksUnsold input)
  | initializeVirtualAccount t b e =>
      exact linksUnsold_map (initializeVirtualAccount_linksUnsold t b e)
  | _ => exact other fun _ hc => hc

/-! ## The invariant -/

variable {x y : Config (storefront env)}

/-- Nobody buys from themselves, nor is about to. -/
structure Strangers (x : Config (storefront env)) : Prop where
  rows : ∀ t ∈ World.transactions x.world, t.buyerId ≠ some t.sellerId
  read : ∀ p ∈ x.procs, ∀ buyerId, p.call.checkoutBuyer = some buyerId → ∀ id,
    SawUnsold p.hist id → ∃ t ∈ World.transactions x.world, t.id = id ∧ t.sellerId ≠ buyerId

theorem strangers_initial : Strangers (⟨World.initial, []⟩ : Config (storefront env)) where
  rows t ht := absurd ht (Table.not_mem_empty t)
  read _ hp := absurd hp List.not_mem_nil

/-- A step keeps every transaction, and who sells it. -/
theorem seller_step {l : Label (storefront env)} (hs : x.Step y l) :
    ∀ t ∈ World.transactions x.world,
      ∃ t' ∈ World.transactions y.world, t'.id = t.id ∧ t'.sellerId = t.sellerId := by
  rcases hs.world_cases with hw | ⟨i, o, p, op, k, a, -, -, -, he, -⟩ | ⟨m, -, hm⟩
  · rw [hw]
    exact fun t ht => ⟨t, ht, rfl, rfl⟩
  · replace he : exec op o x.world = some (a, y.world) := he
    exact seller_change (exec_change he)
  · replace hm : storefrontDrift m x.world = some y.world := hm
    rw [transactions_storefrontDrift hm]
    exact fun t ht => ⟨t, ht, rfl, rfl⟩

theorem sawUnsold_cons {e : Event Op.Ans Err} {id : Uuid} (hs : SawUnsold (e :: h) id) :
    SawUnsold h id ∨ ∃ key t, e = ⟨.transactionFindUnique key, .ok (some t)⟩ ∧ t.id = id ∧
      t.buyerId = none := by
  obtain ⟨key, t, hsaw, hid, hnone⟩ := hs
  rcases List.mem_cons.mp hsaw with heq | hsaw
  · exact .inr ⟨key, t, heq.symm, hid, hnone⟩
  · exact .inl ⟨key, t, hsaw, hid, hnone⟩

/-- What a checkout reads while the policy is kept. -/
theorem stranger_of_find {key : TransactionKey} {o : Outcome} {t : Transaction} {buyerId : Uuid}
    (he : exec (.transactionFindUnique key) o u = some (.ok (some t), w))
    (hno : (Op.transactionFindUnique key).ownSale u buyerId = false) (hnone : t.buyerId = none) :
    t ∈ u.transactions ∧ t.sellerId ≠ buyerId := by
  have hfind : u.transactions.find key.selects = some t := by
    rcases exec_cases he with ⟨-, e, herr⟩ | ⟨s, -, -, hans | ⟨e, herr⟩⟩
    · cases herr
    · exact (Except.ok.inj hans).symm
    · cases herr
  refine ⟨(Table.find_spec hfind).1, fun heq => ?_⟩
  rw [Op.ownSale, hfind, Option.any_some, hnone, heq] at hno
  simp at hno

theorem strangers_step (hx : Reaches Guard.free ⟨World.initial, []⟩ x) (hI : Strangers x)
    {l : Label (storefront env)} (hP : strangers env x l = true)
    (hl : x.next Guard.free l = some y) : Strangers y where
  rows t' ht' := by
    rcases (Config.next_step hl).world_cases with hw | ⟨i, o, p, op, k, a, rfl, hp, hk, he, -⟩ |
      ⟨m, -, hm⟩
    · exact hI.rows t' (hw ▸ ht')
    · replace he : exec op o x.world = some (a, y.world) := he
      rcases parties_change (exec_change he) t' ht' with ⟨t, ht, hsame⟩ | hnone |
        ⟨t, ht, buyerId, rfl, hseller, hbuyer⟩
      · rw [hsame.sellerId, hsame.buyerId]
        exact hI.rows t ht
      · rw [hnone]
        exact Option.some_ne_none _ ∘ Eq.symm
      · have hmem := List.mem_of_getElem? hp
        obtain ⟨hcall, hsaw⟩ : LinksUnsold p.call p.hist (.transactionUpdateBuyer t.id buyerId) :=
          (hx.along (J := LinksUnsold) (R := fun _ _ _ => True) possible_of_exec
            (fun _ => code_linksUnsold env _) p hmem _ hk).1
        obtain ⟨t₁, ht₁, hid, hne⟩ := hI.read p hmem buyerId hcall _ hsaw
        have heq : t₁ = t := Table.eq_of_clash ht₁ ht (by simp [Constrained.clash, hid])
        rw [hseller, hbuyer, ← heq]
        exact fun h => hne (Option.some.inj h).symm
    · replace hm : storefrontDrift m x.world = some y.world := hm
      rw [transactions_storefrontDrift hm] at ht'
      exact hI.rows t' ht'
  read q hq buyerId hcall id hsaw := by
    -- who sells what was read does not change
    have keep : (∃ t ∈ World.transactions x.world, t.id = id ∧ t.sellerId ≠ buyerId) →
        ∃ t ∈ World.transactions y.world, t.id = id ∧ t.sellerId ≠ buyerId := by
      rintro ⟨t, ht, hid, hne⟩
      obtain ⟨t', ht', hid', hseller⟩ := seller_step (Config.next_step hl) t ht
      exact ⟨t', ht', hid'.trans hid, hseller ▸ hne⟩
    obtain ⟨j, hj⟩ := List.getElem?_of_mem hq
    rcases (Config.next_step hl).hist_cases hj with ⟨p, hp, hcall', hhist⟩ | hnil |
      ⟨p, op, k, o, a, hp, hk, rfl, he, hcall', hhist⟩
    · rw [hhist] at hsaw
      exact keep (hI.read p (List.mem_of_getElem? hp) buyerId (hcall' ▸ hcall) id hsaw)
    · obtain ⟨key, t, hmem, -⟩ := hsaw
      rw [hnil] at hmem
      cases hmem
    · rw [hhist] at hsaw
      rw [hcall'] at hcall
      rcases sawUnsold_cons hsaw with hsaw | ⟨key, t, heq, rfl, hnone⟩
      · exact keep (hI.read p (List.mem_of_getElem? hp) buyerId hcall id hsaw)
      · cases heq
        simp only [strangers, Config.pending_eq hp hk, hcall, Option.all_some,
          Bool.not_eq_true'] at hP
        obtain ⟨ht, hne⟩ := stranger_of_find he hP hnone
        exact keep ⟨t, ht, rfl, hne⟩

/-- **Nobody is their own counterparty.** In every run of creations and checkouts in which no
checkout finds that its buyer sells the transaction it is to pay, no transaction has one user on both
sides. -/
theorem never_own_counterparty (env : Env) {x : Config (storefront env)}
    (hx : Follows (strangers env) ⟨World.initial, []⟩ x) :
    ∀ t ∈ World.transactions x.world, t.buyerId ≠ some t.sellerId :=
  (hx.invariant (I := Strangers) strangers_initial fun hu hI hP hl =>
    strangers_step hu hI hP hl).rows

namespace Demo

variable (env : Env)

/-- A published sale, and a checkout of it by this user, up to the link. -/
def checkoutBy (buyerId : Uuid) : List (Label (storefront env)) :=
  .arrive (.create (.web seller { title := "Phone", amount := 1000 })) ::
  List.replicate 3 (.perform 0 (.served { id := sale })) ++
  .arrive (.drive { transactionId := sale, event := .sellerPublish, actor := { type := .user } }) ::
  List.replicate 2 (.perform 1 (.served { id := sale })) ++
  .arrive (.initializeCollection ⟨some sale, none, buyerId, "buyer"⟩) ::
  List.replicate 4 (.perform 2 (.served { id := sale }))

/-- The sellers and the buyers of the transactions. -/
def parties (w : World) : List (Uuid × Option Uuid) :=
  w.transactions.rows.map fun t => (t.sellerId, t.buyerId)

end Demo

set_option maxRecDepth 20000 in
/-- **A seller checks out their own sale.** -/
theorem own_counterparty : ¬ ∀ (env : Env) (x : Config (storefront env)),
    Reaches Guard.free ⟨World.initial, []⟩ x →
      ∀ t ∈ World.transactions x.world, t.buyerId ≠ some t.sellerId := by
  intro hall
  have hrun : ((Config.run Guard.free (Demo.checkoutBy Demo.silent Demo.seller)
      ⟨World.initial, []⟩).map fun x =>
        decide (Demo.parties x.world = [(Demo.seller, some Demo.seller)])) = some true := by decide
  obtain ⟨x, hx, htest⟩ := exists_of_run hrun
  obtain ⟨t, ht, heq⟩ := (Table.of_map_eq_singleton (of_decide_eq_true htest)).1
  obtain ⟨hseller, hbuyer⟩ := Prod.mk.inj heq
  exact hall _ x hx t ht (by rw [hseller, hbuyer])

set_option maxRecDepth 20000 in
/-- A buyer checks out a seller's sale. -/
theorem never_own_counterparty_sale : ∃ x : Config (storefront Demo.silent),
    Follows (strangers Demo.silent) ⟨World.initial, []⟩ x ∧
      Demo.parties x.world = [(Demo.seller, some Demo.buyer)] ∧
      ∀ t ∈ World.transactions x.world, t.buyerId ≠ some t.sellerId := by
  have hrun : ((Config.follow (strangers Demo.silent) (Demo.checkoutBy Demo.silent Demo.buyer)
      ⟨World.initial, []⟩).map fun x =>
        decide (Demo.parties x.world = [(Demo.seller, some Demo.buyer)])) = some true := by decide
  obtain ⟨x, hx, htest⟩ := exists_of_follow hrun
  exact ⟨x, hx, of_decide_eq_true htest, never_own_counterparty _ hx⟩

end Meduman
