import Meduman.Core.Does
import Meduman.Core.Outline

/-!
# One collection per transaction

No column makes it so: the optimistic guard of the checkout transition lets one call through, and
the rows it writes afterwards, in separate steps, are the only ones.

* `Opened` : the transaction is past its checkout, for good
* `OnlyOnce` : a checkout links and charges after its own transition, once
* `Sole`, `Held` : the invariants
* **`single_collection`** : every run
-/

set_option autoImplicit false

namespace Meduman

open Effect

variable {env : Env} {c : Call} {h : Hist} {u w : World} {id : Uuid}

/-! ## Past the checkout -/

/-- Nobody can check the transaction out any more. -/
def TransactionStatus.opened : TransactionStatus → Bool
  | draft | linkActive => false
  | _ => true

theorem edges_opened : ∀ e ∈ edges, emitted e.2.1 = true → e.1.opened = true →
    e.2.2.opened = true := by decide

theorem edges_pending : ∀ e ∈ edges, emitted e.2.1 = true → e.2.2 = .paymentPending →
    e.1.opened = false := by decide

def Opened (w : World) (id : Uuid) : Prop :=
  ∃ t ∈ w.transactions, t.id = id ∧ t.status.opened = true

/-- The transaction is in one of these states. -/
def InStates (S : TransactionStatus → Bool) (w : World) (id : Uuid) : Prop :=
  ∃ t ∈ w.transactions, t.id = id ∧ S t.status = true

variable {S : TransactionStatus → Bool}

/-- Every row keeps its identifier, and stays in these states. -/
theorem InStates.update {t : Table Transaction} {p : Transaction → Bool}
    {f : Transaction → Transaction} (ho : InStates S u id) (write : u.transactions.update p f = some t)
    (hf : ∀ a ∈ u.transactions, p a = true →
      (f a).id = a.id ∧ (S a.status = true → S (f a).status = true)) :
    ∃ a ∈ t, a.id = id ∧ S a.status = true := by
  obtain ⟨a, ha, hid, hstate⟩ := ho
  cases hp : p a with
  | true =>
      obtain ⟨hid', hstate'⟩ := hf a ha hp
      exact ⟨f a, Table.mem_update_of write ha hp, hid'.trans hid, hstate' hstate⟩
  | false => exact ⟨a, Table.mem_update_of_not write ha hp, hid, hstate⟩

/-- States that no emitted event leaves. -/
theorem inStates_change {op : Op} (hS : ∀ e ∈ edges, emitted e.2.1 = true → S e.1 = true →
      S e.2.2 = true) (hj : Justified env c h op) (hc : Change op u w)
    (ho : InStates S u id) : InStates S w id := by
  cases hc with
  | frame same =>
      obtain ⟨t, ht, hstate⟩ := ho
      exact ⟨t, same.transactions ▸ ht, hstate⟩
  | transactionCreate write =>
      obtain ⟨t, ht, hstate⟩ := ho
      exact ⟨t, (Table.mem_create write).mpr (.inl ht), hstate⟩
  | transactionUpdateBuyer write => exact ho.update write fun _ _ _ => ⟨rfl, fun hstate => hstate⟩
  | commit found write =>
      obtain ⟨input, tx, disputes, nextState, -, hok, rfl, hev⟩ := hj
      refine ho.update write fun t _ hsel => ⟨rfl, fun hstate => ?_⟩
      have hst : t.status = tx.status := by
        have hsel' := (Bool.and_eq_true_iff.mp hsel).2
        simpa [ApplyTransitionInput.write] using hsel'
      rw [hst] at hstate
      exact hS _ (transition_ok hok) (emitted_of_justified hev) hstate
  | _ => exact ho

theorem inStates_drift {m : Move} (hm : drift m u = some w) (ho : InStates S u id) :
    InStates S w id := by
  cases m with
  | merge source target =>
      obtain ⟨transactions, payouts, invoices, disputes, write, -, -, -, rfl⟩ := drift_merge hm
      exact ho.update write fun _ _ _ => ⟨rfl, fun hstate => hstate⟩
  | charge reference =>
      simp only [drift] at hm
      split at hm <;> cases hm
      exact ho
  | _ => cases hm; exact ho

theorem opened_change {op : Op} (hj : Justified env c h op) (hc : Change op u w)
    (ho : Opened u id) : Opened w id := inStates_change edges_opened hj hc ho

theorem opened_drift {m : Move} (hm : drift m u = some w) (ho : Opened u id) : Opened w id :=
  inStates_drift hm ho

/-- **The winner.** A committed checkout found the transaction unopened, and opened it. -/
theorem opened_of_commit {d : TransitionWrite} {o : Outcome} {a : (Op.commitTransition d).Ans}
    (hj : CommitJustified h d) (hd : d.newState = .paymentPending)
    (he : exec (.commitTransition d) o u = some (.ok a, w)) :
    ¬ Opened u d.transactionId ∧ Opened w d.transactionId := by
  obtain ⟨hmem, hid, hst, -⟩ := exec_answered he
  obtain ⟨t, eventId, transactions, hfind, -, -, -⟩ := exec_commit_ok he
  obtain ⟨ht, hsel⟩ := Table.find_spec hfind
  refine ⟨?_, a.1, hmem, hid, by rw [hst, hd]; rfl⟩
  rintro ⟨t', ht', hid', hopened⟩
  have hsel' : t.id = d.transactionId ∧ t.status = d.oldState := by
    simpa [TransitionWrite.selects] using hsel
  have htt : t' = t := Table.eq_of_clash ht' ht (by simp [Constrained.clash, hsel'.1, hid'])
  obtain ⟨input, tx, disputes, nextState, -, hok, rfl, hev⟩ := hj
  have hclosed := edges_pending _ (transition_ok hok) (emitted_of_justified hev) hd
  have hold : tx.status.opened = true := by rw [← hopened, htt, hsel'.2]; rfl
  rw [hold] at hclosed
  cases hclosed

/-! ## What a checkout promises -/

/-- The creation of a payment. -/
def Op.isCharge : Op → Bool
  | .paymentCreate _ => true
  | _ => false

/-- A checkout links and charges after its own transition, and charges once. -/
def OnlyOnce (c : Call) (h : Hist) : Op → Prop
  | .transactionFindUnique _ => (∃ buyerId, c.ChecksOut buyerId) → h = []
  | .transactionUpdateBuyer id buyerId => Committed h id .paymentPending ∧ c.ChecksOut buyerId
  | .paymentCreate d => Committed h d.transactionId .paymentPending ∧
      ∀ e ∈ h, e.op.isCharge = false
  | _ => True

/-- A completed checkout linked its buyer, unless it had loaded a transaction with one. -/
def Links (c : Call) (r : Except Err Reply) (h : Hist) : Prop :=
  (∃ buyerId, c.ChecksOut buyerId) → (∃ reply, r = .ok reply) →
    ∀ id, Committed h id .paymentPending →
      (∃ buyerId, Saw h (.transactionUpdateBuyer id buyerId) ()) ∨
        ∃ key t, Saw h (.transactionFindUnique key) (some t) ∧ t.id = id ∧ t.buyerId ≠ none

theorem onlyOnce_of_does {op : Op} (hc : ∀ buyerId, ¬ c.ChecksOut buyerId) (hop : c.Does op)
    (h : Hist) : OnlyOnce c h op := by
  cases op with
  | transactionFindUnique key => exact fun ⟨buyerId, hb⟩ => absurd hb (hc buyerId)
  | transactionUpdateBuyer id buyerId => exact absurd hop (hc buyerId)
  | paymentCreate d => exact absurd hop.choose_spec (hc _)
  | _ => trivial

/-- What a checkout did by the time it links: it loaded, checked, and committed. -/
structure CheckedOut (h : Hist) (tx : Transaction) : Prop where
  committed : Committed h tx.id .paymentPending
  only : ∀ id s, Committed h id s → id = tx.id
  uncharged : ∀ e ∈ h, e.op.isCharge = false
  loaded : ∃ key, Saw h (.transactionFindUnique key) (some tx)

theorem CheckedOut.cons {tx : Transaction} (hs : CheckedOut h tx) {e : Event Op.Ans Err}
    (hcommits : Event.commits e = false) (hcharge : e.op.isCharge = false) :
    CheckedOut (e :: h) tx where
  committed := hs.committed.mono (List.subset_cons_self _ _)
  only id s hc := hs.only id s (committed_append (l := [e]) (by simpa using hcommits) hc)
  uncharged := List.forall_mem_cons.mpr ⟨hcharge, hs.uncharged⟩
  loaded := hs.loaded.imp fun _ hsaw => List.mem_cons_of_mem _ hsaw

theorem isCharge_of_dispatches {e : Event Op.Ans Err} (he : Event.dispatches e) :
    e.op.isCharge = false := by
  unfold Event.dispatches at he
  split at he <;> first | rfl | exact he.elim

/-- **The transition of a checkout.** -/
theorem checkout_traces {tx : Transaction} {buyerId : Uuid}
    {Q : Except Err Transaction → Hist → Prop} (hnew : ∀ id s, ¬ Committed h id s)
    (huncharged : ∀ e ∈ h, e.op.isCharge = false)
    (hloaded : ∃ key, Saw h (.transactionFindUnique key) (some tx))
    (herr : ∀ e h', Q (.error e) h') (hok : ∀ t h', CheckedOut h' tx → Q (.ok t) h') :
    (apply (checkout tx.id buyerId)).Along Possible (OnlyOnce c) Q h := by
  refine apply_traces trivial (fun _ _ _ _ => trivial) (fun _ _ => trivial)
    (fun e l _ => herr e _) fun tx' disputes nextState a l hl hnext _ => hok a.1 _ ?_
  have hpending : nextState = .paymentPending := by
    have hedge := transition_ok hnext
    revert hedge
    generalize tx'.status = s
    have hall : ∀ e ∈ edges, e.2.1 = .buyerInitiateCheckout → e.2.2 = .paymentPending := by decide
    exact fun hedge => hall _ hedge rfl
  refine ⟨⟨_, a, List.mem_append_right _ List.mem_cons_self, rfl, hpending⟩, fun id s hc => ?_,
    fun e he => ?_, hloaded.imp fun key hsaw =>
      List.mem_append_right _ (List.mem_cons_of_mem _ (List.mem_cons_of_mem _ hsaw))⟩
  · rcases committed_cons (committed_append (fun e he => Event.commits_of_dispatches (hl e he)) hc)
      with ⟨d, a', heq, hid, -⟩ | hc
    · cases heq
      exact hid.symm
    · exact absurd (committed_append (l := [_]) (by simp [Event.commits]) hc) (hnew id s)
  · rcases List.mem_append.mp he with he | he
    · exact isCharge_of_dispatches (hl e he)
    · rcases List.mem_cons.mp he with rfl | he
      · rfl
      · rcases List.mem_cons.mp he with rfl | he
        · rfl
        · exact huncharged e he

/-- A checkout links its buyer to a transaction it loaded without one. -/
def Linked (h : Hist) (tx : Transaction) : Prop :=
  (∃ buyerId, Saw h (.transactionUpdateBuyer tx.id buyerId) ()) ∨ tx.buyerId ≠ none

theorem linkBuyer_along {tx : Transaction} {buyerId : Uuid} {Q : Except Err Unit → Hist → Prop}
    (hc : c.ChecksOut buyerId) (hs : CheckedOut h tx) (herr : ∀ e h', Q (.error e) h')
    (hok : ∀ h', CheckedOut h' tx → Linked h' tx → Q (.ok ()) h') :
    (linkBuyer tx buyerId).Along Possible (OnlyOnce c) Q h := by
  unfold linkBuyer
  split
  · refine (along_perform _ _).mpr ⟨⟨hs.committed, hc⟩, fun e _ => herr e _, fun a _ => ?_⟩
    exact hok _ (hs.cons rfl rfl) (.inl ⟨buyerId, List.mem_cons_self⟩)
  · rename_i hsome
    refine hok _ hs (.inr fun hnone => ?_)
    rw [hnone] at hsome
    exact hsome rfl

theorem Linked.cons {tx : Transaction} (hl : Linked h tx) (e : Event Op.Ans Err) :
    Linked (e :: h) tx :=
  hl.imp_left fun ⟨buyerId, hsaw⟩ => ⟨buyerId, List.mem_cons_of_mem _ hsaw⟩

/-- A checkout that linked its buyer may complete. -/
theorem CheckedOut.links {tx : Transaction} {h : Hist} (hs : CheckedOut h tx) (hl : Linked h tx)
    (l : Hist) (hcommits : ∀ e ∈ l, Event.commits e = false) (r : Except Err Reply) :
    Links c r (l ++ h) := by
  intro _ _ id hc
  obtain rfl := hs.only id _ (committed_append hcommits hc)
  rcases hl with ⟨buyerId, hsaw⟩ | hsome
  · exact .inl ⟨buyerId, List.mem_append_right _ hsaw⟩
  · obtain ⟨key, hsaw⟩ := hs.loaded
    exact .inr ⟨key, tx, List.mem_append_right _ hsaw, rfl, hsome⟩

theorem links_error (e : Err) (h : Hist) : Links c (.error e) h := by
  rintro - ⟨reply, hr⟩
  cases hr

/-- The transaction a checkout is for is what it loads first. -/
theorem resolveTransaction_loads (input : InitializeCollectionInput) :
    (resolveTransaction input).Along Possible (OnlyOnce c) (fun r h => ∀ tx, r = .ok (some tx) →
      ∃ key, h = [⟨.transactionFindUnique key, .ok (some tx)⟩]) [] := by
  have hload : ∀ key : TransactionKey, (await (.transactionFindUnique key)).Along Possible
      (OnlyOnce c) (fun r h => ∀ tx, r = .ok (some tx) →
        ∃ key, h = [⟨.transactionFindUnique key, .ok (some tx)⟩]) [] := by
    intro key
    refine (along_perform _ _).mpr ⟨fun _ => rfl, ?_, ?_⟩
    · rintro e - tx heq
      cases heq
    · rintro a - tx heq
      cases heq
      exact ⟨key, rfl⟩
  unfold resolveTransaction
  split
  · exact hload _
  · exact hload _
  · rintro tx heq
    cases heq

theorem initializeCollection_links (input : InitializeCollectionInput) :
    (initializeCollection env input).Along Possible (OnlyOnce (.initializeCollection input))
      (Prog.Then Possible (OnlyOnce (.initializeCollection input))
        (Links (.initializeCollection input)) fun r => .done (.ok (Reply.collection r))) [] := by
  have hbuyer : (Call.initializeCollection input).ChecksOut input.buyerId := rfl
  unfold initializeCollection
  rw [along_bind]
  refine (resolveTransaction_loads input).mono fun r h hload => ?_
  rcases r with e | _ | tx
  · exact links_error e h
  · exact links_error _ h
  obtain ⟨key, rfl⟩ := hload tx rfl
  rw [then_ok, along_bind]
  refine checkout_traces (by rintro id s ⟨d, a, hmem, -⟩; simp at hmem) (by simp [Op.isCharge])
    ⟨key, List.mem_cons_self⟩ (fun e h' => links_error e h') fun t h₁ hs₁ => ?_
  rw [then_ok, along_bind]
  refine linkBuyer_along hbuyer hs₁ (fun e h' => links_error e h') fun h₂ hs₂ hl₂ => ?_
  rw [then_ok, along_perform_bind]
  refine ⟨trivial, fun e _ => links_error e _, fun uuid _ => ?_⟩
  have hs₃ := hs₂.cons (e := ⟨.randomUUID, .ok uuid⟩) rfl rfl
  rw [along_perform_bind]
  refine ⟨⟨hs₃.committed, hs₃.uncharged⟩, fun e _ => links_error e _, fun payment _ => ?_⟩
  rw [along_perform_bind]
  refine ⟨trivial, fun e _ => links_error e _, fun url _ => ?_⟩
  exact hs₂.links hl₂ [_, _, _] (by simp [Event.commits]) _

theorem initializeVirtualAccount_links (transactionId buyerId : Uuid) (email : String) :
    (initializeVirtualAccount transactionId buyerId email).Along Possible
      (OnlyOnce (.initializeVirtualAccount transactionId buyerId email))
      (Prog.Then Possible (OnlyOnce (.initializeVirtualAccount transactionId buyerId email))
        (Links (.initializeVirtualAccount transactionId buyerId email))
        fun r => .done (.ok (Reply.account r))) [] := by
  have hbuyer : (Call.initializeVirtualAccount transactionId buyerId email).ChecksOut buyerId := rfl
  unfold initializeVirtualAccount
  rw [along_perform_bind]
  refine ⟨fun _ => rfl, fun e _ => links_error e _, ?_⟩
  rintro (_ | tx) -
  · exact links_error _ _
  rw [along_perform_bind]
  refine ⟨trivial, fun e _ => links_error e _, ?_⟩
  rintro (_ | existing) -
  · rw [along_bind]
    refine checkout_traces (by rintro id s ⟨d, a, hmem, -⟩; simp at hmem) (by simp [Op.isCharge])
      ⟨.id transactionId, List.mem_cons_of_mem _ List.mem_cons_self⟩
      (fun e h' => links_error e h') fun t h₁ hs₁ => ?_
    rw [then_ok, along_bind]
    refine linkBuyer_along hbuyer hs₁ (fun e h' => links_error e h') fun h₂ hs₂ hl₂ => ?_
    rw [then_ok, along_perform_bind]
    refine ⟨trivial, fun e _ => links_error e _, fun uuid _ => ?_⟩
    rw [along_perform_bind]
    refine ⟨trivial, fun e _ => links_error e _, fun customerCode _ => ?_⟩
    rw [along_perform_bind]
    refine ⟨trivial, fun e _ => links_error e _, fun account _ => ?_⟩
    have hs₃ := ((hs₂.cons (e := ⟨.randomUUID, .ok uuid⟩) rfl rfl).cons
      (e := ⟨.createCustomer email, .ok customerCode⟩) rfl rfl).cons
      (e := ⟨.createDedicatedAccount customerCode, .ok account⟩) rfl rfl
    rw [along_perform_bind]
    refine ⟨⟨hs₃.committed, hs₃.uncharged⟩, fun e _ => links_error e _, fun payment _ => ?_⟩
    exact hs₂.links hl₂ [_, _, _, _] (by simp [Event.commits]) _
  · -- a re-request takes nothing over
    rintro - - id ⟨d, a, hmem, -⟩
    simp at hmem

/-- **Every call charges only once.** -/
theorem code_onlyOnce (env : Env) (c : Call) :
    (code env c).Along Possible (OnlyOnce c) (Links c) [] := by
  have hother : (∀ buyerId, ¬ c.ChecksOut buyerId) →
      (code env c).Along Possible (OnlyOnce c) (Links c) [] := fun hc =>
    (code_does env c).along (fun h op hop => onlyOnce_of_does hc hop h)
      fun r l _ hchecks => absurd hchecks.choose_spec (hc _)
  cases c with
  | initializeCollection input =>
      rw [code, Prog.map_eq, along_bind]
      exact initializeCollection_links input
  | initializeVirtualAccount transactionId buyerId email =>
      rw [code, Prog.map_eq, along_bind]
      exact initializeVirtualAccount_links transactionId buyerId email
  | _ => exact hother fun _ h => h

/-! ## What one operation changes -/

/-- Payments keep what they are for; only a creation adds a row. -/
theorem payments_change {op : Op} (hc : Change op u w) :
    (∀ p ∈ w.payments, ∃ p₀ ∈ u.payments, p₀.id = p.id ∧ p₀.transactionId = p.transactionId) ∨
    ∃ d row, op = .paymentCreate d ∧ row.transactionId = d.transactionId ∧
      ∀ p ∈ w.payments, p ∈ u.payments ∨ p = row := by
  cases hc with
  | frame same => exact .inl fun p hp => ⟨p, same.payments ▸ hp, rfl, rfl⟩
  | commit found write payments => exact .inl fun p hp => ⟨p, payments ▸ hp, rfl, rfl⟩
  | paymentCreate write =>
      exact .inr ⟨_, _, rfl, rfl, fun p hp => (Table.mem_create write).mp hp⟩
  | paymentUpdate write =>
      refine .inl fun p hp => ?_
      obtain ⟨p₀, hp₀, rfl⟩ := (Table.mem_update write).mp hp
      refine ⟨p₀, hp₀, ?_⟩
      split <;> exact ⟨rfl, rfl⟩
  | paymentBindCharge write =>
      refine .inl fun p hp => ?_
      obtain ⟨p₀, hp₀, rfl⟩ := (Table.mem_update write).mp hp
      refine ⟨p₀, hp₀, ?_⟩
      split <;> exact ⟨rfl, rfl⟩
  | _ => exact .inl fun p hp => ⟨p, hp, rfl, rfl⟩

/-- Only a link sets the buyer of a transaction. -/
theorem buyers_change {op : Op} (hc : Change op u w) : ∀ t ∈ w.transactions,
    (∃ t₀ ∈ u.transactions, t₀.id = t.id ∧ t₀.buyerId = t.buyerId) ∨
      (t.buyerId = none ∧ ∀ t₀ ∈ u.transactions, t₀.id ≠ t.id) ∨
      ∃ buyerId, op = .transactionUpdateBuyer t.id buyerId ∧ t.buyerId = some buyerId := by
  intro t ht
  cases hc with
  | frame same => exact .inl ⟨t, same.transactions ▸ ht, rfl, rfl⟩
  | transactionCreate write =>
      rcases (Table.mem_create write).mp ht with ht | rfl
      · exact .inl ⟨t, ht, rfl, rfl⟩
      · refine .inr (.inl ⟨rfl, fun t₀ ht₀ hid => ?_⟩)
        have hclash := Table.create_no_clash write ht₀
        simp [Constrained.clash, hid] at hclash
  | transactionUpdateBuyer write =>
      obtain ⟨t₀, ht₀, rfl⟩ := (Table.mem_update write).mp ht
      split
      · rename_i hid
        rw [beq_iff_eq] at hid
        subst hid
        exact .inr (.inr ⟨_, rfl, rfl⟩)
      · exact .inl ⟨t₀, ht₀, rfl, rfl⟩
  | commit found write =>
      obtain ⟨t₀, ht₀, rfl⟩ := (Table.mem_update write).mp ht
      refine .inl ⟨t₀, ht₀, ?_⟩
      split <;> exact ⟨rfl, rfl⟩
  | _ => exact .inl ⟨t, ht, rfl, rfl⟩

theorem payments_drift {m : Move} (hm : drift m u = some w) : w.payments = u.payments := by
  cases m with
  | merge source target =>
      obtain ⟨_, _, _, _, -, -, -, -, rfl⟩ := drift_merge hm
      rfl
  | charge reference =>
      simp only [drift] at hm
      split at hm <;> cases hm
      rfl
  | _ => cases hm; rfl

/-- A merge renames buyers; no other move touches them. -/
theorem buyers_drift {m : Move} (hm : drift m u = some w) : ∀ t ∈ w.transactions,
    ∃ t₀ ∈ u.transactions, t₀.id = t.id ∧ (t.buyerId ≠ none → t₀.buyerId ≠ none) ∧
      ((∀ source target, m ≠ .merge source target) → t₀.buyerId = t.buyerId) := by
  intro t ht
  cases m with
  | merge source target =>
      obtain ⟨transactions, _, _, _, write, -, -, -, rfl⟩ := drift_merge hm
      obtain ⟨t₀, ht₀, rfl⟩ := (Table.mem_update write).mp ht
      refine ⟨t₀, ht₀, rfl, fun hb hnone => hb ?_, fun hm => absurd rfl (hm _ _)⟩
      simp [hnone]
  | charge reference =>
      simp only [drift] at hm
      split at hm <;> cases hm
      exact ⟨t, ht, rfl, fun hb => hb, fun _ => rfl⟩
  | _ => cases hm; exact ⟨t, ht, rfl, fun hb => hb, fun _ => rfl⟩

/-! ## The invariants -/

/-- The call created a payment of the transaction. -/
def Charged (h : Hist) (id : Uuid) : Prop :=
  ∃ d a, (⟨.paymentCreate d, a⟩ : Event Op.Ans Err) ∈ h ∧ d.transactionId = id

/-- The call won the checkout of the transaction. -/
abbrev Won (h : Hist) (id : Uuid) : Prop := Committed h id .paymentPending

/-- **One winner, who alone charges and links.** -/
structure Sole (x : Config (core env)) : Prop where
  opened : ∀ p ∈ x.procs, ∀ id, Won p.hist id → Opened x.world id
  sole : ∀ (i j : Nat) (p q : Process (core env)) (id : Uuid), x.procs[i]? = some p →
    x.procs[j]? = some q → Won p.hist id → Won q.hist id → i = j
  charged : ∀ pay ∈ World.payments x.world, ∃ p ∈ x.procs,
    Won p.hist pay.transactionId ∧ Charged p.hist pay.transactionId
  single : ∀ a ∈ World.payments x.world, ∀ b ∈ World.payments x.world,
    a.transactionId = b.transactionId → a.id = b.id
  bought : ∀ t ∈ World.transactions x.world, t.buyerId ≠ none → ∃ p ∈ x.procs, Won p.hist t.id
  linker : ∀ p ∈ x.procs, ∀ id buyerId, Saw p.hist (.transactionUpdateBuyer id buyerId) () →
    Won p.hist id ∧ p.call.ChecksOut buyerId
  unbought : ∀ p ∈ x.procs, (∃ buyerId, p.call.ChecksOut buyerId) → ∀ key t,
    Saw p.hist (.transactionFindUnique key) (some t) → t.buyerId ≠ none →
      Opened x.world t.id ∧ ¬ Won p.hist t.id

theorem sole_initial : Sole (⟨World.initial, []⟩ : Config (core env)) where
  opened _ hp := absurd hp List.not_mem_nil
  sole _ _ _ _ _ hi := by cases hi
  charged _ hp := absurd hp (Table.not_mem_empty _)
  single _ hp := absurd hp (Table.not_mem_empty _)
  bought _ ht := absurd ht (Table.not_mem_empty _)
  linker _ hp := absurd hp List.not_mem_nil
  unbought _ hp := absurd hp List.not_mem_nil

section Step

variable {x y : Config (core env)} {l : Label (core env)}

/-- The promises of the process that moves. -/
theorem promised (hx : Reachable env Guard.free x) {p : Process (core env)} (hp : p ∈ x.procs)
    {op : Op} {k : Except Err op.Ans → Prog Op.Ans Err Reply} (hk : p.prog = some (.call op k)) :
    Justified env p.call p.hist op ∧ OnlyOnce p.call p.hist op :=
  ⟨hx.holds.justified hp hk,
    (promises (fun _ => code_onlyOnce env _) hx p hp _ hk).1⟩

theorem opened_step (hx : Reachable env Guard.free x) (hs : x.Step y l)
    (ho : Opened x.world id) : Opened y.world id := by
  cases hs with
  | arrive _ hw _ => rw [hw]; exact ho
  | perform hp hk he _ =>
      exact opened_change (promised hx (List.mem_of_getElem? hp) hk).1 (exec_change he) ho
  | crash _ hw _ => rw [hw]; exact ho
  | drift hm _ => exact opened_drift hm ho

/-- A process that won by the end of a step had won before, or wins in it. -/
theorem won_step (hx : Reachable env Guard.free x) (hs : x.Step y l) {j : Nat}
    {q : Process (core env)} (hq : y.procs[j]? = some q) (hw : Won q.hist id) :
    (∃ p, x.procs[j]? = some p ∧ Won p.hist id) ∨
      (¬ Opened x.world id ∧ Opened y.world id ∧ ∃ choice, l = .perform j choice) := by
  rcases hs.hist_cases hq with ⟨p, hp, -, hh⟩ | hh | ⟨p, op, k, choice, a, hp, hk, hl, he, -, hh⟩
  · exact .inl ⟨p, hp, hh ▸ hw⟩
  · rw [hh] at hw
    exact absurd hw (committed_nil _ _)
  · rw [hh] at hw
    rcases committed_cons hw with ⟨d, a, heq, rfl, hd⟩ | hw
    · cases heq
      obtain ⟨hbefore, hafter⟩ :=
        opened_of_commit (promised hx (List.mem_of_getElem? hp) hk).1 hd he
      exact .inr ⟨hbefore, hafter, choice, hl⟩
    · exact .inl ⟨p, hp, hw⟩

theorem exists_won (hs : x.Step y l) (h : ∃ p ∈ x.procs, Won p.hist id) :
    ∃ p ∈ y.procs, Won p.hist id :=
  hs.exists_hist (φ := fun _ h => Won h id) (fun _ _ _ hw => hw.mono (List.subset_cons_self _ _)) h

theorem exists_charged (hs : x.Step y l) (h : ∃ p ∈ x.procs, Won p.hist id ∧ Charged p.hist id) :
    ∃ p ∈ y.procs, Won p.hist id ∧ Charged p.hist id := by
  refine hs.exists_hist (φ := fun _ h => Won h id ∧ Charged h id) (fun _ _ _ hw => ?_) h
  obtain ⟨hw, d, a, hmem, hd⟩ := hw
  exact ⟨hw.mono (List.subset_cons_self _ _), d, a, List.mem_cons_of_mem _ hmem, hd⟩

theorem charged_step (hx : Reachable env Guard.free x) (hI : Sole x) (hs : x.Step y l) :
    (∀ pay ∈ World.payments y.world, ∃ p ∈ y.procs,
      Won p.hist pay.transactionId ∧ Charged p.hist pay.transactionId) ∧
    ∀ a ∈ World.payments y.world, ∀ b ∈ World.payments y.world,
      a.transactionId = b.transactionId → a.id = b.id := by
  have hsame : (∀ pay ∈ World.payments y.world, ∃ pay₀ ∈ World.payments x.world,
      pay₀.id = pay.id ∧ pay₀.transactionId = pay.transactionId) →
      (∀ pay ∈ World.payments y.world, ∃ p ∈ y.procs,
        Won p.hist pay.transactionId ∧ Charged p.hist pay.transactionId) ∧
      ∀ a ∈ World.payments y.world, ∀ b ∈ World.payments y.world,
        a.transactionId = b.transactionId → a.id = b.id := by
    refine fun hold => ⟨fun pay hpay => ?_, fun a ha b hb hab => ?_⟩
    · obtain ⟨pay₀, hpay₀, -, htx⟩ := hold pay hpay
      rw [← htx]
      exact exists_charged hs (hI.charged pay₀ hpay₀)
    · obtain ⟨a₀, ha₀, hida, htxa⟩ := hold a ha
      obtain ⟨b₀, hb₀, hidb, htxb⟩ := hold b hb
      rw [← hida, ← hidb]
      exact hI.single a₀ ha₀ b₀ hb₀ (by rw [htxa, htxb, hab])
  rcases hs.world_cases with hw | ⟨i, choice, p, op, k, a, -, hp, hk, he, hq⟩ | ⟨m, -, hm⟩
  · exact hsame fun pay hpay => ⟨pay, by rw [← hw]; exact hpay, rfl, rfl⟩
  · rcases payments_change (exec_change he) with hold | ⟨d, row, rfl, hrow, hnew⟩
    · exact hsame hold
    -- the creation is the winner's, and its first
    obtain ⟨hwon, hfirst⟩ := (promised hx (List.mem_of_getElem? hp) hk).2
    have hmine : ∃ p ∈ y.procs, Won p.hist row.transactionId ∧ Charged p.hist row.transactionId :=
      ⟨_, List.mem_of_getElem? hq, by rw [hrow]; exact hwon.mono (List.subset_cons_self _ _),
        d, a, List.mem_cons_self, hrow.symm⟩
    have hno : ∀ b ∈ World.payments x.world, b.transactionId ≠ row.transactionId := by
      intro b hb heq
      obtain ⟨q, hqm, hqw, d', a', hmem, -⟩ := hI.charged b hb
      obtain ⟨j, hj⟩ := List.getElem?_of_mem hqm
      rw [heq, hrow] at hqw
      obtain rfl := hI.sole j i q p d.transactionId hj hp hqw hwon
      cases hj.symm.trans hp
      cases hfirst _ hmem
    refine ⟨fun pay hpay => ?_, fun a ha b hb hab => ?_⟩
    · rcases hnew pay hpay with hpay | rfl
      · exact exists_charged hs (hI.charged pay hpay)
      · exact hmine
    · rcases hnew a ha with ha | rfl <;> rcases hnew b hb with hb | rfl
      · exact hI.single a ha b hb hab
      · exact absurd hab (hno a ha)
      · exact absurd hab.symm (hno b hb)
      · rfl
  · exact hsame fun pay hpay => ⟨pay, by rw [← payments_drift hm]; exact hpay, rfl, rfl⟩

theorem bought_step (hx : Reachable env Guard.free x) (hI : Sole x) (hs : x.Step y l) :
    ∀ t ∈ World.transactions y.world, t.buyerId ≠ none → ∃ p ∈ y.procs, Won p.hist t.id := by
  intro t ht hb
  rcases hs.world_cases with hw | ⟨i, choice, p, op, k, a, -, hp, hk, he, hq⟩ | ⟨m, -, hm⟩
  · exact exists_won hs (hI.bought t (by rw [← hw]; exact ht) hb)
  · rcases buyers_change (exec_change he) t ht with ⟨t₀, ht₀, hid, hbuyer⟩ |
      ⟨hnone, -⟩ | ⟨buyerId, rfl, -⟩
    · rw [← hid]
      exact exists_won hs (hI.bought t₀ ht₀ (hbuyer ▸ hb))
    · exact absurd hnone hb
    · have hwon := (promised hx (List.mem_of_getElem? hp) hk).2.1
      exact ⟨_, List.mem_of_getElem? hq, hwon.mono (List.subset_cons_self _ _)⟩
  · obtain ⟨t₀, ht₀, hid, hbuyer, -⟩ := buyers_drift hm t ht
    rw [← hid]
    exact exists_won hs (hI.bought t₀ ht₀ (hbuyer hb))

/-- **Step lemma.** -/
theorem sole_step (hx : Reachable env Guard.free x) (hI : Sole x) (hs : x.Step y l) : Sole y where
  opened q hq id hw := by
    obtain ⟨j, hj⟩ := List.getElem?_of_mem hq
    rcases won_step hx hs hj hw with ⟨p, hp, hw⟩ | ⟨-, hafter, -⟩
    · exact opened_step hx hs (hI.opened p (List.mem_of_getElem? hp) id hw)
    · exact hafter
  sole i j p q id hp hq hwp hwq := by
    have hpast : ∀ {k : Nat} {r : Process (core env)}, x.procs[k]? = some r → Won r.hist id →
        Opened x.world id := fun hr hw => hI.opened _ (List.mem_of_getElem? hr) id hw
    rcases won_step hx hs hp hwp with ⟨p', hp', hwp'⟩ | ⟨hno, -, choice, hl⟩
    · rcases won_step hx hs hq hwq with ⟨q', hq', hwq'⟩ | ⟨hno, -⟩
      · exact hI.sole i j p' q' id hp' hq' hwp' hwq'
      · exact absurd (hpast hp' hwp') hno
    · rcases won_step hx hs hq hwq with ⟨q', hq', hwq'⟩ | ⟨-, -, choice', hl'⟩
      · exact absurd (hpast hq' hwq') hno
      · cases hl.symm.trans hl'
        rfl
  charged := (charged_step hx hI hs).1
  single := (charged_step hx hI hs).2
  bought := bought_step hx hI hs
  linker q hq id buyerId hsaw := by
    obtain ⟨j, hj⟩ := List.getElem?_of_mem hq
    rcases hs.hist_cases hj with ⟨p, hp, hcall, hh⟩ | hh |
      ⟨p, op, k, choice, a, hp, hk, -, he, hcall, hh⟩
    · rw [hh] at hsaw ⊢
      rw [hcall]
      exact hI.linker p (List.mem_of_getElem? hp) id buyerId hsaw
    · rw [hh] at hsaw
      cases hsaw
    · rw [hh] at hsaw ⊢
      rw [hcall]
      rcases saw_cons hsaw with heq | hsaw
      · cases heq
        obtain ⟨hwon, hchecks⟩ := (promised hx (List.mem_of_getElem? hp) hk).2
        exact ⟨hwon.mono (List.subset_cons_self _ _), hchecks⟩
      · obtain ⟨hwon, hchecks⟩ := hI.linker p (List.mem_of_getElem? hp) id buyerId hsaw
        exact ⟨hwon.mono (List.subset_cons_self _ _), hchecks⟩
  unbought q hq hchecks key t hsaw hb := by
    obtain ⟨j, hj⟩ := List.getElem?_of_mem hq
    rcases hs.hist_cases hj with ⟨p, hp, hcall, hh⟩ | hh |
      ⟨p, op, k, choice, a, hp, hk, -, he, hcall, hh⟩
    · rw [hh] at hsaw ⊢
      rw [hcall] at hchecks
      obtain ⟨hopened, hno⟩ :=
        hI.unbought p (List.mem_of_getElem? hp) hchecks key t hsaw hb
      exact ⟨opened_step hx hs hopened, hno⟩
    · rw [hh] at hsaw
      cases hsaw
    · rw [hh] at hsaw ⊢
      rw [hcall] at hchecks
      have hpromise := promised hx (List.mem_of_getElem? hp) hk
      rcases saw_cons hsaw with heq | hsaw
      · -- it loads before it does anything else
        cases heq
        obtain ⟨ht, -⟩ := exec_answered he
        obtain ⟨r, hr, hwr⟩ := hI.bought t ht hb
        refine ⟨opened_step hx hs (hI.opened r hr _ hwr), fun hw => ?_⟩
        rcases committed_cons hw with ⟨d, a, heq, -⟩ | hw
        · cases heq
        · rw [hpromise.2 hchecks] at hw
          exact committed_nil _ _ hw
      · obtain ⟨hopened, hno⟩ :=
          hI.unbought p (List.mem_of_getElem? hp) hchecks key t hsaw hb
        refine ⟨opened_step hx hs hopened, fun hw => ?_⟩
        rcases committed_cons hw with ⟨d, a', heq, hid, hd⟩ | hw
        · cases heq
          rw [← hid] at hopened
          exact (opened_of_commit hpromise.1 hd he).1 hopened
        · exact hno hw

theorem sole_of_reachable (hx : Reachable env Guard.free x) : Sole x := by
  induction hx with
  | refl => exact sole_initial
  | tail hrun hstep ih =>
      obtain ⟨l, hl⟩ := hstep
      exact sole_step hrun ih (Config.next_step hl)

/-! ## Who bought -/

/-- Runs in which no accounts are merged. -/
def unmerged : Policy (core env) := fun _ l =>
  match l with
  | .drift (.merge _ _) => false
  | _ => true

/-- Who was linked stays the buyer. -/
def Held (x : Config (core env)) : Prop :=
  ∀ p ∈ x.procs, ∀ id buyerId, Saw p.hist (.transactionUpdateBuyer id buyerId) () →
    ∀ t ∈ World.transactions x.world, t.id = id → t.buyerId = some buyerId

theorem Call.ChecksOut.eq {a b : Uuid} (ha : c.ChecksOut a) (hb : c.ChecksOut b) : a = b := by
  cases c with
  | initializeCollection input => exact Eq.trans (Eq.symm ha) hb
  | initializeVirtualAccount t buyer email => exact Eq.trans (Eq.symm ha) hb
  | _ => exact ha.elim

/-- A link sets the buyer of its transaction. -/
theorem linked_of_exec {buyerId : Uuid} {o : Outcome}
    {a : (Op.transactionUpdateBuyer id buyerId).Ans}
    (he : exec (.transactionUpdateBuyer id buyerId) o u = some (.ok a, w)) :
    ∀ t ∈ w.transactions, t.id = id → t.buyerId = some buyerId := by
  rcases exec_cases he with ⟨-, e, herr⟩ | ⟨s, -, rfl, ha | ⟨e, herr⟩⟩
  · cases herr
  · simp only [effect] at ha ⊢
    split at ha
    · cases ha
    · rename_i transactions hwrite
      rintro t ht rfl
      obtain ⟨t₀, ht₀, heq⟩ := (Table.mem_update hwrite).mp ht
      split at heq
      · rw [← heq]
      · rename_i hne
        rw [← heq] at hne
        simp at hne
  · cases herr

theorem held_step (hx : Reachable env Guard.free x) (hI : Held x) (hl : unmerged x l = true)
    (hs : x.Step y l) : Held y := by
  intro q hq id buyerId hsaw t ht hid
  obtain ⟨j, hj⟩ := List.getElem?_of_mem hq
  have hsole := sole_of_reachable hx
  -- a link seen before this step, by the process that still is at `j`
  have hold : ∀ p : Process (core env), x.procs[j]? = some p →
      Saw p.hist (.transactionUpdateBuyer id buyerId) () → t.buyerId = some buyerId := by
    intro p hp hsaw
    have hbefore := hI p (List.mem_of_getElem? hp) id buyerId hsaw
    obtain ⟨hwon, hchecks⟩ := hsole.linker p (List.mem_of_getElem? hp) id buyerId hsaw
    rcases hs.world_cases with hw | ⟨i, choice, r, op, k, a, -, hr, hk, he, -⟩ | ⟨m, rfl, hm⟩
    · exact hbefore t (by rw [← hw]; exact ht) hid
    · rcases buyers_change (exec_change he) t ht with ⟨t₀, ht₀, hid₀, hbuyer⟩ | ⟨-, hfresh⟩ |
        ⟨buyer', rfl, hset⟩
      · rw [← hbuyer]
        exact hbefore t₀ ht₀ (hid₀.trans hid)
      · obtain ⟨t₁, ht₁, hid₁, -⟩ := hsole.opened p (List.mem_of_getElem? hp) id hwon
        exact absurd (hid₁.trans hid.symm) (hfresh t₁ ht₁)
      · obtain ⟨hwon', hchecks'⟩ := (promised hx (List.mem_of_getElem? hr) hk).2
        rw [hid] at hwon'
        obtain rfl := hsole.sole j i p r id hp hr hwon hwon'
        cases hp.symm.trans hr
        rw [hset, hchecks.eq hchecks']
    · obtain ⟨t₀, ht₀, hid₀, -, hbuyer⟩ := buyers_drift hm t ht
      rw [← hbuyer (by rintro source target rfl; cases hl)]
      exact hbefore t₀ ht₀ (hid₀.trans hid)
  rcases hs.hist_cases hj with ⟨p, hp, -, hh⟩ | hh | ⟨p, op, k, choice, a, hp, hk, -, he, -, hh⟩
  · exact hold p hp (hh ▸ hsaw)
  · rw [hh] at hsaw
    cases hsaw
  · rw [hh] at hsaw
    rcases saw_cons hsaw with heq | hsaw
    · cases heq
      exact linked_of_exec he t ht hid
    · exact hold p hp hsaw

end Step

/-- A checkout that won linked its buyer when it completed. -/
theorem linked_of_completed {x : Config (core env)} (hx : Reachable env Guard.free x)
    {p : Process (core env)} (hp : p ∈ x.procs) {buyerId : Uuid} {reply : Reply}
    (hchecks : p.call.ChecksOut buyerId) (hwon : Won p.hist id)
    (hdone : p.prog = some (.done (.ok reply))) :
    Saw p.hist (.transactionUpdateBuyer id buyerId) () := by
  have hends : Links p.call (.ok reply) p.hist :=
    promises (fun _ => code_onlyOnce env _) hx p hp _ hdone
  have hsole := sole_of_reachable hx
  rcases hends ⟨buyerId, hchecks⟩ ⟨reply, rfl⟩ id hwon with ⟨buyer', hsaw⟩ | ⟨key, t, hsaw, hid, hb⟩
  · rw [hchecks.eq (hsole.linker p hp id buyer' hsaw).2]
    exact hsaw
  · rw [← hid] at hwon
    exact absurd hwon (hsole.unbought p hp ⟨buyerId, hchecks⟩ key t hsaw hb).2

/-- **One collection per transaction.** Over every run a transaction has one payment row, so at most
one that ever succeeds, and one call that won its checkout; once that call has completed, its buyer
is the buyer of the transaction, until accounts are merged. -/
theorem single_collection {x : Config (core env)} (hx : Reachable env Guard.free x) :
    (∀ y, Reaches Guard.free x y → ∀ a ∈ World.payments x.world, ∀ b ∈ World.payments y.world,
      a.transactionId = b.transactionId → a.id = b.id) ∧
    (∀ (i j : Nat) (p q : Process (core env)) (id : Uuid), x.procs[i]? = some p →
      x.procs[j]? = some q → Won p.hist id → Won q.hist id → i = j) ∧
    ∀ p ∈ x.procs, ∀ buyerId id reply, p.call.ChecksOut buyerId → Won p.hist id →
      p.prog = some (.done (.ok reply)) → Follows unmerged ⟨World.initial, []⟩ x →
      ∀ y, Follows unmerged x y → ∀ t ∈ World.transactions y.world, t.id = id →
        t.buyerId = some buyerId := by
  refine ⟨fun y hxy a ha b hb hab => ?_, (sole_of_reachable hx).sole, ?_⟩
  · have hgrows : Grows x.world y.world := ((ground env).holds_reaches hx.holds hxy).2
    obtain ⟨a', ha', hl⟩ := hgrows.payments a ha
    rw [← hl.id]
    exact (sole_of_reachable (hx.trans hxy)).single a' ha' b hb (hl.transactionId.trans hab)
  · intro p hp buyerId id reply hchecks hwon hdone hfx y hxy t ht hid
    have hsaw := linked_of_completed hx hp hchecks hwon hdone
    have hheld : Held y := Follows.invariant (hfx.trans hxy)
      (fun _ hp => absurd hp List.not_mem_nil)
      fun hu hI hl hs => held_step hu hI hl (Config.next_step hs)
    obtain ⟨j, hj⟩ := List.getElem?_of_mem hp
    obtain ⟨q, hq, -, hsuf⟩ := hxy.reaches.hist hj
    exact hheld q (List.mem_of_getElem? hq) id buyerId (hsuf.subset hsaw) t ht hid

namespace Demo

/-- A commit of the checkout of the sale. -/
def wins : Event Op.Ans Err → Bool
  | ⟨.commitTransition d, .ok _⟩ => d.transactionId == sale && d.newState == .paymentPending
  | _ => false

/-- The checkout of process `i` completed and had won. -/
def completed (x : Config (core env)) (i : Nat) : Bool :=
  match x.procs[i]? with
  | some ⟨.initializeCollection input, h, some (.done (.ok _))⟩ =>
      input.buyerId == buyer && h.any wins
  | _ => false

theorem won_of_completed {x : Config (core env)} {i : Nat} (h : completed x i = true) :
    ∃ p ∈ x.procs, p.call.ChecksOut buyer ∧ Won p.hist sale ∧
      ∃ reply, p.prog = some (.done (.ok reply)) := by
  unfold completed at h
  split at h
  · rename_i input hist reply hp
    obtain ⟨hbuyer, hwins⟩ := Bool.and_eq_true_iff.mp h
    obtain ⟨e, he, hwin⟩ := List.any_eq_true.mp hwins
    refine ⟨_, List.mem_of_getElem? hp, beq_iff_eq.mp hbuyer, ?_, reply, rfl⟩
    unfold wins at hwin
    split at hwin
    · rename_i d a
      simp only [Bool.and_eq_true, beq_iff_eq] at hwin
      exact ⟨d, a, he, hwin⟩
    · cases hwin
  · cases h

end Demo

set_option maxRecDepth 20000 in
/-- Of two buyers that check out at once, the one who came first bought. -/
theorem single_collection_raced : ∃ x : Config (core Demo.silent),
    Reachable _ Guard.free x ∧ (∃ t ∈ World.transactions x.world, t.id = Demo.sale) ∧
    ∀ t ∈ World.transactions x.world, t.id = Demo.sale → t.buyerId = some Demo.buyer := by
  have hrun : ((Config.follow unmerged (Demo.checkout Demo.silent ++
      .arrive (.initializeCollection ⟨some Demo.sale, none, Demo.seller, "other"⟩) ::
        Demo.serves Demo.silent 3 2) ⟨World.initial, []⟩).map fun x =>
      Demo.completed x 2 && decide ((World.transactions x.world).rows.map Transaction.id =
        [Demo.sale])) = some true := by decide
  obtain ⟨x, hx, htest⟩ := exists_of_follow hrun
  obtain ⟨hdone, hids⟩ := Bool.and_eq_true_iff.mp htest
  obtain ⟨p, hp, hchecks, hwon, reply, hprog⟩ := Demo.won_of_completed hdone
  exact ⟨x, hx.reaches, (Table.of_map_eq_singleton (of_decide_eq_true hids)).1,
    (single_collection hx.reaches).2.2 p hp _ _ reply hchecks hwon hprog hx x .refl⟩

end Meduman
