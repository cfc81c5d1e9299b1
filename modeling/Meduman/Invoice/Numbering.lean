import Meduman.Invoice.Numbers
import Meduman.Invoice.Total

/-!
# No number is given twice

A seller's counter is ahead of the numbers on their invoices and of those their sends hold. Two things
break that: an invoice without a number, of which a seller can have one only, and a merge.

* `Blocks`, `refused_of_blocks` : a write that meets the constraint on a seller's numbers
* `numbering` : a draft is made when all invoices are numbered, and merges bring numbers already passed
* `Numbered`, `numbered_step` : the invariant
* **`numbers_free`** : then no send and no merge is refused, and no number is given twice
* `second_draft` : otherwise a second draft is refused
-/

set_option autoImplicit false

namespace Meduman

open Effect

variable {env : Env} {u w : World}

/-! ## The constraint -/

/-- The write would give an invoice a number that another one of its seller has. -/
def Blocks (w : World) : Op → Prop
  | .invoiceCreate d => ∃ i ∈ w.invoices, i.sellerId = d.sellerId ∧ i.number = d.number
  | .invoiceUpdateManySent id number _ => ∃ i ∈ w.invoices, i.id = id ∧ i.status = .draft ∧
      ∃ j ∈ w.invoices, j.id ≠ id ∧ j.sellerId = i.sellerId ∧ j.number = number
  | _ => False

theorem clash_of_number {i j : Invoice} (hs : i.sellerId = j.sellerId) (hn : i.number = j.number) :
    Constrained.clash i j = true := by
  simp [Constrained.clash, hs, hn]

/-- **A blocked write is refused.** -/
theorem refused_of_blocks {op : Op} (h : Blocks w op) (s : Supply) :
    ∃ e, (effect s w op).1 = .error e := by
  cases op with
  | invoiceCreate d =>
      obtain ⟨i, hi, hseller, hnumber⟩ := h
      simp only [effect]
      split
      · split
        · exact ⟨_, rfl⟩
        · rename_i invoices hcreate
          have hfree := Table.create_no_clash hcreate hi
          rw [clash_of_number (j := d.row s.id) hseller hnumber] at hfree
          cases hfree
      · exact ⟨_, rfl⟩
  | invoiceUpdateManySent id number transactionId =>
      obtain ⟨i, hi, hid, hdraft, j, hj, hne, hseller, hnumber⟩ := h
      simp only [effect, invoiceUpdateMany]
      split
      · exact ⟨_, rfl⟩
      · rename_i invoices hupdate
        have hi' := Table.mem_update_of hupdate hi (by simp [hid, hdraft])
        have hj' := Table.mem_update_of_not hupdate hj (by simp [hne])
        have heq := Table.eq_of_clash hi' hj' (clash_of_number hseller.symm hnumber.symm)
        exact absurd ((congrArg Invoice.id heq).symm.trans hid) hne
  | _ => exact h.elim

/-- **A draft that is not blocked is made,** given identifiers nobody has. -/
theorem drafted_of_unblocked {d : InvoiceCreate} {s : Supply} (h : ¬ Blocks w (.invoiceCreate d))
    (hfits : (d.row s.id).fits = true) (hid : ∀ i ∈ w.invoices, i.id ≠ s.id)
    (hview : ∀ i ∈ w.invoices, i.publicViewId ≠ d.publicViewId) :
    (effect s w (.invoiceCreate d)).1 = .ok (d.row s.id) := by
  obtain ⟨invoices, hcreate⟩ := Table.create_isSome (t := w.invoices) (a := d.row s.id) fun i hi => by
    have hnumber : ¬ (i.sellerId = d.sellerId ∧ i.number = d.number) := fun heq => h ⟨i, hi, heq⟩
    simpa [Constrained.clash, InvoiceCreate.row, hid i hi, hview i hi, sameValue] using hnumber
  simp only [effect, if_pos hfits, hcreate]

/-- **A number that is not blocked is written,** for a transaction no invoice has. -/
theorem sent_of_unblocked {id transactionId : Uuid} {number : String} (s : Supply)
    (h : ¬ Blocks w (.invoiceUpdateManySent id number transactionId))
    (hfree : ∀ i ∈ w.invoices, i.transactionId ≠ some transactionId) :
    ∃ n, (effect s w (.invoiceUpdateManySent id number transactionId)).1 = .ok n := by
  have hwrite : ∃ invoices, w.invoices.update (fun i => i.id == id && i.status == .draft)
      (fun i => i.sent number transactionId) = some invoices := by
    by_cases hdraft : ∃ i ∈ w.invoices, i.id = id ∧ i.status = .draft
    · obtain ⟨i, hi, hid, hstatus⟩ := hdraft
      refine Table.update_one_isSome hi (by simp [hid, hstatus]) (clash_of_number rfl rfl)
        (fun j hj hsel => ?_) fun j hj hne => ?_
      · simp only [Bool.and_eq_true, beq_iff_eq] at hsel
        exact eq_of_id hj hi (hsel.1.trans hid.symm)
      · have hsame : Constrained.clash i j = false := by
          by_contra hclash
          exact hne (Table.eq_of_clash hi hj (by simpa using hclash)).symm
        have hids : j.id ≠ i.id := fun heq => hne (eq_of_id hj hi heq)
        have hnumber : ¬ (i.sellerId = j.sellerId ∧ number = j.number) := fun heq =>
          h ⟨i, hi, hid, hstatus, j, hj, hid ▸ hids, heq.1.symm, heq.2.symm⟩
        simp only [Constrained.clash, Bool.or_eq_false_iff, Bool.and_eq_false_iff] at hsame ⊢
        refine ⟨⟨⟨hsame.1.1.1, ?_⟩, hsame.1.2⟩, ?_⟩
        · simp [Invoice.sent, sameValue, Ne.symm (hfree j hj)]
        · simpa [Invoice.sent] using not_and_or.mp hnumber
    · refine Table.update_isSome fun i hi j hj => ?_
      have hno : ∀ k ∈ w.invoices, ¬ ((k.id == id && k.status == .draft) = true) := by
        intro k hk hsel
        simp only [Bool.and_eq_true, beq_iff_eq] at hsel
        exact hdraft ⟨k, hk, hsel⟩
      rw [if_neg (hno i hi), if_neg (hno j hj)]
  obtain ⟨invoices, hupdate⟩ := hwrite
  refine ⟨w.invoices.count fun i => i.id == id && i.status == .draft, ?_⟩
  simp only [effect, invoiceUpdateMany]
  rw [show w.invoices.update (fun i => i.id == id && i.status == .draft) (fun i => { i with
    status := .sent, number := number, transactionId := some transactionId }) = _ from hupdate]

/-! ## The condition -/

/-- The seller of a send under way that has read its invoice. -/
def sends (p : Process (platform env)) : Option Uuid :=
  match p.call, p.prog with
  | .sendInvoice sellerId _, some (.call _ _) => if p.hist.isEmpty then none else some sellerId
  | _, _ => none

/-- A send under way holds a number of the seller. -/
def Holding (p : Process (platform env)) (sellerId : Uuid) (n : Int) : Prop :=
  sends p = some sellerId ∧ heldSeq p.hist = some n

/-- The numbers a merge brings are passed by the target's counter and free, and the source sends nothing. -/
def joinable (x : Config (platform env)) (source target : Uuid) : Bool :=
  (World.invoices x.world).rows.all (fun i => i.sellerId != source ||
    ((World.invoices x.world).rows.all fun j => j.sellerId != target || i.number != j.number) &&
    (i.number == "" || (List.range (World.nextSeq x.world target).toNat).any fun n =>
      i.number == numberOf n) &&
    x.procs.all fun p => sends p != some target ||
      (heldSeq p.hist).all fun n => i.number != numberOf n) &&
  x.procs.all fun p => sends p != some source

/-- A draft is made by a seller all of whose invoices are numbered. A merge is made when its numbers are
passed and free. -/
def numbering (env : Env) : Policy (platform env) := fun x l =>
  match l with
  | .perform i _ => match x.pending i with
      | some (_, ⟨.invoiceCreate d, _⟩) =>
          (World.invoices x.world).rows.all fun i => i.sellerId != d.sellerId || i.number != ""
      | _ => true
  | .drift (.merge source target) => source == target || joinable x source target
  | _ => true

structure Joinable (x : Config (platform env)) (source target : Uuid) : Prop where
  apart : ∀ i ∈ World.invoices x.world, ∀ j ∈ World.invoices x.world, i.sellerId = source →
    j.sellerId = target → i.number ≠ j.number
  passed : ∀ i ∈ World.invoices x.world, i.sellerId = source → i.number = "" ∨
    ∃ n, 0 ≤ n ∧ n < World.nextSeq x.world target ∧ i.number = numberOf n
  unheld : ∀ i ∈ World.invoices x.world, i.sellerId = source → ∀ p ∈ x.procs, ∀ n,
    Holding p target n → i.number ≠ numberOf n
  silent : ∀ p ∈ x.procs, sends p ≠ some source

variable {x y : Config (platform env)} {l : Label (platform env)} {p q : Process (platform env)}
  {i j : Nat} {sellerId source target : Uuid} {n : Int}

theorem joinable_spec (h : joinable x source target = true) : Joinable x source target := by
  obtain ⟨hrows, hprocs⟩ := Bool.and_eq_true_iff.mp h
  have hrow : ∀ i ∈ World.invoices x.world, i.sellerId = source →
      (((World.invoices x.world).rows.all fun j => j.sellerId != target || i.number != j.number) &&
        (i.number == "" || (List.range (World.nextSeq x.world target).toNat).any fun n =>
          i.number == numberOf n) &&
        x.procs.all fun p => sends p != some target ||
          (heldSeq p.hist).all fun n => i.number != numberOf n) = true := by
    intro i hi hsource
    simpa [hsource] using List.all_eq_true.mp hrows i hi
  refine ⟨fun i hi j hj hs ht => ?_, fun i hi hs => ?_, fun i hi hs p hp n hold => ?_, fun p hp => ?_⟩
  · have hall := (Bool.and_eq_true_iff.mp (Bool.and_eq_true_iff.mp (hrow i hi hs)).1).1
    simpa [ht] using List.all_eq_true.mp hall j hj
  · have hpassed := (Bool.and_eq_true_iff.mp (Bool.and_eq_true_iff.mp (hrow i hi hs)).1).2
    rcases Bool.or_eq_true_iff.mp hpassed with hempty | hany
    · exact .inl (beq_iff_eq.mp hempty)
    · obtain ⟨n, hn, hnumber⟩ := List.any_eq_true.mp hany
      rw [List.mem_range] at hn
      exact .inr ⟨n, Int.natCast_nonneg n, by omega, beq_iff_eq.mp hnumber⟩
  · have hfree := List.all_eq_true.mp (Bool.and_eq_true_iff.mp (hrow i hi hs)).2 p hp
    simpa [hold.1, hold.2] using hfree
  · simpa using List.all_eq_true.mp hprocs p hp

theorem numbering_merge (h : numbering env x (.drift (.merge source target)) = true) :
    source = target ∨ Joinable x source target :=
  (Bool.or_eq_true_iff.mp h).imp beq_iff_eq.mp joinable_spec

/-- **A merge whose numbers are free commits.** -/
theorem merge_commits (h : source = target ∨ Joinable x source target) :
    ∃ y, x.next Guard.free (.drift (.merge source target)) = some y := by
  obtain ⟨transactions, ht⟩ := (World.transactions x.world).update_isSome (p := fun _ => true)
    (f := fun t => { t with
      sellerId := t.sellerId.merged source target
      buyerId := t.buyerId.map fun u => u.merged source target }) fun _ _ _ _ => rfl
  obtain ⟨payouts, hp⟩ := (World.payouts x.world).update_isSome (p := fun _ => true)
    (f := fun p => { p with sellerId := p.sellerId.merged source target }) fun _ _ _ _ => rfl
  obtain ⟨disputes, hd⟩ := (World.disputes x.world).update_isSome (p := fun _ => true)
    (f := fun d => { d with openedBy := d.openedBy.merged source target }) fun _ _ _ _ => rfl
  obtain ⟨invoices, hi⟩ := (World.invoices x.world).update_isSome (p := fun _ => true)
    (f := fun i => { i with sellerId := i.sellerId.merged source target }) fun i hi j hj => by
      -- sellers agree after the merge if they did before, or if their numbers differ
      have hkey : (i.sellerId.merged source target == j.sellerId.merged source target &&
          i.number == j.number) = (i.sellerId == j.sellerId && i.number == j.number) := by
        have hsellers (hn : i.number = j.number) : i.sellerId.merged source target =
            j.sellerId.merged source target ↔ i.sellerId = j.sellerId := by
          unfold Uuid.merged
          rcases h with rfl | hjoin
          · grind
          · have hij := fun hs ht => hjoin.apart i hi j hj hs ht hn
            have hji := fun hs ht => hjoin.apart j hj i hi hs ht hn.symm
            grind
        rw [Bool.eq_iff_iff]
        simpa only [Bool.and_eq_true, beq_iff_eq] using and_congr_left hsellers
      simp only [Constrained.clash, if_true, hkey]
  have hdrift : drift (.merge source target) x.world = some
      { x.world with transactions, payouts, invoices, disputes } := by
    simp only [drift]
    rw [ht, hp, hi, hd]
    rfl
  exact ⟨_, congrArg (Option.map _) hdrift⟩

/-! ## The invariant -/

theorem sends_eq_some : sends p = some sellerId ↔
    ∃ id op k, p.call = .sendInvoice sellerId id ∧ p.prog = some (.call op k) ∧ p.hist ≠ [] := by
  obtain ⟨c, h, prog⟩ := p
  constructor
  · intro hsends
    unfold sends at hsends
    split at hsends
    · rename_i s id op k hcall hprog
      split at hsends
      · cases hsends
      · rename_i hne
        cases hsends
        exact ⟨id, op, k, hcall, hprog, fun hnil => hne (List.isEmpty_iff.mpr hnil)⟩
    · cases hsends
  · rintro ⟨id, op, k, rfl, rfl, hne⟩
    cases h with
    | nil => exact absurd rfl hne
    | cons e h => rfl

/-- The counter of every seller is ahead of the numbers on their invoices and of those their sends hold. -/
structure Numbered (x : Config (platform env)) : Prop where
  started : ∀ sellerId, 1 ≤ World.nextSeq x.world sellerId
  passed : ∀ i ∈ World.invoices x.world, i.number = "" ∨
    ∃ n, 0 ≤ n ∧ n < World.nextSeq x.world i.sellerId ∧ i.number = numberOf n
  drafts : ∀ i ∈ World.invoices x.world, i.status = .draft → i.number = ""
  held : ∀ p ∈ x.procs, ∀ sellerId n, Holding p sellerId n → 0 ≤ n ∧
    n < World.nextSeq x.world sellerId ∧
    ∀ i ∈ World.invoices x.world, i.sellerId = sellerId → i.number ≠ numberOf n
  alone : ∀ (j k : Nat) (p q : Process (platform env)), x.procs[j]? = some p → x.procs[k]? = some q →
    ∀ sellerId n, Holding p sellerId n → Holding q sellerId n → j = k
  loaded : ∀ p ∈ x.procs, ∀ sellerId id invoice, p.call = .sendInvoice sellerId id →
    sends p = some sellerId → Saw p.hist (.invoiceFindUnique (.id id)) (some invoice) →
    invoice.sellerId = sellerId → ∃ i ∈ World.invoices x.world, i.id = id ∧ i.sellerId = sellerId

theorem numbered_initial : Numbered (⟨World.initial, []⟩ : Config (platform env)) where
  started _ := Int.le_refl _
  passed _ hi := absurd hi (Table.not_mem_empty _)
  drafts _ hi := absurd hi (Table.not_mem_empty _)
  held _ hp := absurd hp List.not_mem_nil
  alone _ _ _ _ hp := by cases hp
  loaded _ hp := absurd hp List.not_mem_nil

/-- What the write of a number finds. -/
theorem Numbered.writes (hN : Numbered x) (hx : Reaches Guard.free ⟨World.initial, []⟩ x)
    (hp : x.procs[j]? = some p) {id t : Uuid} {number : String}
    {k : Except Err (Op.invoiceUpdateManySent id number t).Ans → Prog Op.Ans Err Reply}
    (hk : p.prog = some (.call (.invoiceUpdateManySent id number t) k)) :
    ∃ sellerId n, number = numberOf n ∧ Holding p sellerId n ∧
      ∀ i ∈ World.invoices x.world, i.id = id → i.sellerId = sellerId := by
  have hmem := List.mem_of_getElem? hp
  have hallots : Allots p.call p.hist (.invoiceUpdateManySent id number t) :=
    (promises (J := Allots) (fun _ => code_allots env _) hx p hmem _ hk).1
  obtain ⟨sellerId, n, invoice, hcall, hheld, hnumber, hsaw, howner⟩ := hallots
  have hsends : sends p = some sellerId :=
    sends_eq_some.mpr ⟨id, _, k, hcall, hk, List.ne_nil_of_mem hsaw⟩
  refine ⟨sellerId, n, hnumber, ⟨hsends, hheld⟩, fun i hi hid => ?_⟩
  obtain ⟨i', hi', hid', hseller⟩ := hN.loaded p hmem sellerId id invoice hcall hsends hsaw howner
  rw [eq_of_id hi hi' (hid.trans hid'.symm)]
  exact hseller

/-! ## Steps -/

/-- A send under way after a step was under way before it and did not move, or has just moved. -/
theorem sending_cases (hs : x.Step y l) (hj : y.procs[j]? = some q)
    (hsends : sends q = some sellerId) :
    (x.procs[j]? = some q ∧ ∀ o, l ≠ .perform j o) ∨
    ∃ (p : Process (platform env)) (o : Outcome) (op : Op) (a : Except Err op.Ans)
      (k : Except Err op.Ans → Prog Op.Ans Err Reply), l = .perform j o ∧ x.procs[j]? = some p ∧
      p.prog = some (.call op k) ∧ exec op o x.world = some (a, y.world) ∧
      q = ⟨p.call, ⟨op, a⟩ :: p.hist, some (k a)⟩ := by
  obtain ⟨id, op', k', hcall, hprog, hne⟩ := sends_eq_some.mp hsends
  cases hs with
  | arrive hadm hw hprocs =>
      rw [hprocs, List.getElem?_append] at hj
      split at hj
      · exact .inl ⟨hj, fun _ => nofun⟩
      · rw [List.mem_singleton.mp (List.mem_of_getElem? hj)] at hne
        exact absurd rfl hne
  | @perform i o p op k a hp hk he hprocs =>
      rw [hprocs] at hj
      rcases getElem?_set_cases hp hj with ⟨rfl, rfl⟩ | ⟨hij, hj⟩
      · exact .inr ⟨p, o, op, a, k, rfl, hp, hk, he, rfl⟩
      · exact .inl ⟨hj, fun _ heq => hij (Label.perform.inj heq).1.symm⟩
  | crash hp hw hprocs =>
      rw [hprocs] at hj
      rcases getElem?_set_cases hp hj with ⟨rfl, rfl⟩ | ⟨-, hj⟩
      · cases hprog
      · exact .inl ⟨hj, fun _ => nofun⟩
  | drift hm hprocs => exact .inl ⟨hprocs ▸ hj, fun _ => nofun⟩

/-- **Who holds a number** after a step: who held it before and did not write it, or who took it. -/
theorem holding_cases (hx : Reaches Guard.free ⟨World.initial, []⟩ x) (hs : x.Step y l)
    (hj : y.procs[j]? = some q) (hold : Holding q sellerId n) :
    (∃ p : Process (platform env), x.procs[j]? = some p ∧ Holding p sellerId n ∧
      ∀ o id number t k, l = .perform j o →
        p.prog ≠ some (.call (.invoiceUpdateManySent id number t) k)) ∨
    ∃ o counter, l = .perform j o ∧
      exec (.invoiceCounterUpsert sellerId) o x.world = some (.ok counter, y.world) ∧
      n = counter.nextSeq - 1 := by
  rcases sending_cases hs hj hold.1 with ⟨hj, hstays⟩ | ⟨p, o, op, a, k, rfl, hp, hk, he, rfl⟩
  · exact .inl ⟨q, hj, hold, fun o _ _ _ _ heq => absurd heq (hstays o)⟩
  · obtain ⟨id, -, -, hcall, -, -⟩ := sends_eq_some.mp hold.1
    have hallots : Allots p.call p.hist op :=
      (promises (J := Allots) (fun _ => code_allots env _) hx p (List.mem_of_getElem? hp) _ hk).1
    have hseq : (allots ⟨op, a⟩).getD (heldSeq p.hist) = some n :=
      (heldSeq_cons _).symm.trans hold.2
    have hkept (hnone : allots ⟨op, a⟩ = none) : Holding p sellerId n := by
      rw [hnone] at hseq
      refine ⟨sends_eq_some.mpr ⟨id, op, k, hcall, hk, fun hnil => ?_⟩, hseq⟩
      rw [hnil] at hseq
      cases hseq
    cases op with
    | invoiceUpdateManySent id' number t => cases hseq
    | invoiceCounterUpsert s =>
        cases a with
        | ok counter =>
            obtain rfl := hallots sellerId id hcall
            exact .inr ⟨o, counter, rfl, he, (Option.some.inj hseq).symm⟩
        | error e =>
            refine .inl ⟨p, hp, hkept rfl, fun _ _ _ _ _ _ heq => ?_⟩
            rw [hk] at heq
            cases heq
    | _ =>
        refine .inl ⟨p, hp, hkept rfl, fun _ _ _ _ _ _ heq => ?_⟩
        rw [hk] at heq
        cases heq

/-- The platform's environment touches invoices by merging their sellers only. -/
theorem invoices_platformDrift {m : Move} (hm : platformDrift m u = some w) :
    w.invoices = u.invoices ∨ ∃ source target, m = .merge source target ∧
      (u.invoices.update (fun _ => true) fun i =>
        { i with sellerId := i.sellerId.merged source target }) = some w.invoices := by
  cases m with
  | merge source target =>
      obtain ⟨_, _, _, _, -, -, hi, -, rfl⟩ := drift_merge hm
      exact .inr ⟨source, target, rfl, hi⟩
  | charge reference =>
      simp only [platformDrift, drift] at hm
      split at hm <;> cases hm
      exact .inl rfl
  | _ =>
      cases hm
      exact .inl rfl

/-- Where an invoice comes from. -/
inductive Origin (x : Config (platform env)) (l : Label (platform env)) (i : Invoice) : Prop
  | kept {i₀ : Invoice} (mem : i₀ ∈ World.invoices x.world) (same : SameNumber i₀ i)
  | drafted (number : i.number = "")
  | sent {i₀ : Invoice} {j : Nat} {o : Outcome} {p : Process (platform env)} {n : Int} {t : Uuid}
      {k : Except Err (Op.invoiceUpdateManySent i₀.id (numberOf n) t).Ans → Prog Op.Ans Err Reply}
      (mem : i₀ ∈ World.invoices x.world) (label : l = .perform j o) (at' : x.procs[j]? = some p)
      (next : p.prog = some (.call (.invoiceUpdateManySent i₀.id (numberOf n) t) k))
      (hold : Holding p i₀.sellerId n) (eq : i = i₀.sent (numberOf n) t)
  | moved {i₀ : Invoice} {source target : Uuid} (mem : i₀ ∈ World.invoices x.world)
      (joins : Joinable x source target) (seller : i₀.sellerId = source)
      (eq : i = { i₀ with sellerId := target })

theorem Numbered.origin (hN : Numbered x) (hx : Reaches Guard.free ⟨World.initial, []⟩ x)
    (hP : numbering env x l = true) (hs : x.Step y l) {i : Invoice}
    (hi : i ∈ World.invoices y.world) : Origin x l i := by
  rcases hs.world_cases with hw | ⟨j, o, p, op, k, a, rfl, hp, hk, he, -⟩ | ⟨m, rfl, hm⟩
  · exact .kept (hw ▸ hi) (.refl i)
  · replace he : exec op o x.world = some (a, y.world) := he
    have hmem := List.mem_of_getElem? hp
    have hdoes : Call.Does p.call op := (hx.uses (code_does env) p hmem _ hk).1
    rcases invoice_origin he hdoes hi with ⟨i₀, hi₀, hsame⟩ | ⟨d, id, rfl, rfl⟩ |
      ⟨i₀, hi₀, number, t, rfl, -, rfl⟩
    · exact .kept hi₀ hsame
    · have hallots : Allots p.call p.hist (.invoiceCreate d) :=
        (promises (J := Allots) (fun _ => code_allots env _) hx p hmem _ hk).1
      exact .drafted hallots.1
    · obtain ⟨sellerId, n, rfl, hold, howner⟩ := hN.writes hx hp hk
      exact .sent hi₀ rfl hp hk (howner i₀ hi₀ rfl ▸ hold) rfl
  · rcases invoices_platformDrift hm with hsame | ⟨source, target, rfl, hmerge⟩
    · exact .kept (hsame ▸ hi) (.refl i)
    · obtain ⟨i₀, hi₀, rfl⟩ := (Table.mem_update hmerge).mp hi
      by_cases hsource : i₀.sellerId = source
      · rcases numbering_merge hP with rfl | hjoin
        · exact .kept hi₀ ⟨rfl, by simp [Uuid.merged, hsource], rfl, fun h => h⟩
        · exact .moved hi₀ hjoin hsource (by simp [Uuid.merged, hsource])
      · exact .kept hi₀ ⟨rfl, by simp [Uuid.merged, hsource], rfl, fun h => h⟩

/-- **No counter goes back.** -/
theorem nextSeq_le (hs : x.Step y l) (sellerId : Uuid) :
    World.nextSeq x.world sellerId ≤ World.nextSeq y.world sellerId := by
  rcases hs.world_cases with hw | ⟨j, o, p, op, k, a, -, -, -, he, -⟩ | ⟨m, -, hm⟩
  · exact Int.le_of_eq (congrArg (World.nextSeq · sellerId) hw).symm
  · replace he : exec op o x.world = some (a, y.world) := he
    by_cases hop : ∃ s, op = .invoiceCounterUpsert s
    · obtain ⟨s, rfl⟩ := hop
      rcases nextSeq_upsert he with ⟨hw, -⟩ | ⟨-, hnext, -⟩
      · exact Int.le_of_eq (congrArg (World.nextSeq · sellerId) hw).symm
      · rw [hnext]
        by_cases hs : sellerId = s
        · rw [hs, Function.update_self]
          omega
        · exact Int.le_of_eq (Function.update_of_ne hs _ _).symm
    · exact Int.le_of_eq (congrFun (nextSeq_exec he fun s heq => hop ⟨s, heq⟩) sellerId).symm
  · exact Int.le_of_eq (congrFun (nextSeq_drift hm) sellerId).symm

/-- **An invoice stays,** with its number once it has one, and with a seller who is sending it. -/
theorem Numbered.kept (hN : Numbered x) (hx : Reaches Guard.free ⟨World.initial, []⟩ x)
    (hP : numbering env x l = true) (hs : x.Step y l) {i₀ : Invoice}
    (hi₀ : i₀ ∈ World.invoices x.world) : ∃ i ∈ World.invoices y.world, i.id = i₀.id ∧
      (i₀.number ≠ "" → i.number = i₀.number) ∧
      ∀ p ∈ x.procs, sends p = some i₀.sellerId → i.sellerId = i₀.sellerId := by
  rcases hs.world_cases with hw | ⟨j, o, p, op, k, a, rfl, hp, hk, he, -⟩ | ⟨m, rfl, hm⟩
  · exact ⟨i₀, hw ▸ hi₀, rfl, fun _ => rfl, fun _ _ _ => rfl⟩
  · replace he : exec op o x.world = some (a, y.world) := he
    have hdoes : Call.Does p.call op := (hx.uses (code_does env) p (List.mem_of_getElem? hp) _ hk).1
    obtain ⟨i, hi, hid, hseller, hnumber⟩ := invoice_kept he hdoes hi₀
    exact ⟨i, hi, hid, fun hne => hnumber fun hdraft => hne (hN.drafts i₀ hi₀ hdraft),
      fun _ _ _ => hseller⟩
  · rcases invoices_platformDrift hm with hsame | ⟨source, target, rfl, hmerge⟩
    · exact ⟨i₀, hsame ▸ hi₀, rfl, fun _ => rfl, fun _ _ _ => rfl⟩
    · refine ⟨_, Table.mem_update_of hmerge hi₀ rfl, rfl, fun _ => rfl, fun p hp hsends => ?_⟩
      by_cases hsource : i₀.sellerId = source
      · rcases numbering_merge hP with rfl | hjoin
        · simp [Uuid.merged, hsource]
        · exact absurd (hsource ▸ hsends) (hjoin.silent p hp)
      · simp [Uuid.merged, hsource]

/-- An upsert takes a number that is not taken yet. -/
theorem upsert_takes {o : Outcome} {counter : InvoiceCounter}
    (he : exec (.invoiceCounterUpsert sellerId) o x.world = some (.ok counter, y.world)) :
    World.invoices y.world = World.invoices x.world ∧
      counter.nextSeq - 1 = World.nextSeq x.world sellerId ∧
      World.nextSeq y.world sellerId = World.nextSeq x.world sellerId + 1 := by
  rcases nextSeq_upsert he with ⟨-, e, herr⟩ | ⟨hinv, hnext, hcounter⟩
  · cases herr
  · refine ⟨hinv, ?_, by rw [hnext, Function.update_self]⟩
    rw [hcounter counter rfl]
    omega

/-- No invoice bears the next number of its seller. -/
theorem Numbered.next_free (hN : Numbered x) {i : Invoice} (hi : i ∈ World.invoices x.world)
    (hn : World.nextSeq x.world i.sellerId ≤ n) : i.number ≠ numberOf n := by
  have hpos := hN.started i.sellerId
  rcases hN.passed i hi with hempty | ⟨m, hm, hlt, hnumber⟩
  · rw [hempty]
    exact (numberOf_ne_empty (by omega)).symm
  · rw [hnumber]
    intro heq
    have hmn := numberOf_inj hm (by omega) heq
    omega

theorem numbered_step (hx : Reaches Guard.free ⟨World.initial, []⟩ x) (hN : Numbered x)
    (hP : numbering env x l = true) (hs : x.Step y l) : Numbered y where
  started sellerId := Int.le_trans (hN.started sellerId) (nextSeq_le hs sellerId)
  passed i hi := by
    cases hN.origin hx hP hs hi with
    | @kept i₀ mem same =>
        rw [same.number, same.sellerId]
        refine (hN.passed i₀ mem).imp_right fun ⟨n, hn, hlt, heq⟩ => ⟨n, hn, ?_, heq⟩
        exact Int.lt_of_lt_of_le hlt (nextSeq_le hs i₀.sellerId)
    | drafted number => exact .inl number
    | @sent i₀ j o p n t k mem label at' next hold eq =>
        subst eq
        obtain ⟨hn, hlt, -⟩ := hN.held p (List.mem_of_getElem? at') _ _ hold
        exact .inr ⟨n, hn, Int.lt_of_lt_of_le hlt (nextSeq_le hs i₀.sellerId), rfl⟩
    | @moved i₀ source target mem joins seller eq =>
        subst eq
        refine (joins.passed i₀ mem seller).imp_right fun ⟨n, hn, hlt, heq⟩ => ⟨n, hn, ?_, heq⟩
        exact Int.lt_of_lt_of_le hlt (nextSeq_le hs target)
  drafts i hi hdraft := by
    cases hN.origin hx hP hs hi with
    | @kept i₀ mem same => exact same.number.trans (hN.drafts i₀ mem (same.draft hdraft))
    | drafted number => exact number
    | sent mem label at' next hold eq =>
        subst eq
        cases hdraft
    | @moved i₀ source target mem joins seller eq =>
        subst eq
        exact hN.drafts i₀ mem hdraft
  held q hq sellerId n hold := by
    obtain ⟨j, hj⟩ := List.getElem?_of_mem hq
    rcases holding_cases hx hs hj hold with ⟨p, hp, hbefore, hunwritten⟩ |
      ⟨o, counter, rfl, he, rfl⟩
    · have hmem := List.mem_of_getElem? hp
      obtain ⟨hn, hlt, hfree⟩ := hN.held p hmem sellerId n hbefore
      refine ⟨hn, Int.lt_of_lt_of_le hlt (nextSeq_le hs sellerId), fun i hi hseller => ?_⟩
      cases hN.origin hx hP hs hi with
      | @kept i₀ mem same =>
          rw [same.number]
          exact hfree i₀ mem (same.sellerId.symm.trans hseller)
      | drafted number =>
          rw [number]
          exact (numberOf_ne_empty hn).symm
      | @sent i₀ j' o p' n' t k mem label at' next hold' eq =>
          subst eq
          -- who writes a number holds it no longer, and held it alone
          intro heq
          obtain ⟨hn', -, -⟩ := hN.held p' (List.mem_of_getElem? at') _ _ hold'
          obtain rfl := numberOf_inj hn' hn heq
          obtain rfl := hN.alone _ _ p' p at' hp _ _ (hseller ▸ hold') hbefore
          cases at'.symm.trans hp
          exact hunwritten _ _ _ _ _ label next
      | @moved i₀ source target mem joins seller eq =>
          subst eq
          obtain rfl : target = sellerId := hseller
          exact joins.unheld i₀ mem seller p hmem n hbefore
    · obtain ⟨hinv, hcounter, hnext⟩ := upsert_takes he
      have hpos := hN.started sellerId
      refine ⟨by omega, by omega, fun i hi hseller => ?_⟩
      exact hN.next_free (hinv ▸ hi) (by rw [hseller]; omega)
  alone j k p q hp hq sellerId n holdp holdq := by
    rcases holding_cases hx hs hp holdp with ⟨p', hp', hp₀, -⟩ | ⟨o, counter, hl, he, hn⟩
    · rcases holding_cases hx hs hq holdq with ⟨q', hq', hq₀, -⟩ | ⟨o, counter, hl, he, hn⟩
      · exact hN.alone j k p' q' hp' hq' sellerId n hp₀ hq₀
      · have hlt := (hN.held p' (List.mem_of_getElem? hp') sellerId n hp₀).2.1
        have hcounter := (upsert_takes he).2.1
        omega
    · rcases holding_cases hx hs hq holdq with ⟨q', hq', hq₀, -⟩ | ⟨o', counter', hl', he', hn'⟩
      · have hlt := (hN.held q' (List.mem_of_getElem? hq') sellerId n hq₀).2.1
        have hcounter := (upsert_takes he).2.1
        omega
      · exact (Label.perform.inj (hl.symm.trans hl')).1
  loaded q hq sellerId id invoice hcall hsends hsaw howner := by
    -- the invoice was stored when the send read it, and stays with its seller while the send goes on
    have hstays {p : Process (platform env)} (hp : p ∈ x.procs) (hp' : sends p = some sellerId)
        (hi : ∃ i ∈ World.invoices x.world, i.id = id ∧ i.sellerId = sellerId) :
        ∃ i ∈ World.invoices y.world, i.id = id ∧ i.sellerId = sellerId := by
      obtain ⟨i₀, hi₀, hid, hseller⟩ := hi
      obtain ⟨i, hi, hid', -, hkept⟩ := hN.kept hx hP hs hi₀
      exact ⟨i, hi, hid'.trans hid, (hkept p hp (hseller ▸ hp')).trans hseller⟩
    obtain ⟨j, hj⟩ := List.getElem?_of_mem hq
    rcases sending_cases hs hj hsends with ⟨hj, -⟩ | ⟨p, o, op, a, k, rfl, hp, hk, he, rfl⟩
    · have hmem := List.mem_of_getElem? hj
      exact hstays hmem hsends (hN.loaded q hmem sellerId id invoice hcall hsends hsaw howner)
    · have hmem := List.mem_of_getElem? hp
      rcases List.mem_cons.mp hsaw with heq | hsaw
      · cases heq
        rcases exec_cases he with ⟨-, e, herr⟩ | ⟨s, -, hw, hans⟩
        · cases herr
        · obtain ⟨hi, hid⟩ := Table.find_spec (Except.ok.inj (hans.resolve_right nofun)).symm
          exact ⟨invoice, hw ▸ hi, beq_iff_eq.mp hid, howner⟩
      · have hsends' : sends p = some sellerId :=
          sends_eq_some.mpr ⟨id, op, k, hcall, hk, List.ne_nil_of_mem hsaw⟩
        exact hstays hmem hsends'
          (hN.loaded p hmem sellerId id invoice hcall hsends' hsaw howner)

theorem numbered_run (h : Follows (numbering env) ⟨World.initial, []⟩ x) : Numbered x :=
  h.invariant numbered_initial fun hu hI hP hl => numbered_step hu hI hP (Config.next_step hl)

/-! ## Every run -/

theorem Numbered.unblocked (hN : Numbered x) (hx : Reaches Guard.free ⟨World.initial, []⟩ x)
    (hp : x.procs[j]? = some p) {op : Op} {k : Except Err op.Ans → Prog Op.Ans Err Reply}
    (hk : p.prog = some (.call op k)) {o : Outcome} (hP : numbering env x (.perform j o) = true) :
    ¬ Blocks x.world op := by
  intro hblocks
  cases op with
  | invoiceCreate d =>
      obtain ⟨i, hi, hseller, hnumber⟩ := hblocks
      have hallots : Allots p.call p.hist (.invoiceCreate d) :=
        (promises (J := Allots) (fun _ => code_allots env _) hx p (List.mem_of_getElem? hp) _ hk).1
      simp only [numbering, Config.pending_eq hp hk, List.all_eq_true] at hP
      have hnumbered := hP i hi
      simp [hseller, hnumber, hallots.1] at hnumbered
  | invoiceUpdateManySent id number t =>
      obtain ⟨i, hi, hid, -, i', hi', -, hseller, hnumber⟩ := hblocks
      obtain ⟨sellerId, n, rfl, hold, howner⟩ := hN.writes hx hp hk
      obtain ⟨-, -, hfree⟩ := hN.held p (List.mem_of_getElem? hp) _ _ hold
      exact hfree i' hi' (hseller.trans (howner i hi hid)) hnumber
  | _ => exact hblocks

/-- A numbered invoice keeps its number in every run that follows the policy. -/
theorem number_kept (hx : Follows (numbering env) ⟨World.initial, []⟩ x)
    (h : Follows (numbering env) x y) {i : Invoice} (hi : i ∈ World.invoices x.world)
    (hn : i.number ≠ "") : ∃ i' ∈ World.invoices y.world, i'.id = i.id ∧ i'.number = i.number :=
  h.invariant (I := fun z => Numbered z ∧ ∃ i' ∈ World.invoices z.world, i'.id = i.id ∧
      i'.number = i.number) ⟨numbered_run hx, i, hi, rfl, rfl⟩ (fun hu hI hP hl => by
    obtain ⟨hN, i₁, hi₁, hid, hnumber⟩ := hI
    have hreach := hx.reaches.trans hu
    have hs := Config.next_step hl
    obtain ⟨i₂, hi₂, hid', hnumber', -⟩ := hN.kept hreach hP hs hi₁
    exact ⟨numbered_step hreach hN hP hs, i₂, hi₂, hid'.trans hid,
      (hnumber' (hnumber ▸ hn)).trans hnumber⟩) |>.2

theorem nextSeq_run (h : Reaches Guard.free x y) (sellerId : Uuid) :
    World.nextSeq x.world sellerId ≤ World.nextSeq y.world sellerId := by
  induction h with
  | refl => exact Int.le_refl _
  | tail _ hl ih =>
      obtain ⟨l, hl⟩ := hl
      exact Int.le_trans ih (nextSeq_le (Config.next_step hl) sellerId)

/-- Numbering blocks nobody from here. -/
structure NumbersFree (x : Config (platform env)) : Prop where
  /-- No write meets the constraint on a seller's numbers. -/
  writes : ∀ (j : Nat) (p : Process (platform env)) op k o, x.procs[j]? = some p →
    p.prog = some (.call op k) → numbering env x (.perform j o) = true → ¬ Blocks x.world op
  /-- Nor does a merge. -/
  merges : ∀ source target, numbering env x (.drift (.merge source target)) = true →
    ∃ y, x.next Guard.free (.drift (.merge source target)) = some y
  /-- Every number is one the seller's counter has passed. -/
  passed : ∀ i ∈ World.invoices x.world, i.number = "" ∨
    ∃ n, 0 ≤ n ∧ n < World.nextSeq x.world i.sellerId ∧ i.number = numberOf n
  /-- A number taken and not yet written is the number of no invoice, and is nobody else's. -/
  allocated : ∀ (j : Nat) (p : Process (platform env)) sellerId n, x.procs[j]? = some p →
    Holding p sellerId n →
    (∀ i ∈ World.invoices x.world, i.sellerId = sellerId → i.number ≠ numberOf n) ∧
    ∀ (k : Nat) (q : Process (platform env)) m, x.procs[k]? = some q → Holding q sellerId m →
      numberOf m = numberOf n → j = k
  /-- Invoices keep their numbers. -/
  kept : ∀ y, Follows (numbering env) x y → ∀ i ∈ World.invoices x.world, i.number ≠ "" →
    ∃ i' ∈ World.invoices y.world, i'.id = i.id ∧ i'.number = i.number
  /-- What the seller gets later was not given before. -/
  fresh : ∀ y, Follows (numbering env) x y → ∀ i ∈ World.invoices x.world,
    i.number ≠ numberOf (World.nextSeq y.world i.sellerId)

/-- **Numbering blocks nobody,** and no number is given twice, in every run whose drafts are made by
sellers all of whose invoices are numbered and whose merges bring numbers that are passed and free. -/
theorem numbers_free {x : Config (platform env)}
    (h : Follows (numbering env) ⟨World.initial, []⟩ x) : NumbersFree x where
  writes j p op k o hp hk hP := (numbered_run h).unblocked h.reaches hp hk hP
  merges source target hP := merge_commits (numbering_merge hP)
  passed := (numbered_run h).passed
  allocated j p sellerId n hp hold := by
    have hN := numbered_run h
    obtain ⟨hn, -, hfree⟩ := hN.held p (List.mem_of_getElem? hp) sellerId n hold
    refine ⟨hfree, fun k q m hq hold' heq => ?_⟩
    obtain ⟨hm, -, -⟩ := hN.held q (List.mem_of_getElem? hq) sellerId m hold'
    obtain rfl := numberOf_inj hm hn heq
    exact hN.alone j k p q hp hq sellerId m hold hold'
  kept y hy i hi hn := number_kept h hy hi hn
  fresh y hy i hi := (numbered_run h).next_free hi (nextSeq_run hy.reaches i.sellerId)

namespace Demo

/-- The seller drafts an invoice, up to its insertion. -/
def drafting (env : Env) (i : Nat) (id : Uuid) : List (Label (platform env)) :=
  [.arrive (.createInvoice seller (invoiceDto 1000)), serve env i { id := id }].map Label.within

/-- It is inserted. -/
def inserted (env : Env) (i : Nat) (id : Uuid) : List (Label (platform env)) :=
  [serve env i { id := id }].map Label.within

/-- The seller sends it. -/
def numberedOne (env : Env) (i : Nat) : List (Label (platform env)) :=
  (.arrive (.sendInvoice seller bill) :: serves env i 11).map Label.within

/-- A draft is about to be made. -/
def isDrafting {env : Env} (test : InvoiceCreate → Bool) (x : Config (platform env)) : Bool :=
  x.procs.any fun p => match p.prog with
    | some (.call (.invoiceCreate d) _) => test d
    | _ => false

theorem exists_of_isDrafting {env : Env} {test : InvoiceCreate → Bool} {x : Config (platform env)}
    (h : isDrafting test x = true) : ∃ p ∈ x.procs, ∃ d k,
      p.prog = some (.call (.invoiceCreate d) k) ∧ test d = true := by
  obtain ⟨p, hp, htest⟩ := List.any_eq_true.mp h
  split at htest
  · rename_i d k hk
    exact ⟨p, hp, d, k, hk, htest⟩
  · cases htest

end Demo

set_option maxRecDepth 20000 in
/-- **A seller cannot have two drafts.** -/
theorem second_draft : ¬ ∀ (env : Env) (x : Config (platform env)),
    Reaches Guard.free ⟨World.initial, []⟩ x → ∀ p ∈ x.procs, ∀ op k,
      p.prog = some (.call op k) → ¬ Blocks x.world op := by
  intro hall
  have hrun : ((Config.run Guard.free (Demo.drafting Demo.silent 0 Demo.bill ++
      Demo.inserted Demo.silent 0 Demo.bill ++ Demo.drafting Demo.silent 1 Demo.release)
        ⟨World.initial, []⟩).map fun x =>
        Demo.isDrafting (fun d => (World.invoices x.world).rows.any fun i =>
          i.sellerId == d.sellerId && i.number == d.number) x) = some true := by decide
  obtain ⟨x, hx, htest⟩ := exists_of_run hrun
  obtain ⟨p, hp, d, k, hk, hblocked⟩ := Demo.exists_of_isDrafting htest
  obtain ⟨i, hi, hsame⟩ := List.any_eq_true.mp hblocked
  simp only [Bool.and_eq_true, beq_iff_eq] at hsame
  exact hall _ x hx p hp _ k hk ⟨i, hi, hsame⟩

set_option maxRecDepth 20000 in
/-- A second draft is made once the first invoice is sent. -/
theorem numbers_free_sent : ∃ x : Config (platform Demo.silent),
    (World.invoices x.world).rows.map (·.number) = ["INV-0001", ""] ∧ NumbersFree x := by
  have hrun : ((Config.follow (numbering Demo.silent) (Demo.drafting Demo.silent 0 Demo.bill ++
      Demo.inserted Demo.silent 0 Demo.bill ++ Demo.numberedOne Demo.silent 1 ++
      Demo.drafting Demo.silent 2 Demo.release ++ Demo.inserted Demo.silent 2 Demo.release)
        ⟨World.initial, []⟩).map fun x =>
          (World.invoices x.world).rows.map (·.number) == ["INV-0001", ""]) = some true := by decide
  obtain ⟨x, hx, htest⟩ := exists_of_follow hrun
  exact ⟨x, beq_iff_eq.mp htest, numbers_free hx⟩

end Meduman
