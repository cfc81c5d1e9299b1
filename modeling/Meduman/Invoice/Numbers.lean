import Meduman.Core.Outline
import Meduman.Effect.Task
import Meduman.Invoice.Steps

/-!
# The numbers of a seller's invoices

A draft bears no number, which is a number like any other to the unique constraint. A send takes the next
number of its seller's counter and writes it to the invoice later; a merge brings numbers from another
counter.

* `numberOf`, `numberOf_inj` : how a number is written
* `World.nextSeq` : the number a seller gets next
* `heldSeq` : the number a send has taken and not yet written
* **`code_allots`** : what a call has seen before it numbers an invoice
* `invoice_origin`, `invoice_kept` : what an operation does to the numbers
-/

set_option autoImplicit false

namespace Meduman

open Effect

variable {env : Env} {c : Call} {h : Hist} {u w : World}

/-! ## Numbers -/

/-- The number a sequence number is written as. -/
def numberOf (seq : Int) : String :=
  let digits := toString seq
  "INV-" ++ String.ofList (List.replicate (4 - digits.length) '0') ++ digits

theorem numberOf_natCast (n : Nat) : (numberOf n).toList =
    "INV-".toList ++ (List.replicate (4 - n.repr.length) '0' ++ Nat.toDigits 10 n) := by
  have hdigits : toString (n : Int) = n.repr := rfl
  simp only [numberOf, hdigits, String.toList_append, String.toList_ofList, Nat.toList_repr,
    List.append_assoc]

/-- **Different sequence numbers are written differently.** -/
theorem numberOf_inj {m n : Int} (hm : 0 ≤ m) (hn : 0 ≤ n) (h : numberOf m = numberOf n) : m = n := by
  obtain ⟨m, rfl⟩ := Int.eq_ofNat_of_zero_le hm
  obtain ⟨n, rfl⟩ := Int.eq_ofNat_of_zero_le hn
  have hlist := congrArg String.toList h
  rw [numberOf_natCast, numberOf_natCast, List.append_cancel_left_eq] at hlist
  -- leading zeros add nothing to the value read back
  have hvalue := congrArg (fun l => Nat.ofDigitChars 10 l 0) hlist
  exact congrArg Int.ofNat (by simpa [Nat.ofDigitChars_append] using hvalue)

theorem numberOf_ne_empty {n : Int} (hn : 0 ≤ n) : numberOf n ≠ "" := by
  obtain ⟨n, rfl⟩ := Int.eq_ofNat_of_zero_le hn
  intro h
  have hlist := congrArg String.toList h
  rw [numberOf_natCast] at hlist
  simp at hlist

/-- The number a seller gets next. -/
def World.nextSeq (w : World) (sellerId : Uuid) : Int :=
  (w.invoiceCounters.column InvoiceCounter.sellerId InvoiceCounter.nextSeq sellerId).getD 1

theorem keyed_counter : Table.Keyed InvoiceCounter.sellerId := fun a b h => by
  simp [Constrained.clash, h]

/-! ## What a send holds -/

/-- A send takes a number, and writes it. -/
def allots : Event Op.Ans Err → Option (Option Int)
  | ⟨.invoiceCounterUpsert _, .ok counter⟩ => some (some (counter.nextSeq - 1))
  | ⟨.invoiceUpdateManySent .., _⟩ => some none
  | _ => none

/-- The number a call has taken and not yet written. -/
def heldSeq (h : Hist) : Option Int := task allots h

theorem heldSeq_cons (e : Event Op.Ans Err) : heldSeq (e :: h) = (allots e).getD (heldSeq h) :=
  task_cons e h

/-- What a call has seen before it numbers an invoice. -/
def Allots (c : Call) (h : Hist) : Op → Prop
  | .invoiceCreate d => d.number = "" ∧ d.status = .draft
  | .invoiceUpdateManySent id number _ => ∃ sellerId n invoice, c = .sendInvoice sellerId id ∧
      heldSeq h = some n ∧ number = numberOf n ∧
      Saw h (.invoiceFindUnique (.id id)) (some invoice) ∧ invoice.sellerId = sellerId
  | .invoiceCounterUpsert s => ∀ sellerId id, c = .sendInvoice sellerId id → s = sellerId
  | _ => True

/-- The operation has nothing to do with numbers. -/
def Op.isUnnumbered : Op → Prop
  | .invoiceCreate _ | .invoiceUpdateManySent .. | .invoiceCounterUpsert _ => False
  | _ => True

theorem allots_of_unnumbered {op : Op} (hop : op.isUnnumbered) (h : Hist) : Allots c h op := by
  cases op with
  | invoiceCreate d => exact hop.elim
  | invoiceUpdateManySent id number transactionId => exact hop.elim
  | invoiceCounterUpsert s => exact hop.elim
  | _ => trivial

theorem allots_unnumbered {e : Event Op.Ans Err} (he : e.op.isUnnumbered) : allots e = none := by
  obtain ⟨op, a⟩ := e
  cases op with
  | invoiceUpdateManySent id number transactionId => exact he.elim
  | invoiceCounterUpsert s => exact he.elim
  | _ => rfl

/-- A program beside the numbers keeps what is held, and what was seen. -/
theorem unnumbered_along {α : Type} {p : Program α} {Q : Except Err α → Hist → Prop}
    (hp : p.Uses Op.isUnnumbered) (hQ : ∀ r h', h ⊆ h' → heldSeq h' = heldSeq h → Q r h') :
    p.Along Possible (Allots c) Q h :=
  hp.along (fun h _ hop => allots_of_unnumbered hop h) fun r l hl =>
    hQ r _ (List.subset_append_right l h) (task_append fun e he => allots_unnumbered (hl e he))

theorem createDraft_unnumbered (input : CreateDraftInput) :
    (createDraft input).Uses Op.isUnnumbered := by
  refine uses_bind (uses_perform trivial) fun uuid => uses_bind (uses_perform trivial) fun tx => ?_
  exact uses_bind (grantRoleFlag_uses trivial fun _ => trivial) fun _ => trivial

theorem getById_unnumbered (id : Uuid) : (Invoices.getById id).Uses Op.isUnnumbered :=
  uses_bind (uses_perform trivial) fun invoice => by cases invoice <;> trivial

/-- **A send** writes the number it took for the seller it read. -/
theorem send_allots (sellerId id : Uuid) :
    (Invoices.send sellerId id).Along Possible (Allots (.sendInvoice sellerId id)) done h := by
  have hafter {α : Type} {p : Program α} {h' : Hist} (hp : p.Uses Op.isUnnumbered) :
      p.Along Possible (Allots (.sendInvoice sellerId id)) done h' :=
    unnumbered_along hp fun _ _ _ _ => trivial
  unfold Invoices.send Invoices.loadOwned Invoices.getById
  rw [along_bind, along_bind, along_perform_bind]
  refine ⟨trivial, fun _ _ => trivial, fun found _ => ?_⟩
  cases found with
  | none => trivial
  | some invoice =>
      dsimp only
      rw [Prog.pure_eq, along_done, then_ok]
      split
      · trivial
      · rename_i howner
        rw [Prog.pure_eq, along_done, then_ok]
        split
        · trivial
        · split
          · trivial
          · rw [along_bind]
            refine unnumbered_along (createDraft_unnumbered _) fun r h₁ hsub₁ _ => ?_
            cases r with
            | error e => trivial
            | ok tx =>
                rw [then_ok, along_bind]
                refine unnumbered_along (apply_uses trivial (fun _ => trivial) fun _ => trivial)
                  fun r h₂ hsub₂ _ => ?_
                cases r with
                | error e => trivial
                | ok _ =>
                    rw [then_ok]
                    unfold Invoices.allocateNumber
                    rw [along_bind, along_perform_bind]
                    refine ⟨fun s i heq => by cases heq; rfl, fun _ _ => trivial, fun counter _ => ?_⟩
                    rw [Prog.pure_eq, along_done, then_ok, along_perform_bind]
                    refine ⟨⟨sellerId, counter.nextSeq - 1, invoice, rfl, rfl, rfl, ?_,
                      not_not.mp howner⟩, fun _ _ => trivial, fun count _ => ?_⟩
                    · exact List.mem_cons_of_mem _ (hsub₂ (hsub₁ List.mem_cons_self))
                    · refine hafter ?_
                      split
                      · exact getById_unnumbered id
                      · refine uses_bind (uses_perform trivial) fun _ => ?_
                        exact uses_bind (uses_perform trivial) fun _ => getById_unnumbered id

/-- **Every call numbers what it read with what it took.** -/
theorem code_allots (env : Env) (c : Call) :
    (code env c).Along Possible (Allots c) done [] := by
  have hmap : ∀ {α : Type} {f : α → Reply} {p : Program α},
      p.Along Possible (Allots c) done [] → (f <$> p).Along Possible (Allots c) done [] := by
    intro α f p hp
    rw [Prog.map_eq, along_bind]
    exact hp.mono fun r h _ => by cases r <;> trivial
  have hother (hcreate : ∀ s dto, c ≠ .createInvoice s dto) (hsend : ∀ s id, c ≠ .sendInvoice s id) :
      (code env c).Along Possible (Allots c) done [] := by
    refine (code_does env c).along (fun h op hop => ?_) fun _ _ _ => trivial
    cases op with
    | invoiceCreate d =>
        obtain ⟨s, dto, heq⟩ := hop
        exact absurd heq (hcreate s dto)
    | invoiceUpdateManySent id number transactionId =>
        obtain ⟨s, heq⟩ := hop
        exact absurd heq (hsend s id)
    | invoiceCounterUpsert s => exact fun s' id heq => absurd heq (hsend s' id)
    | _ => trivial
  cases c with
  | createInvoice sellerId dto =>
      refine hmap ?_
      unfold Invoices.createDraft
      rw [along_perform_bind]
      refine ⟨trivial, fun _ _ => trivial, fun uuid _ => ?_⟩
      exact (along_perform _ _).mpr ⟨⟨rfl, rfl⟩, fun _ _ => trivial, fun _ _ => trivial⟩
  | sendInvoice sellerId id => exact hmap (send_allots sellerId id)
  | _ => exact hother (fun _ _ heq => by cases heq) fun _ _ heq => by cases heq

/-! ## What an operation does to the numbers -/

/-- The same invoice of the same seller, with the same number. -/
structure SameNumber (i i' : Invoice) : Prop where
  id : i'.id = i.id
  sellerId : i'.sellerId = i.sellerId
  number : i'.number = i.number
  draft : i'.status = .draft → i.status = .draft

theorem SameNumber.refl (i : Invoice) : SameNumber i i := ⟨rfl, rfl, rfl, fun h => h⟩

section Rows

variable {op : Op} {o : Outcome} {a : Except Err op.Ans}

/-- The rows of an update that numbers nothing. -/
theorem sameNumber_update {t t' : Table Invoice} {p : Invoice → Bool} {f : Invoice → Invoice}
    (h : t.update p f = some t') (hf : ∀ i, SameNumber i (f i)) :
    (∀ i ∈ t', ∃ i₀ ∈ t, SameNumber i₀ i) ∧ ∀ i₀ ∈ t, ∃ i ∈ t', SameNumber i₀ i := by
  refine ⟨fun i hi => ?_, Table.exists_update h SameNumber.refl fun i _ _ => hf i⟩
  obtain ⟨i₀, hi₀, rfl⟩ := (Table.mem_update h).mp hi
  refine ⟨i₀, hi₀, ?_⟩
  split
  · exact hf i₀
  · exact .refl i₀

/-- An edit and a void number nothing, and make no draft. -/
theorem sameNumber_apply {id : Uuid} {d : InvoiceUpdate} (hdoes : c.Does (.invoiceUpdate id d))
    (i : Invoice) : SameNumber i (d.apply i) := by
  refine ⟨rfl, rfl, rfl, fun hdraft => ?_⟩
  rcases hdoes with ⟨s, dto, -, hnone⟩ | ⟨s, -, rfl⟩
  · simpa only [InvoiceUpdate.apply, hnone, Option.getD_none] using hdraft
  · cases hdraft

/-- The invoice a send has numbered. -/
def Invoice.sent (i : Invoice) (number : String) (transactionId : Uuid) : Invoice :=
  { i with status := .sent, number := number, transactionId := some transactionId }

/-- **Where an invoice comes from:** it was there with its number, is new, or was a draft just sent. -/
theorem invoice_origin (he : exec op o u = some (a, w)) (hdoes : c.Does op) {i : Invoice}
    (hi : i ∈ w.invoices) : (∃ i₀ ∈ u.invoices, SameNumber i₀ i) ∨
      (∃ d id, op = .invoiceCreate d ∧ i = d.row id) ∨
      ∃ i₀ ∈ u.invoices, ∃ number t, op = .invoiceUpdateManySent i₀.id number t ∧
        i₀.status = .draft ∧ i = i₀.sent number t := by
  cases exec_invoices he with
  | frame same => exact .inl ⟨i, same ▸ hi, .refl i⟩
  | create write =>
      rcases (Table.mem_create write).mp hi with hi | rfl
      · exact .inl ⟨i, hi, .refl i⟩
      · exact .inr (.inl ⟨_, _, rfl, rfl⟩)
  | update write => exact .inl ((sameNumber_update write (sameNumber_apply hdoes)).1 i hi)
  | sent write =>
      obtain ⟨i₀, hi₀, rfl⟩ := (Table.mem_update write).mp hi
      split
      · rename_i hsel
        simp only [Bool.and_eq_true, beq_iff_eq] at hsel
        exact .inr (.inr ⟨i₀, hi₀, _, _, by rw [hsel.1], hsel.2, rfl⟩)
      · exact .inl ⟨i₀, hi₀, .refl i₀⟩
  | viewed write => exact .inl ((sameNumber_update write fun _ => ⟨rfl, rfl, rfl, nofun⟩).1 i hi)
  | overdue write => exact .inl ((sameNumber_update write fun _ => ⟨rfl, rfl, rfl, nofun⟩).1 i hi)
  | paid write => exact .inl ((sameNumber_update write fun _ => ⟨rfl, rfl, rfl, nofun⟩).1 i hi)

/-- **An invoice stays,** with its seller, and with its number unless it is a draft being sent. -/
theorem invoice_kept (he : exec op o u = some (a, w)) (hdoes : c.Does op) {i₀ : Invoice}
    (hi₀ : i₀ ∈ u.invoices) : ∃ i ∈ w.invoices, i.id = i₀.id ∧ i.sellerId = i₀.sellerId ∧
      (i₀.status ≠ .draft → i.number = i₀.number) := by
  have same (h : ∃ i ∈ w.invoices, SameNumber i₀ i) : ∃ i ∈ w.invoices, i.id = i₀.id ∧
      i.sellerId = i₀.sellerId ∧ (i₀.status ≠ .draft → i.number = i₀.number) := by
    obtain ⟨i, hi, hs⟩ := h
    exact ⟨i, hi, hs.id, hs.sellerId, fun _ => hs.number⟩
  cases exec_invoices he with
  | frame heq => exact same ⟨i₀, heq ▸ hi₀, .refl i₀⟩
  | create write => exact same ⟨i₀, (Table.mem_create write).mpr (.inl hi₀), .refl i₀⟩
  | update write => exact same ((sameNumber_update write (sameNumber_apply hdoes)).2 i₀ hi₀)
  | sent write =>
      refine ⟨_, (Table.mem_update write).mpr ⟨i₀, hi₀, rfl⟩, ?_⟩
      split
      · rename_i hsel
        simp only [Bool.and_eq_true, beq_iff_eq] at hsel
        exact ⟨rfl, rfl, fun hdraft => absurd hsel.2 hdraft⟩
      · exact ⟨rfl, rfl, fun _ => rfl⟩
  | viewed write => exact same ((sameNumber_update write fun _ => ⟨rfl, rfl, rfl, nofun⟩).2 i₀ hi₀)
  | overdue write => exact same ((sameNumber_update write fun _ => ⟨rfl, rfl, rfl, nofun⟩).2 i₀ hi₀)
  | paid write => exact same ((sameNumber_update write fun _ => ⟨rfl, rfl, rfl, nofun⟩).2 i₀ hi₀)

/-- Only the upsert touches the counters. -/
theorem effect_counters (hop : ∀ s, op ≠ .invoiceCounterUpsert s) (s : Supply) (u : World) :
    (effect s u op).2.invoiceCounters = u.invoiceCounters := by
  cases op with
  | invoiceCounterUpsert s => exact absurd rfl (hop s)
  | commitTransition d =>
      rcases commitTransition_world d s u with heq | ⟨t, transactions, -, -, heq⟩
      · exact congrArg World.invoiceCounters heq
      · exact (congrArg World.invoiceCounters heq).trans rfl
  | paymentUpdate id d =>
      simp only [effect, paymentUpdate]
      split
      · rfl
      · split <;> rfl
  | payoutUpdate key d =>
      simp only [effect, payoutUpdate]
      split
      · rfl
      · split <;> rfl
  | disputeUpdate id d =>
      simp only [effect, disputeUpdate]
      split
      · rfl
      · split <;> rfl
  | invoiceUpdate id d =>
      simp only [effect, invoiceUpdate]
      split
      · rfl
      · split
        · split <;> rfl
        · rfl
  | transactionCreate d | paymentCreate d | payoutCreate d | invoiceCreate d =>
      simp only [effect]
      split
      · split <;> rfl
      · rfl
  | userUpdateRoleFlags _ _ | transactionUpdateBuyer _ _ | disputeCreate _ | webhookEventCreate _
  | webhookEventUpdate _ _ | initializeTransaction _ =>
      simp only [effect]
      split <;> rfl
  | invoiceUpdateManySent _ _ _ | invoiceUpdateManyViewed _ | invoiceUpdateManyOverdue _
  | invoiceUpdateManyPaid _ _ | paymentBindCharge _ _ | initiateTransfer _ | enqueueRelease _
  | startReleaseJob _ | completeReleaseJob _ _ | failReleaseJob _ _ =>
      simp only [effect, invoiceUpdateMany, invoiceUpdateManyPaid, paymentBindCharge,
        initiateTransfer, enqueueRelease, startReleaseJob, completeReleaseJob, failReleaseJob]
      split <;> rfl
  | _ => rfl

theorem nextSeq_exec (he : exec op o u = some (a, w)) (hop : ∀ s, op ≠ .invoiceCounterUpsert s) :
    w.nextSeq = u.nextSeq := by
  have hsame : w.invoiceCounters = u.invoiceCounters := by
    rcases exec_cases he with ⟨rfl, -⟩ | ⟨s, -, rfl, -⟩
    · rfl
    · exact effect_counters hop s u
  funext s
  rw [World.nextSeq, hsame]
  rfl

/-- The upsert of a counter moves it on by one. -/
theorem upsert_cases (sellerId : Uuid) (u : World) :
    (∃ e, invoiceCounterUpsert sellerId u = (.error e, u)) ∨ ∃ counter counters,
      invoiceCounterUpsert sellerId u = (.ok counter, { u with invoiceCounters := counters }) ∧
      counter.nextSeq = u.nextSeq sellerId + 1 ∧
      counters.column InvoiceCounter.sellerId InvoiceCounter.nextSeq =
        Function.update (u.invoiceCounters.column InvoiceCounter.sellerId InvoiceCounter.nextSeq)
          sellerId (some (u.nextSeq sellerId + 1)) := by
  unfold invoiceCounterUpsert
  split
  · rename_i hfind
    have hnext : u.nextSeq sellerId = 1 := by
      rw [World.nextSeq, Table.column, hfind]
      rfl
    split
    · exact .inl ⟨_, rfl⟩
    · rename_i counters hcreate
      refine .inr ⟨_, counters, rfl, by rw [hnext]; rfl, ?_⟩
      rw [Table.column_create keyed_counter hcreate, hnext]
      rfl
  · rename_i counter hfind
    obtain ⟨hmem, hid⟩ := Table.find_spec hfind
    have hnext : u.nextSeq sellerId = counter.nextSeq := by
      rw [World.nextSeq, Table.column, hfind]
      rfl
    split
    · exact .inl ⟨_, rfl⟩
    · rename_i counters hupdate
      refine .inr ⟨_, counters, rfl, by rw [hnext], ?_⟩
      rw [Table.column_update_one keyed_counter hupdate hmem hid (fun b _ hb =>
        (beq_iff_eq.mp hb).trans (beq_iff_eq.mp hid).symm) fun _ => rfl, beq_iff_eq.mp hid, hnext]

/-- **The upsert** takes the seller's next number, or does nothing. -/
theorem nextSeq_upsert {sellerId : Uuid} {a : Except Err InvoiceCounter}
    (he : exec (.invoiceCounterUpsert sellerId) o u = some (a, w)) :
    (w = u ∧ ∃ e, a = .error e) ∨ (w.invoices = u.invoices ∧
      w.nextSeq = Function.update u.nextSeq sellerId (u.nextSeq sellerId + 1) ∧
      ∀ counter, a = .ok counter → counter.nextSeq = u.nextSeq sellerId + 1) := by
  rcases exec_cases he with ⟨rfl, herr⟩ | ⟨s, -, rfl, hans⟩
  · exact .inl ⟨rfl, herr⟩
  · have heff : effect s u (.invoiceCounterUpsert sellerId) = invoiceCounterUpsert sellerId u := rfl
    rw [heff] at hans ⊢
    rcases upsert_cases sellerId u with ⟨e, heq⟩ | ⟨counter, counters, heq, hnext, hcolumn⟩
    · rw [heq] at hans ⊢
      exact .inl ⟨rfl, hans.elim (fun h => ⟨e, h⟩) id⟩
    · rw [heq] at hans ⊢
      refine .inr ⟨rfl, ?_, fun counter' hok => ?_⟩
      · funext s'
        rw [World.nextSeq, hcolumn]
        by_cases hs : s' = sellerId
        · rw [hs, Function.update_self, Function.update_self]
          rfl
        · rw [Function.update_of_ne hs, Function.update_of_ne hs]
          rfl
      · subst hok
        rcases hans with hans | ⟨e, herr⟩
        · cases hans
          exact hnext
        · cases herr

/-- No move of the platform touches the counters. -/
theorem nextSeq_drift {m : Move} (hm : platformDrift m u = some w) : w.nextSeq = u.nextSeq := by
  cases m with
  | merge source target =>
      obtain ⟨_, _, _, _, -, -, -, -, rfl⟩ := drift_merge hm
      rfl
  | charge reference =>
      simp only [platformDrift, drift] at hm
      split at hm <;> cases hm
      rfl
  | _ => cases hm; rfl

end Rows

end Meduman
