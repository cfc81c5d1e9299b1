import Meduman.Core.Outline
import Meduman.Effect.Trace
import Meduman.Invoice.Steps

/-!
# The invoiced total is the protected amount

A sent invoice's transaction is for the total the sender read, and the stored amounts are computed
from the lines and the rate an editor read or gave. Both write later than they read.

* `Priced`, `Backed` : the amounts are computed from what is stored; the transaction is for the total
* `asRead` : an edit and a send write while the invoice is as they read it
* `asRead_alone` : they do when nothing else happens between
* **`invoice_total`** : every run whose writes do
-/

set_option autoImplicit false

namespace Meduman

open Effect

/-! ## What a stored invoice satisfies -/

/-- The stored amounts. -/
def Invoice.totals (i : Invoice) : InvoiceTotals := ⟨i.subtotal, i.taxAmount, i.total⟩

/-- The amounts are computed from the stored lines at the stored rate. -/
def Priced (i : Invoice) : Prop :=
  i.totals = computeTotals (i.lineItems.map InvoiceLineItem.input) i.taxRatePctBp

/-- A linked transaction is for the total. -/
def Backed (w : World) (i : Invoice) : Prop :=
  ∀ t, i.transactionId = some t → ∃ tx ∈ w.transactions, tx.id = t ∧ tx.amount = i.total

/-- What an invoice is about, once it is sent. -/
structure SameDeal (i i' : Invoice) : Prop where
  transactionId : i'.transactionId = i.transactionId
  totals : i'.totals = i.totals
  lineItems : i'.lineItems = i.lineItems
  taxRatePctBp : i'.taxRatePctBp = i.taxRatePctBp

theorem SameDeal.refl (i : Invoice) : SameDeal i i := ⟨rfl, rfl, rfl, rfl⟩

theorem SameDeal.trans {a b c : Invoice} (hab : SameDeal a b) (hbc : SameDeal b c) :
    SameDeal a c :=
  ⟨hbc.transactionId.trans hab.transactionId, hbc.totals.trans hab.totals,
    hbc.lineItems.trans hab.lineItems, hbc.taxRatePctBp.trans hab.taxRatePctBp⟩

theorem SameDeal.priced {i i' : Invoice} (hs : SameDeal i i') (hp : Priced i) : Priced i' := by
  rw [Priced, hs.totals, hs.lineItems, hs.taxRatePctBp]
  exact hp

theorem SameDeal.total {i i' : Invoice} (hs : SameDeal i i') : i'.total = i.total :=
  congrArg InvoiceTotals.total hs.totals

variable {env : Env} {c : Call} {h : Hist} {u w : World}

theorem Backed.mono {i i' : Invoice} (hb : Backed u i) (hs : SameDeal i i')
    (hk : KeepsAmounts u w) : Backed w i' := by
  intro t ht
  obtain ⟨tx, htx, hid, ha⟩ := hb t (by rw [← hs.transactionId]; exact ht)
  obtain ⟨tx', htx', hid', ha'⟩ := hk tx htx
  exact ⟨tx', htx', hid'.trans hid, by rw [ha', ha, hs.total]⟩

/-- **The invariant.** -/
structure Billed (w : World) : Prop where
  priced : ∀ i ∈ w.invoices, Priced i
  backed : ∀ i ∈ w.invoices, Backed w i
  unlinked : ∀ i ∈ w.invoices, i.status = .draft → i.transactionId = none

/-- The lines a seller gave, as stored, are the lines they gave. -/
theorem input_lineItems (lines : List InvoiceLineDto) :
    (lineItems lines).map InvoiceLineItem.input = lines.map InvoiceLineDto.input := by
  rw [lineItems, List.map_map]
  have hcomp : (InvoiceLineItem.input ∘ fun (p : InvoiceLineDto × Nat) =>
      ({ title := p.1.title, description := truthy p.1.description, quantity := p.1.quantity,
         unitPrice := p.1.unitPrice, lineTotal := computeLineTotal p.1.input, position := p.2 } :
        InvoiceLineItem)) = InvoiceLineDto.input ∘ Prod.fst := by
    funext p
    rfl
  rw [hcomp, ← List.map_map, List.zipIdx_map_fst]

/-! ## What a call promises -/

/-- The amounts an edit writes: of the lines and the rate it was given, or else read. -/
def editTotals (dto : UpdateInvoiceDto) (invoice : Invoice) (stored : List InvoiceLineItem) :
    InvoiceTotals :=
  computeTotals ((dto.lineItems.join.map fun lines => lines.map InvoiceLineDto.input).getD
    (stored.map InvoiceLineItem.input)) (dto.taxRatePctBp.join.or invoice.taxRatePctBp)

/-- The edit writes new amounts. -/
def UpdateInvoiceDto.reprices (dto : UpdateInvoiceDto) : Bool :=
  dto.lineItems.isSome || dto.taxRatePctBp.isSome

/-- The invoice is not linked, and the lines and the rate an edit computed its amounts from are those
its write leaves stored. -/
def UpdateInvoiceDto.fresh (dto : UpdateInvoiceDto) (h : Hist) (i : Invoice) : Bool :=
  i.transactionId.isNone && (dto.lineItems.join.isSome || lastLines h == some i.lineItems) &&
    match dto.taxRatePctBp with
    | none => (lastInvoice h).any (·.taxRatePctBp == i.taxRatePctBp)
    | some none => (lastInvoice h).any (·.taxRatePctBp.isNone)
    | some (some _) => true

/-- Before invoices are written. -/
def Bills (c : Call) (h : Hist) : Op → Prop
  | .invoiceCreate d => d.status = .draft ∧ ∃ lines, d.lineItems = lineItems lines ∧
      (⟨d.subtotal, d.taxAmount, d.total⟩ : InvoiceTotals) =
        computeTotals (lines.map InvoiceLineDto.input) d.taxRatePctBp
  | .invoiceUpdate _ d => match c with
      | .editInvoice _ _ dto =>
          (dto.reprices = false ∧ d = dto.data) ∨ dto.reprices = true ∧ ∃ invoice stored,
            lastInvoice h = some invoice ∧ (dto.lineItems.join = none → lastLines h = some stored) ∧
            d = { dto.data with
              subtotal := some (editTotals dto invoice stored).subtotal
              taxAmount := some (editTotals dto invoice stored).taxAmount
              total := some (editTotals dto invoice stored).total
              lineItems := dto.lineItems.join.map lineItems }
      | _ => d = { status := some .void }
  | .invoiceUpdateManySent _ _ transactionId => ∃ d tx invoice,
      Saw h (.transactionCreate d) tx ∧ tx.id = transactionId ∧ lastInvoice h = some invoice ∧
        d.amount = invoice.total
  | _ => True

/-- The operation writes no invoice. -/
def Op.billsNothing : Op → Prop
  | .invoiceCreate _ | .invoiceUpdate .. | .invoiceUpdateManySent .. => False
  | _ => True

theorem bills_of_nothing {op : Op} (hop : op.billsNothing) (h : Hist) : Bills c h op := by
  cases op with
  | invoiceCreate d => exact hop.elim
  | invoiceUpdate id d => exact hop.elim
  | invoiceUpdateManySent id number transactionId => exact hop.elim
  | _ => trivial

/-- The operation reads no invoice either. -/
def Op.isAside (op : Op) : Prop := op.billsNothing ∧ ∀ key, op ≠ .invoiceFindUnique key

theorem lastInvoice_append {l : Hist} (hl : ∀ e ∈ l, e.op.isAside) :
    lastInvoice (l ++ h) = lastInvoice h := by
  induction l with
  | nil => rfl
  | cons e l ih =>
      obtain ⟨op, a⟩ := e
      have hop := (hl _ List.mem_cons_self).2
      rw [← ih fun e he => hl e (List.mem_cons_of_mem _ he)]
      cases op with
      | invoiceFindUnique key => exact absurd rfl (hop key)
      | _ => rfl

/-- A program beside the invoices keeps what was read, and what was created. -/
theorem aside_along {α : Type} {p : Program α} {Q : Except Err α → Hist → Prop}
    (hp : p.Uses Op.isAside)
    (hQ : ∀ r h', h ⊆ h' → lastInvoice h' = lastInvoice h → Q r h') :
    p.Along Possible (Bills c) Q h :=
  hp.along (fun h _ hop => bills_of_nothing hop.1 h)
    fun r l hl => hQ r _ (List.subset_append_right l h) (lastInvoice_append hl)

theorem apply_aside (input : ApplyTransitionInput) : (apply input).Uses Op.isAside :=
  apply_uses ⟨trivial, by simp⟩ (fun _ => ⟨trivial, by simp⟩) fun _ => ⟨trivial, by simp⟩

theorem loadOwned_bills {sellerId id : Uuid} {Q : Except Err Invoice → Hist → Prop}
    (hQ : ∀ r h', (∀ i, r = .ok i → lastInvoice h' = some i) → Q r h') :
    (Invoices.loadOwned sellerId id).Along Possible (Bills c) Q h := by
  have herr : ∀ e h', Q (.error e) h' := fun e h' => hQ _ h' fun i heq => by cases heq
  unfold Invoices.loadOwned Invoices.getById
  rw [along_bind, along_perform_bind]
  refine ⟨trivial, fun e _ => herr e _, fun invoice _ => ?_⟩
  cases invoice with
  | none => exact herr _ _
  | some invoice =>
      dsimp only
      rw [Prog.pure_eq, along_done, then_ok]
      split
      · exact herr _ _
      · refine hQ _ _ fun i heq => ?_
        cases heq
        rfl

theorem edit_bills (sellerId id : Uuid) (dto : UpdateInvoiceDto)
    {Q : Except Err Invoice → Hist → Prop} (hQ : ∀ r h', Q r h') :
    (Invoices.edit sellerId id dto).Along Possible (Bills (.editInvoice sellerId id dto)) Q h := by
  unfold Invoices.edit
  rw [along_bind]
  refine loadOwned_bills fun r h' hread => ?_
  cases r with
  | error e => exact hQ _ _
  | ok invoice =>
      have hlast := hread invoice rfl
      rw [then_ok]
      split
      · exact hQ _ _
      · split
        · rename_i hreprices
          unfold Invoices.effectiveLines
          cases hlines : dto.lineItems.join with
          | some lines =>
              rw [along_bind]
              refine (along_perform _ _).mpr ⟨.inr ⟨hreprices, invoice, [], hlast, ?_, ?_⟩,
                fun _ _ => hQ _ _, fun _ _ => hQ _ _⟩
              · simp [hlines]
              · simp [editTotals, hlines]
          | none =>
              rw [along_bind, along_perform_bind]
              refine ⟨trivial, fun e _ => hQ _ _, fun stored _ => ?_⟩
              refine (along_perform _ _).mpr ⟨.inr ⟨hreprices, invoice, stored, hlast, fun _ => rfl, ?_⟩,
                fun _ _ => hQ _ _, fun _ _ => hQ _ _⟩
              simp [editTotals, hlines]
        · rename_i hkeeps
          exact (along_perform _ _).mpr ⟨.inl ⟨by simpa [UpdateInvoiceDto.reprices] using hkeeps, rfl⟩,
            fun _ _ => hQ _ _, fun _ _ => hQ _ _⟩

/-- A draft is for the amount it was asked for. -/
theorem createDraft_bills {input : CreateDraftInput} {Q : Except Err Transaction → Hist → Prop}
    (herr : ∀ e h', Q (.error e) h')
    (hok : ∀ tx h', lastInvoice h' = lastInvoice h → (∃ d, Saw h' (.transactionCreate d) tx ∧
      d.amount = input.amount) → Q (.ok tx) h') :
    (createDraft input).Along Possible (Bills c) Q h := by
  unfold createDraft
  rw [along_perform_bind]
  refine ⟨trivial, fun e _ => herr e _, fun uuid _ => ?_⟩
  rw [along_perform_bind]
  refine ⟨trivial, fun e _ => herr e _, fun tx _ => ?_⟩
  rw [along_bind]
  refine aside_along (grantRoleFlag_uses ⟨trivial, by simp⟩ fun _ => ⟨trivial, by simp⟩)
    fun r h' hsub hlast => ?_
  cases r with
  | error e => exact herr e _
  | ok _ => exact hok tx h' hlast ⟨_, hsub List.mem_cons_self, rfl⟩

theorem send_bills (sellerId id : Uuid) {Q : Except Err Invoice → Hist → Prop}
    (hQ : ∀ r h', Q r h') :
    (Invoices.send sellerId id).Along Possible (Bills (.sendInvoice sellerId id)) Q h := by
  have hrest : ∀ (count : Nat) (h' : Hist), Prog.Along Possible (Bills (.sendInvoice sellerId id)) Q
      (if count ≠ 1 then Invoices.getById id
      else do
        await (.auditLogCreate (Invoices.audit (some sellerId) id "invoice.sent" .draft .sent))
        await (.enqueueInvoice id)
        Invoices.getById id) h' := by
    have hget : (Invoices.getById id).Uses Op.billsNothing :=
      uses_bind (uses_perform trivial) fun invoice => by cases invoice <;> trivial
    intro count h'
    refine Prog.Uses.along (A := Op.billsNothing) ?_ (fun h _ hop => bills_of_nothing hop h)
      fun _ _ _ => hQ _ _
    split
    · exact hget
    · refine uses_bind (uses_perform trivial) fun _ => ?_
      exact uses_bind (uses_perform trivial) fun _ => hget
  unfold Invoices.send
  rw [along_bind]
  refine loadOwned_bills fun r h' hread => ?_
  cases r with
  | error e => exact hQ _ _
  | ok invoice =>
      have hlast := hread invoice rfl
      rw [then_ok]
      split
      · exact hQ _ _
      · split
        · exact hQ _ _
        · rw [along_bind]
          refine createDraft_bills (fun e h' => hQ _ _) fun tx h₁ hlast₁ hcreated => ?_
          rw [then_ok, along_bind]
          refine aside_along (apply_aside _) fun r h₂ hsub₂ hlast₂ => ?_
          cases r with
          | error e => exact hQ _ _
          | ok _ =>
              rw [then_ok, along_bind]
              refine aside_along (uses_bind (uses_perform ⟨trivial, by simp⟩) fun _ => trivial)
                fun r h₃ hsub₃ hlast₃ => ?_
              cases r with
              | error e => exact hQ _ _
              | ok number =>
                  obtain ⟨d, hsaw, hamount⟩ := hcreated
                  rw [then_ok, along_perform_bind]
                  refine ⟨⟨d, tx, invoice, hsub₃ (hsub₂ hsaw), rfl, ?_, hamount⟩,
                    fun e _ => hQ _ _, fun count _ => hrest count _⟩
                  rw [hlast₃, hlast₂, hlast₁, hlast]

/-- **Every call bills what it read.** -/
theorem code_bills (env : Env) (c : Call) :
    (code env c).Along Possible (Bills c) (fun _ _ => True) [] := by
  have hmap : ∀ {α : Type} {f : α → Reply} {p : Program α},
      p.Along Possible (Bills c) (fun _ _ => True) [] →
        (f <$> p).Along Possible (Bills c) (fun _ _ => True) [] := by
    intro α f p hp
    rw [Prog.map_eq, along_bind]
    exact hp.mono fun r h _ => by cases r <;> trivial
  have hother : (∀ op, c.Does op → op.billsNothing) →
      (code env c).Along Possible (Bills c) (fun _ _ => True) [] := fun hc =>
    (code_does env c).along (fun h op hop => bills_of_nothing (hc op hop) h) fun _ _ _ => trivial
  cases c with
  | createInvoice sellerId dto =>
      refine hmap ?_
      unfold Invoices.createDraft
      rw [along_perform_bind]
      refine ⟨trivial, fun _ _ => trivial, fun uuid _ => ?_⟩
      exact (along_perform _ _).mpr ⟨⟨rfl, dto.lineItems, rfl, rfl⟩, fun _ _ => trivial,
        fun _ _ => trivial⟩
  | editInvoice sellerId id dto => exact hmap (edit_bills sellerId id dto fun _ _ => trivial)
  | sendInvoice sellerId id => exact hmap (send_bills sellerId id fun _ _ => trivial)
  | voidInvoice sellerId id =>
      refine (code_does env _).along (fun h op hop => ?_) fun _ _ _ => trivial
      cases op with
      | invoiceCreate d => obtain ⟨_, _, heq⟩ := hop; cases heq
      | invoiceUpdate id d =>
          rcases hop with ⟨_, _, heq, -⟩ | ⟨_, -, hd⟩
          · cases heq
          · exact hd
      | invoiceUpdateManySent id number transactionId => obtain ⟨_, heq⟩ := hop; cases heq
      | _ => trivial
  | _ =>
      refine hother fun op hop => ?_
      cases op with
      | invoiceCreate d => obtain ⟨_, _, heq⟩ := hop; cases heq
      | invoiceUpdate id d => rcases hop with ⟨_, _, heq, -⟩ | ⟨_, heq, -⟩ <;> cases heq
      | invoiceUpdateManySent id number transactionId => obtain ⟨_, heq⟩ := hop; cases heq
      | _ => trivial

/-! ## What a step keeps -/

/-- A linked invoice stays the same deal. -/
def KeepsDeals (u w : World) : Prop :=
  ∀ i ∈ u.invoices, ∃ i' ∈ w.invoices, i'.id = i.id ∧ (i.transactionId ≠ none → SameDeal i i')

/-- The transactions a call created are still there, for the same amount. -/
def CreatedKnown (h : Hist) (w : World) : Prop := ∀ d tx, Saw h (.transactionCreate d) tx →
  ∃ tx' ∈ w.transactions, tx'.id = tx.id ∧ tx'.amount = d.amount

theorem KeepsDeals.refl (w : World) : KeepsDeals w w := fun i hi => ⟨i, hi, rfl, fun _ => .refl i⟩

theorem KeepsDeals.trans {u v w : World} (huv : KeepsDeals u v) (hvw : KeepsDeals v w) :
    KeepsDeals u w := by
  intro i hi
  obtain ⟨i', hi', hid, hs⟩ := huv i hi
  obtain ⟨i'', hi'', hid', hs'⟩ := hvw i' hi'
  refine ⟨i'', hi'', hid'.trans hid, fun hlinked => ?_⟩
  have hfirst := hs hlinked
  exact hfirst.trans (hs' (by rwa [hfirst.transactionId]))

theorem CreatedKnown.mono (hk : CreatedKnown h u) (hkeeps : KeepsAmounts u w) :
    CreatedKnown h w := by
  intro d tx hsaw
  obtain ⟨tx', htx', hid, ha⟩ := hk d tx hsaw
  obtain ⟨tx'', htx'', hid', ha'⟩ := hkeeps tx' htx'
  exact ⟨tx'', htx'', hid'.trans hid, ha'.trans ha⟩

theorem createdKnown_cons {op : Op} {o : Outcome} {a : Except Err op.Ans} (hk : CreatedKnown h u)
    (he : exec op o u = some (a, w)) : CreatedKnown (⟨op, a⟩ :: h) w := by
  intro d tx hsaw
  rcases List.mem_cons.mp hsaw with heq | hmem
  · cases heq
    obtain ⟨hmem, id, hrow⟩ := exec_answered he
    exact ⟨tx, hmem, rfl, by rw [hrow]; rfl⟩
  · exact hk.mono (keepsAmounts_change (exec_change he)) d tx hmem

/-- An edit or a send writes while the invoice is as it read it. -/
def asRead (env : Env) : Guard (platform env) := fun c h w op =>
  match op, c with
  | .invoiceUpdate id _, .editInvoice _ _ dto =>
      !dto.reprices || w.invoices.rows.all fun i => i.id != id || dto.fresh h i
  | .invoiceUpdateManySent id _ _, _ =>
      w.invoices.rows.all fun i => !(i.id == id && i.status == .draft) ||
        (lastInvoice h).any (·.total == i.total)
  | _, _ => true

/-- What a write leaves of one invoice. -/
structure Rewritten (w : World) (i i' : Invoice) : Prop where
  id : i'.id = i.id
  priced : Priced i'
  backed : Backed w i'
  unlinked : i'.status = .draft → i'.transactionId = none
  same : i.transactionId ≠ none → SameDeal i i'

/-- A write that touches neither the amounts nor the link, and makes no draft. -/
theorem Billed.rewritten_same {i i' : Invoice} (hu : Billed u) (hi : i ∈ u.invoices)
    (ha : KeepsAmounts u w) (hid : i'.id = i.id) (hs : SameDeal i i')
    (hdraft : i'.status = .draft → i.status = .draft) : Rewritten w i i' where
  id := hid
  priced := hs.priced (hu.priced i hi)
  backed := (hu.backed i hi).mono hs ha
  unlinked hst := hs.transactionId.trans (hu.unlinked i hi (hdraft hst))
  same _ := hs

theorem Billed.of_update {p : Invoice → Bool} {f : Invoice → Invoice} (hu : Billed u)
    (ha : KeepsAmounts u w) (write : u.invoices.update p f = some w.invoices)
    (hf : ∀ i ∈ u.invoices, p i = true → Rewritten w i (f i)) : Billed w ∧ KeepsDeals u w := by
  have hold : ∀ i ∈ u.invoices, Rewritten w i i := fun i hi =>
    hu.rewritten_same hi ha rfl (.refl i) id
  refine ⟨⟨?_, ?_, ?_⟩, ?_⟩
  · exact Table.forall_update write (fun i hi hp => (hf i hi hp).priced) fun i hi => (hold i hi).priced
  · exact Table.forall_update write (fun i hi hp => (hf i hi hp).backed) fun i hi => (hold i hi).backed
  · exact Table.forall_update write (fun i hi hp => (hf i hi hp).unlinked)
      fun i hi => (hold i hi).unlinked
  · exact Table.exists_update write (fun i => ⟨rfl, fun _ => .refl i⟩)
      fun i hi hp => ⟨(hf i hi hp).id, (hf i hi hp).same⟩

theorem Billed.of_same (hu : Billed u) (ha : KeepsAmounts u w) (same : w.invoices = u.invoices) :
    Billed w ∧ KeepsDeals u w := by
  refine ⟨⟨?_, ?_, ?_⟩, fun i hi => ⟨i, same ▸ hi, rfl, fun _ => .refl i⟩⟩
  · rw [same]; exact hu.priced
  · rw [same]; exact fun i hi => (hu.backed i hi).mono (.refl i) ha
  · rw [same]; exact hu.unlinked

theorem Billed.create {d : InvoiceCreate} {id : Uuid} (hu : Billed u) (ha : KeepsAmounts u w)
    (hj : Bills c h (.invoiceCreate d)) (write : u.invoices.create (d.row id) = some w.invoices) :
    Billed w ∧ KeepsDeals u w := by
  obtain ⟨-, lines, hlines, htotals⟩ := hj
  refine ⟨⟨?_, ?_, ?_⟩, Table.exists_create write fun i => ⟨rfl, fun _ => .refl i⟩⟩
  · refine Table.forall_create write ?_ hu.priced
    have hrow : (d.row id).lineItems.map InvoiceLineItem.input =
        lines.map InvoiceLineDto.input := by
      rw [InvoiceCreate.row, hlines, input_lineItems]
    rw [Priced, hrow]
    exact htotals
  · exact Table.forall_create write (fun t ht => by cases ht)
      fun i hi => (hu.backed i hi).mono (.refl i) ha
  · exact Table.forall_create write (fun _ => rfl) hu.unlinked

/-- **An edit of what is still as it read it.** -/
theorem priced_of_fresh {dto : UpdateInvoiceDto} {invoice i : Invoice}
    {stored : List InvoiceLineItem} (hfresh : dto.fresh h i = true)
    (hlast : lastInvoice h = some invoice)
    (hlines : dto.lineItems.join = none → lastLines h = some stored) :
    Priced (({ dto.data with
      subtotal := some (editTotals dto invoice stored).subtotal
      taxAmount := some (editTotals dto invoice stored).taxAmount
      total := some (editTotals dto invoice stored).total
      lineItems := dto.lineItems.join.map lineItems } : InvoiceUpdate).apply i) := by
  simp only [UpdateInvoiceDto.fresh, Bool.and_eq_true, Bool.or_eq_true, hlast, Option.any_some,
    beq_iff_eq] at hfresh
  obtain ⟨⟨-, hread⟩, hrate⟩ := hfresh
  have hstored : ((dto.lineItems.join.map lineItems).getD i.lineItems).map InvoiceLineItem.input =
      (dto.lineItems.join.map fun lines => lines.map InvoiceLineDto.input).getD
        (stored.map InvoiceLineItem.input) := by
    cases hjoin : dto.lineItems.join with
    | some lines => exact input_lineItems lines
    | none =>
        rw [hjoin, hlines hjoin] at hread
        obtain rfl : stored = i.lineItems := by simpa using hread
        rfl
  have hstoredRate : dto.taxRatePctBp.getD i.taxRatePctBp =
      dto.taxRatePctBp.join.or invoice.taxRatePctBp := by
    cases hdto : dto.taxRatePctBp with
    | none =>
        rw [hdto] at hrate
        exact (beq_iff_eq.mp hrate).symm
    | some rate =>
        cases rate with
        | none =>
            rw [hdto] at hrate
            exact (Option.isNone_iff_eq_none.mp hrate).symm
        | some rate => rfl
  simp only [Priced, Invoice.totals, InvoiceUpdate.apply, UpdateInvoiceDto.data, Option.getD_some,
    editTotals]
  rw [hstored, hstoredRate]

/-- An edit that writes no amounts. -/
theorem sameDeal_of_not_reprices {dto : UpdateInvoiceDto} (hno : dto.reprices = false)
    (i : Invoice) : SameDeal i (dto.data.apply i) := by
  simp only [UpdateInvoiceDto.reprices, Bool.or_eq_false_iff, Option.isSome_eq_false_iff,
    Option.isNone_iff_eq_none] at hno
  exact ⟨rfl, rfl, rfl, by simp [InvoiceUpdate.apply, UpdateInvoiceDto.data, hno.2]⟩

/-- An invoice just sent is for the amount of its transaction. -/
theorem Billed.rewritten_sent {i : Invoice} {number : String} {transactionId : Uuid}
    (hu : Billed u) (hi : i ∈ u.invoices) (hdraft : i.status = .draft) (ha : KeepsAmounts u w)
    (htx : ∃ tx ∈ u.transactions, tx.id = transactionId ∧ tx.amount = i.total) :
    Rewritten w i
      { i with status := .sent, number := number, transactionId := some transactionId } where
  id := rfl
  priced := hu.priced i hi
  backed := by
    intro t ht
    cases ht
    obtain ⟨tx, hmem, hid, ham⟩ := htx
    obtain ⟨tx', hmem', hid', ham'⟩ := ha tx hmem
    exact ⟨tx', hmem', hid'.trans hid, ham'.trans ham⟩
  unlinked hst := by cases hst
  same hlinked := absurd (hu.unlinked i hi hdraft) hlinked

theorem Billed.rewritten_edit {sellerId id id' : Uuid} {dto : UpdateInvoiceDto} {d : InvoiceUpdate}
    {i : Invoice} (hu : Billed u) (hi : i ∈ u.invoices) (hid : i.id = id) (ha : KeepsAmounts u w)
    (hj : Bills (.editInvoice sellerId id' dto) h (.invoiceUpdate id d))
    (hG : asRead env (.editInvoice sellerId id' dto) h u (.invoiceUpdate id d) = true) :
    Rewritten w i (d.apply i) := by
  rcases hj with ⟨hno, rfl⟩ | ⟨hreprices, invoice, stored, hlast, hlines, rfl⟩
  · exact hu.rewritten_same hi ha rfl (sameDeal_of_not_reprices hno i) fun hst => hst
  · have hfresh : dto.fresh h i = true := by
      simp only [asRead, hreprices, Bool.not_true, Bool.false_or, List.all_eq_true] at hG
      simpa [hid] using hG i hi
    have hnone : i.transactionId = none := by
      simp only [UpdateInvoiceDto.fresh, Bool.and_eq_true, Option.isNone_iff_eq_none] at hfresh
      exact hfresh.1.1
    refine ⟨rfl, priced_of_fresh hfresh hlast hlines, fun t ht => ?_, fun _ => hnone,
      fun hlinked => absurd hnone hlinked⟩
    rw [InvoiceUpdate.apply, hnone] at ht
    cases ht

/-- **Step lemma.** -/
theorem billed_change {op : Op} (hu : Billed u) (hk : CreatedKnown h u) (hj : Bills c h op)
    (hG : asRead env c h u op = true) (ha : KeepsAmounts u w) (hc : InvoiceChange op u w) :
    Billed w ∧ KeepsDeals u w := by
  cases hc with
  | frame same => exact hu.of_same ha same
  | create write => exact hu.create ha hj write
  | @update id d _ _ write =>
      refine hu.of_update ha write fun i hi hp => ?_
      have hid : i.id = id := by simpa using hp
      cases c with
      | editInvoice sellerId id' dto => exact hu.rewritten_edit hi hid ha hj hG
      | _ =>
          obtain rfl : d = { status := some .void } := hj
          exact hu.rewritten_same hi ha rfl ⟨rfl, rfl, rfl, rfl⟩ fun hst => by cases hst
  | @sent id transactionId number _ _ write =>
      refine hu.of_update ha write fun i hi hp => ?_
      simp only [Bool.and_eq_true, beq_iff_eq] at hp
      obtain ⟨d, tx, invoice, hsaw, hid, hlast, hamount⟩ := hj
      have htotal : invoice.total = i.total := by
        simp only [asRead, List.all_eq_true] at hG
        simpa [hp.1, hp.2, hlast] using hG i hi
      obtain ⟨tx', htx', hid', ham'⟩ := hk d tx hsaw
      exact hu.rewritten_sent hi hp.2 ha
        ⟨tx', htx', hid'.trans hid, by rw [ham', hamount, htotal]⟩
  | viewed write =>
      refine hu.of_update ha write fun i hi hp => ?_
      exact hu.rewritten_same hi ha rfl ⟨rfl, rfl, rfl, rfl⟩ fun hst => by cases hst
  | overdue write =>
      refine hu.of_update ha write fun i hi hp => ?_
      exact hu.rewritten_same hi ha rfl ⟨rfl, rfl, rfl, rfl⟩ fun hst => by cases hst
  | paid write =>
      refine hu.of_update ha write fun i hi hp => ?_
      exact hu.rewritten_same hi ha rfl ⟨rfl, rfl, rfl, rfl⟩ fun hst => by cases hst

theorem billed_drift {m : Move} (hu : Billed u) (hm : platformDrift m u = some w) :
    Billed w ∧ KeepsDeals u w := by
  have ha := keepsAmounts_drift hm
  rcases invoices_drift hm with same | ⟨source, target, write⟩
  · exact hu.of_same ha same
  · refine hu.of_update ha write fun i hi _ => ?_
    exact hu.rewritten_same hi ha rfl ⟨rfl, rfl, rfl, rfl⟩ fun hst => hst

/-! ## Every run -/

/-- The outline of invoices whose writes are as read. -/
def billed (env : Env) : Outline (platform env) (asRead env) where
  inv := Billed
  rel u w := KeepsAmounts u w ∧ KeepsDeals u w
  know _ := CreatedKnown
  possible := Possible
  just := Bills
  rel_refl w := ⟨.refl w, .refl w⟩
  rel_trans huv hvw := ⟨huv.1.trans hvw.1, huv.2.trans hvw.2⟩
  know_nil _ _ _ _ hsaw := absurd hsaw List.not_mem_nil
  know_rel hrel hk := hk.mono hrel.1
  drift hu hm :=
    have hstep := billed_drift hu hm
    ⟨hstep.1, keepsAmounts_drift hm, hstep.2⟩
  exec hu hk hj hG he :=
    have ha := keepsAmounts_change (exec_change he)
    have hstep := billed_change hu hk hj hG ha (exec_invoices he)
    ⟨hstep.1, ⟨ha, hstep.2⟩, createdKnown_cons hk he⟩
  answer he := possible_of_exec he
  code _ := code_bills env _

theorem billed_initial : Billed World.initial :=
  ⟨fun _ hi => absurd hi (Table.not_mem_empty _), fun _ hi => absurd hi (Table.not_mem_empty _),
    fun _ hi => absurd hi (Table.not_mem_empty _)⟩

/-! ## A call by itself -/

section Alone

variable {i : Invoice} {id : Uuid} {α : Type}

/-- Whatever happens to an operation. -/
def unrestricted (_ : Op) (_ : Outcome) : Prop := True

theorem read_invoice {key : InvoiceKey} {o : Outcome} {found : Option Invoice}
    (he : exec (.invoiceFindUnique key) o u = some (.ok found, w)) :
    w = u ∧ found = u.invoices.find key.selects := by
  rcases exec_cases he with ⟨-, _, herr⟩ | ⟨s, -, hw, ha | ⟨_, herr⟩⟩
  · cases herr
  · exact ⟨hw, Except.ok.inj ha⟩
  · cases herr

theorem read_lines {o : Outcome} {lines : List InvoiceLineItem} (hi : i ∈ u.invoices)
    (he : exec (.invoiceLineItemFindMany i.id) o u = some (.ok lines, w)) :
    w = u ∧ lines = i.lineItems := by
  have hfind : (u.invoices.find fun j => j.id == i.id) = some i :=
    Table.find_eq hi (by simp) fun j hj hid => eq_of_id hj hi (beq_iff_eq.mp hid)
  rcases exec_cases he with ⟨-, _, herr⟩ | ⟨s, -, hw, ha | ⟨_, herr⟩⟩
  · cases herr
  · refine ⟨hw, ?_⟩
    simpa [effect, hfind] using ha
  · cases herr

/-- The operation neither reads an invoice nor writes one. -/
def Op.leavesInvoices : Op → Prop
  | .invoiceFindUnique _ | .invoiceCreate _ | .invoiceUpdate .. | .invoiceUpdateManySent ..
  | .invoiceUpdateManyViewed _ | .invoiceUpdateManyOverdue _ | .invoiceUpdateManyPaid .. => False
  | _ => True

theorem Op.leavesInvoices.aside {op : Op} (hop : op.leavesInvoices) : op.isAside := by
  cases op <;> first | exact hop.elim | exact ⟨trivial, nofun⟩

theorem asRead_of_leaves {op : Op} (hop : op.leavesInvoices) : asRead env c h u op = true := by
  cases op <;> first | exact hop.elim | rfl

/-- A program beside the invoices leaves them, and what was read of them. -/
theorem leaves_ensures {p : Program α} (hp : p.Uses Op.leavesInvoices)
    {Q : Except Err α → World → Hist → Prop}
    (hQ : ∀ r u h', u.invoices = w.invoices → lastInvoice h' = lastInvoice h → Q r u h') :
    p.Ensures (platform env) unrestricted Q w h := by
  refine Prog.Uses.ensures (K := fun u v : World => v.invoices = u.invoices) hp (fun _ => rfl)
    (fun huv hvw => hvw.trans huv) (fun {op _ _ _ _} hop he => ?_) fun r u l hl hsame =>
      hQ r u _ hsame (lastInvoice_append fun e he => (hl e he).aside)
  cases exec_invoices he with
  | frame same => exact same
  | _ => exact hop.elim

/-- The invoice a seller loads is the one stored. -/
theorem loadOwned_ensures (sellerId id : Uuid) :
    (Invoices.loadOwned sellerId id).Ensures (platform env) unrestricted
      (fun r u h' => ∀ i, r = .ok i → u = w ∧ i ∈ w.invoices ∧ i.id = id ∧
        lastInvoice h' = some i) w h := by
  unfold Invoices.loadOwned Invoices.getById
  rw [ensures_bind, ensures_perform_bind]
  intro o a u _ he
  cases a with
  | error e =>
      simp only [Prog.EnsuresThen]
      rintro _ ⟨⟩
  | ok found =>
      obtain ⟨rfl, hfound⟩ := read_invoice he
      cases found with
      | none =>
          simp only [Prog.EnsuresThen, ensures_throw]
          rintro _ ⟨⟩
      | some i =>
          obtain ⟨hi, hid⟩ := Table.find_spec hfound.symm
          simp only [Prog.EnsuresThen, Prog.pure_eq, ensures_done]
          split
          · rw [ensures_throw]
            rintro _ ⟨⟩
          · rw [ensures_done]
            rintro _ ⟨⟩
            exact ⟨rfl, hi, beq_iff_eq.mp hid, rfl⟩

theorem loadOwned_heeds (sellerId id : Uuid) :
    (Invoices.loadOwned sellerId id).Heeds (platform env) unrestricted
      (fun h u op => asRead env c h u op = true) w h := by
  refine Prog.Uses.heeds (A := fun op => ∃ key, op = .invoiceFindUnique key) ?_ ?_
  · refine uses_bind (uses_bind (uses_perform ⟨_, rfl⟩) fun found => ?_) fun invoice => ?_
    · cases found <;> trivial
    · split <;> trivial
  · rintro h u _ ⟨key, rfl⟩
    rfl

/-- **An edit by itself** writes while the invoice is as it read it, if it takes no rate away. -/
theorem edit_heeds {sellerId : Uuid} {dto : UpdateInvoiceDto} (hw : Billed w)
    (hrate : dto.taxRatePctBp = some none → ∀ i ∈ w.invoices, i.id = id → i.taxRatePctBp = none) :
    (Invoices.edit sellerId id dto).Heeds (platform env) unrestricted
      (fun h u op => asRead env (.editInvoice sellerId id dto) h u op = true) w h := by
  unfold Invoices.edit
  refine heeds_bind (loadOwned_heeds sellerId id) ?_
  refine (loadOwned_ensures sellerId id).mono fun r u h₁ hread i hr => ?_
  obtain ⟨rfl, hi, rfl, hlast⟩ := hread i hr
  split
  · trivial
  · rename_i hdraft
    have hunlinked := hw.unlinked i hi (not_not.mp hdraft)
    split
    · rename_i hreprices
      -- what the edit read is what is stored when it writes
      have hfresh : ∀ h : Hist, lastInvoice h = some i →
          (dto.lineItems.join = none → lastLines h = some i.lineItems) → ∀ d,
            asRead env (.editInvoice sellerId i.id dto) h u (.invoiceUpdate i.id d) = true := by
        intro h hlast hlines d
        simp only [asRead, Bool.or_eq_true]
        refine .inr (List.all_eq_true.mpr fun j hj => ?_)
        by_cases hid : j.id = i.id
        · obtain rfl : j = i := eq_of_id hj hi hid
          have hkept : (dto.lineItems.join.isSome || lastLines h == some j.lineItems) = true := by
            cases hjoin : dto.lineItems.join with
            | some lines => rfl
            | none => simp [hlines hjoin]
          simp only [UpdateInvoiceDto.fresh, hunlinked, hkept, hlast, Option.any_some]
          cases hdto : dto.taxRatePctBp with
          | none => simp
          | some rate =>
              cases rate with
              | none => simp [hrate hdto j hi rfl]
              | some rate => simp
        · simp [hid]
      unfold Invoices.effectiveLines
      cases hjoin : dto.lineItems.join with
      | some lines => exact heeds_perform (hfresh _ hlast (by simp [hjoin]) _)
      | none =>
          refine ⟨asRead_of_leaves trivial, fun o a v _ he => ?_⟩
          cases a with
          | error e => trivial
          | ok lines =>
              obtain ⟨rfl, rfl⟩ := read_lines hi he
              exact heeds_perform (hfresh (⟨.invoiceLineItemFindMany i.id, .ok i.lineItems⟩ :: h₁) hlast
                (fun _ => rfl) _)
    · rename_i hkeeps
      refine heeds_perform ?_
      simp only [asRead, UpdateInvoiceDto.reprices, Bool.or_eq_true]
      exact .inl (by simpa using hkeeps)

/-- **A send by itself** sends the invoice for the total it read. -/
theorem send_heeds {sellerId : Uuid} : (Invoices.send sellerId id).Heeds (platform env) unrestricted
    (fun h u op => asRead env (.sendInvoice sellerId id) h u op = true) w h := by
  have hpass : ∀ {β : Type} {p : Program β} {u : World} {h : Hist}, p.Uses Op.leavesInvoices →
      p.Heeds (platform env) unrestricted
        (fun h u op => asRead env (.sendInvoice sellerId id) h u op = true) u h :=
    fun hp => hp.heeds fun _ _ _ hop => asRead_of_leaves hop
  have hdraft : ∀ input, (createDraft input).Uses Op.leavesInvoices := fun input =>
    uses_bind (uses_perform trivial) fun _ => uses_bind (uses_perform trivial) fun _ =>
      uses_bind (grantRoleFlag_uses trivial fun _ => trivial) fun _ => trivial
  have happly : ∀ input, (apply input).Uses Op.leavesInvoices := fun input =>
    apply_uses trivial (fun _ => trivial) fun _ => trivial
  have hnumber : (Invoices.allocateNumber sellerId).Uses Op.leavesInvoices :=
    uses_bind (uses_perform trivial) fun _ => trivial
  unfold Invoices.send
  refine heeds_bind (loadOwned_heeds sellerId id) ?_
  refine (loadOwned_ensures sellerId id).mono fun r u₀ h₀ hread i hr => ?_
  obtain ⟨rfl, hi, rfl, hlast⟩ := hread i hr
  split
  · trivial
  · split
    · trivial
    · refine heeds_bind (hpass (hdraft _)) ?_
      refine leaves_ensures (hdraft _) fun r u₁ h₁ hsame₁ hlast₁ tx _ => ?_
      refine heeds_bind (hpass (happly _)) ?_
      refine leaves_ensures (happly _) fun r u₂ h₂ hsame₂ hlast₂ _ _ => ?_
      refine heeds_bind (hpass hnumber) ?_
      refine leaves_ensures hnumber fun r u₃ h₃ hsame₃ hlast₃ number _ => ?_
      refine heeds_perform_bind ?_ fun o count v _ _ => ?_
      · simp only [asRead]
        refine List.all_eq_true.mpr fun j hj => ?_
        have hj₀ : j ∈ u₀.invoices := by
          rw [← hsame₁, ← hsame₂, ← hsame₃]
          exact hj
        by_cases hid : j.id = i.id
        · obtain rfl : j = i := eq_of_id hj₀ hi hid
          simp [hlast₃, hlast₂, hlast₁, hlast]
        · simp [hid]
      · refine Prog.Uses.heeds (A := Op.billsNothing) ?_ fun h u op hop => ?_
        · have hget : (Invoices.getById i.id).Uses Op.billsNothing :=
            uses_bind (uses_perform trivial) fun invoice => by cases invoice <;> trivial
          split
          · exact hget
          · exact uses_bind (uses_perform trivial) fun _ =>
              uses_bind (uses_perform trivial) fun _ => hget
        · cases op <;> first | exact hop.elim | rfl

/-- A seller whom nothing disturbs keeps to the condition. -/
theorem asRead_alone {x : Config (platform env)} {n : Nat} {sellerId : Uuid} {l : Hist}
    {r : Except Err Reply} (hx : Reaches (asRead env) ⟨World.initial, []⟩ x)
    (hc : (∃ dto, c = .editInvoice sellerId id dto ∧ (dto.taxRatePctBp = some none →
      ∀ i ∈ x.world.invoices, i.id = id → i.taxRatePctBp = none)) ∨ c = .sendInvoice sellerId id)
    (hn : x.procs[n]? = some ⟨c, [], some (code env c)⟩)
    (hr : (code env c).Runs (platform env) unrestricted x.world l r w) :
    Reaches (asRead env) ⟨World.initial, []⟩ ⟨w, x.procs.set n ⟨c, l ++ [], some (.done r)⟩⟩ := by
  have hbilled := ((billed env).holds_reaches ((billed env).holds_init billed_initial) hx).1.inv
  refine hx.trans (Prog.Heeds.reaches hn ?_ hr)
  rcases hc with ⟨dto, rfl, hrate⟩ | rfl
  · exact heeds_bind (edit_heeds hbilled hrate) (ensures_any fun _ _ _ _ _ => trivial)
  · exact heeds_bind send_heeds (ensures_any fun _ _ _ _ _ => trivial)

end Alone

/-! ## The invoiced total -/

/-- **The invoiced total is the protected amount,** in every run whose edits and sends write while
the invoice is as they read it, and nothing changes it after. -/
theorem invoice_total (env : Env) {x y : Config (platform env)}
    (hx : Reaches (asRead env) ⟨World.initial, []⟩ x) (hy : Reaches (asRead env) x y) :
    ∀ i ∈ x.world.invoices, i.status ≠ .draft → i.transactionId ≠ none →
      Priced i ∧ (∃ tx ∈ x.world.transactions, i.transactionId = some tx.id ∧ tx.amount = i.total) ∧
        ∃ i' ∈ y.world.invoices, i'.id = i.id ∧ SameDeal i i' := by
  intro i hi _ hlinked
  have hholds := ((billed env).holds_reaches ((billed env).holds_init billed_initial) hx).1
  have hkeeps := ((billed env).holds_reaches hholds hy).2.2
  obtain ⟨t, ht⟩ := Option.ne_none_iff_exists'.mp hlinked
  obtain ⟨tx, htx, hid, ham⟩ := hholds.inv.backed i hi t ht
  obtain ⟨i', hi', hid', hs⟩ := hkeeps i hi
  exact ⟨hholds.inv.priced i hi, ⟨tx, htx, by rw [ht, hid], ham⟩, i', hi', hid', hs hlinked⟩

namespace Demo

/-- An invoice of one line. -/
def invoiceDto (unitPrice : Int) : CreateInvoiceDto where
  lineItems := [{ title := "Phone", quantity := 1, unitPrice := unitPrice }]

/-- An edit of its line. -/
def priceDto (unitPrice : Int) : UpdateInvoiceDto where
  lineItems := some (some (invoiceDto unitPrice).lineItems)

/-- The identifier of the invoice. -/
def bill : Uuid := charge

/-- The seller drafts the invoice, and begins to edit it. -/
def drafted (env : Env) : List (Label (platform env)) :=
  (.arrive (.createInvoice seller (invoiceDto 1000)) :: serve env 0 ::
    serve env 0 { id := bill } ::
    .arrive (.editInvoice seller bill (priceDto 2000)) :: serve env 1 :: []).map Label.within

/-- The edit writes. -/
def repriced (env : Env) : List (Label (platform env)) := [serve env 1].map Label.within

/-- The seller sends the invoice. -/
def sent (env : Env) : List (Label (platform env)) :=
  (.arrive (.sendInvoice seller bill) :: serves env 2 11).map Label.within

/-- The seller voids the invoice. -/
def voided (env : Env) : List (Label (platform env)) :=
  (.arrive (.voidInvoice seller bill) :: serves env 3 5).map Label.within

/-- The bill is for this total, and linked to the sale, which is for this amount. -/
def isBilled (total amount : Int) (w : World) : Bool :=
  w.invoices.rows.map (fun i => (i.status == .draft, i.transactionId, i.total)) ==
      [(false, some sale, total)] &&
    w.transactions.rows.map (fun t => (t.id, t.amount)) == [(sale, amount)]

theorem rows_of_isBilled {total amount : Int} {w : World} (h : isBilled total amount w = true) :
    (∃ i ∈ w.invoices, i.status ≠ .draft ∧ i.transactionId = some sale ∧ i.total = total) ∧
      ∀ t ∈ w.transactions, t.amount = amount := by
  simp only [isBilled, Bool.and_eq_true, beq_iff_eq] at h
  obtain ⟨⟨i, hi, hrow⟩, -⟩ := Table.of_map_eq_singleton h.1
  simp only [Prod.mk.injEq, beq_eq_false_iff_ne] at hrow
  refine ⟨⟨i, hi, hrow⟩, fun t ht => ?_⟩
  exact congrArg Prod.snd ((Table.of_map_eq_singleton h.2).2 t ht)

end Demo
set_option maxRecDepth 20000 in
/-- An edit that read a draft writes after the sale was sent for the amount before. -/
theorem invoice_total_edited : ¬ ∀ (env : Env) (x y : Config (platform env)),
    Reaches Guard.free ⟨World.initial, []⟩ x → Reaches Guard.free x y →
      ∀ i ∈ x.world.invoices, i.status ≠ .draft → i.transactionId ≠ none →
        Priced i ∧ (∃ tx ∈ x.world.transactions, i.transactionId = some tx.id ∧
          tx.amount = i.total) ∧ ∃ i' ∈ y.world.invoices, i'.id = i.id ∧ SameDeal i i' := by
  intro hall
  have hrun : ((Config.run Guard.free (Demo.drafted Demo.silent ++ Demo.sent Demo.silent ++
      Demo.repriced Demo.silent) ⟨World.initial, []⟩).map fun x =>
        Demo.isBilled 2000 1000 x.world) = some true := by decide
  obtain ⟨x, hx, htest⟩ := exists_of_run hrun
  obtain ⟨⟨i, hi, hsent, hlink, htotal⟩, hpaid⟩ := Demo.rows_of_isBilled htest
  obtain ⟨-, ⟨tx, htx, -, ham⟩, -⟩ := hall _ x x hx .refl i hi hsent (by simp [hlink])
  rw [hpaid tx htx, htotal] at ham
  omega

set_option maxRecDepth 20000 in
/-- An invoice edited, sent and then voided. -/
theorem invoice_total_sent : ∃ x y : Config (platform Demo.silent),
    (∃ i ∈ x.world.invoices, i.status ≠ .draft ∧ i.transactionId = some Demo.sale) ∧
    ∀ i ∈ x.world.invoices, i.status ≠ .draft → i.transactionId ≠ none →
      Priced i ∧ (∃ tx ∈ x.world.transactions, i.transactionId = some tx.id ∧ tx.amount = i.total) ∧
        ∃ i' ∈ y.world.invoices, i'.id = i.id ∧ SameDeal i i' := by
  have hrun : ((Config.run (asRead Demo.silent) (Demo.drafted Demo.silent ++
      Demo.repriced Demo.silent ++ Demo.sent Demo.silent) ⟨World.initial, []⟩).bind fun x =>
        (Config.run (asRead Demo.silent) (Demo.voided Demo.silent) x).map fun _ =>
          Demo.isBilled 2000 2000 x.world) = some true := by decide
  obtain ⟨x, y, hx, hy, htest⟩ := exists_of_runs hrun
  obtain ⟨⟨i, hi, hsent, hlink, -⟩, -⟩ := Demo.rows_of_isBilled htest
  exact ⟨x, y, ⟨i, hi, hsent, hlink⟩, invoice_total _ hx hy⟩

end Meduman
