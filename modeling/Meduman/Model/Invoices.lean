import Meduman.Model.Transactions

/-!
# Invoices

A seller drafts an invoice, sends it as a transaction of its total, and may void it before it is
paid. Every amount is computed from the lines and the tax rate.

* `computeTotals` : the invoice arithmetic
* `CreateInvoiceDto`, `UpdateInvoiceDto` : what a seller supplies; an absent column and one set to
  null differ in an edit
* `Invoices.createDraft`, `edit`, `getPublicView`, `void`, `send`, `scanOverdue` : the service
-/

set_option autoImplicit false

namespace Meduman

open Effect

/-! ## Arithmetic -/

structure LineInput where
  quantity : Int
  unitPrice : Int
deriving DecidableEq

structure InvoiceTotals where
  subtotal : Int
  taxAmount : Int
  total : Int
deriving DecidableEq

/-- A line's total is unit price times quantity. -/
def computeLineTotal (line : LineInput) : Int := line.unitPrice * line.quantity

/-- `Math.round(n / d)`, halves upwards. -/
def roundQuotient (n d : Int) : Int := (2 * n + d) / (2 * d)

/-- Sum the lines and apply the tax rate, in basis points. -/
def computeTotals (lines : List LineInput) (taxRatePctBp : Option Int) : InvoiceTotals :=
  let subtotal := lines.foldl (fun sum line => sum + computeLineTotal line) 0
  let taxAmount := match taxRatePctBp with
    | none => 0
    | some rate => roundQuotient (subtotal * rate) 10000
  ⟨subtotal, taxAmount, subtotal + taxAmount⟩

/-! ## What a seller supplies -/

structure InvoiceLineDto where
  title : String
  description : Option String := none
  quantity : Int
  unitPrice : Int
deriving DecidableEq

def InvoiceLineDto.validate (dto : InvoiceLineDto) : Bool :=
  1 ≤ dto.title.length && dto.title.length ≤ 200 && dto.description.all (·.length ≤ 2000) &&
    0 < dto.quantity && 0 ≤ dto.unitPrice

def InvoiceLineDto.input (dto : InvoiceLineDto) : LineInput := ⟨dto.quantity, dto.unitPrice⟩

def InvoiceLineItem.input (line : InvoiceLineItem) : LineInput := ⟨line.quantity, line.unitPrice⟩

/-- The rows of the lines, in their order. -/
def lineItems (lines : List InvoiceLineDto) : List InvoiceLineItem :=
  lines.zipIdx.map fun (l, i) =>
    { title := l.title, description := truthy l.description, quantity := l.quantity,
      unitPrice := l.unitPrice, lineTotal := computeLineTotal l.input, position := i }

structure CreateInvoiceDto where
  buyerName : Option String := none
  buyerEmail : Option String := none
  buyerPhone : Option String := none
  dueDate : Option Int := none
  taxRatePctBp : Option Int := none
  notes : Option String := none
  terms : Option String := none
  lineItems : List InvoiceLineDto
deriving DecidableEq

/-- `Min(0)`, `Max(10_000)` -/
def validRate (rate : Int) : Bool := 0 ≤ rate && rate ≤ 10000

def CreateInvoiceDto.validate (dto : CreateInvoiceDto) : Bool :=
  dto.buyerName.all (·.length ≤ 200) && dto.buyerPhone.all (·.length ≤ 32) &&
    dto.taxRatePctBp.all validRate && dto.notes.all (·.length ≤ 2000) &&
    dto.terms.all (·.length ≤ 2000) && 1 ≤ dto.lineItems.length &&
    dto.lineItems.all InvoiceLineDto.validate

/-- Every field optional, and each may be null. -/
structure UpdateInvoiceDto where
  buyerName : Option (Option String) := none
  buyerEmail : Option (Option String) := none
  buyerPhone : Option (Option String) := none
  dueDate : Option (Option Int) := none
  taxRatePctBp : Option (Option Int) := none
  notes : Option (Option String) := none
  terms : Option (Option String) := none
  lineItems : Option (Option (List InvoiceLineDto)) := none
deriving DecidableEq

def UpdateInvoiceDto.validate (dto : UpdateInvoiceDto) : Bool :=
  dto.buyerName.join.all (·.length ≤ 200) && dto.buyerPhone.join.all (·.length ≤ 32) &&
    dto.taxRatePctBp.join.all validRate && dto.notes.join.all (·.length ≤ 2000) &&
    dto.terms.join.all (·.length ≤ 2000) && dto.lineItems.join.all fun lines =>
      1 ≤ lines.length && lines.all InvoiceLineDto.validate

/-- The columns an edit sets besides the lines and the totals; `new Date(null)` is the epoch. -/
def UpdateInvoiceDto.data (dto : UpdateInvoiceDto) : InvoiceUpdate where
  buyerName := dto.buyerName
  buyerEmail := dto.buyerEmail
  buyerPhone := dto.buyerPhone
  dueDate := dto.dueDate.map fun date => some (date.getD 0)
  taxRatePctBp := dto.taxRatePctBp
  notes := dto.notes
  terms := dto.terms

/-- The allow-listed projection a buyer sees. -/
structure PublicInvoiceView where
  number : String
  status : InvoiceStatus
  dueDate : Option Int
  currency : String
  buyerName : Option String
  lineItems : List InvoiceLineItem
  subtotal : Int
  taxAmount : Int
  total : Int
  notes : Option String
  terms : Option String

def toPublicInvoiceView (invoice : Invoice) : PublicInvoiceView where
  number := invoice.number
  status := invoice.status
  dueDate := invoice.dueDate
  currency := invoice.currency
  buyerName := invoice.buyerName
  lineItems := invoice.lineItems
  subtotal := invoice.subtotal
  taxAmount := invoice.taxAmount
  total := invoice.total
  notes := invoice.notes
  terms := invoice.terms

/-! ## The service -/

namespace Invoices

/-- `VOIDABLE_STATUSES` -/
def voidableStatuses : List InvoiceStatus := [.draft, .sent, .viewed, .overdue]

/-- Create a draft; the server computes every amount. -/
def createDraft (sellerId : Uuid) (dto : CreateInvoiceDto) : Program Invoice := do
  let totals := computeTotals (dto.lineItems.map InvoiceLineDto.input) dto.taxRatePctBp
  let uuid ← await .randomUUID
  await (.invoiceCreate
    { sellerId := sellerId, number := "", status := .draft, publicViewId := uuid.hex,
      subtotal := totals.subtotal, taxAmount := totals.taxAmount, total := totals.total,
      taxRatePctBp := dto.taxRatePctBp, buyerName := truthy dto.buyerName,
      buyerEmail := truthy dto.buyerEmail, buyerPhone := truthy dto.buyerPhone,
      dueDate := dto.dueDate, notes := truthy dto.notes, terms := truthy dto.terms,
      lineItems := lineItems dto.lineItems })

def getById (id : Uuid) : Program Invoice := do
  match ← await (.invoiceFindUnique (.id id)) with
  | none => Prog.throw (.notFound ("Invoice " ++ id.text ++ " not found"))
  | some invoice => pure invoice

/-- Load and assert the seller's ownership. -/
def loadOwned (sellerId id : Uuid) : Program Invoice := do
  let invoice ← getById id
  if invoice.sellerId ≠ sellerId then
    Prog.throw (.forbidden "Not the owner of this invoice")
  else pure invoice

/-- The lines an edit computes the totals from: the new ones, or those stored. -/
def effectiveLines (id : Uuid) (lines : Option (List InvoiceLineDto)) : Program (List LineInput) :=
  match lines with
  | some lines => pure (lines.map InvoiceLineDto.input)
  | none => do
      let stored ← await (.invoiceLineItemFindMany id)
      pure (stored.map InvoiceLineItem.input)

/-- Edit a draft: the totals are computed again when the lines or the rate are given. -/
def edit (sellerId id : Uuid) (dto : UpdateInvoiceDto) : Program Invoice := do
  let invoice ← loadOwned sellerId id
  if invoice.status ≠ .draft then
    Prog.throw (.badRequest "Only a DRAFT invoice can be edited")
  else if dto.lineItems.isSome || dto.taxRatePctBp.isSome then do
    -- a rate of null falls back to the invoice's here, but is stored as null
    let rate := dto.taxRatePctBp.join.or invoice.taxRatePctBp
    let lines ← effectiveLines id dto.lineItems.join
    let totals := computeTotals lines rate
    await (.invoiceUpdate id
      { dto.data with
        subtotal := some totals.subtotal
        taxAmount := some totals.taxAmount
        total := some totals.total
        lineItems := dto.lineItems.join.map lineItems })
  else await (.invoiceUpdate id dto.data)

/-- The buyer's view; the first one of a sent invoice marks it. -/
def getPublicView (publicViewId : String) : Program PublicInvoiceView := do
  match ← await (.invoiceFindUnique (.publicViewId publicViewId)) with
  | none => Prog.throw (.notFound "Invoice not found")
  | some invoice =>
    if invoice.status = .draft then Prog.throw (.notFound "Invoice not found")
    else if invoice.status = .sent then do
      let _ ← await (.invoiceUpdateManyViewed invoice.id)
      pure (toPublicInvoiceView { invoice with status := .viewed })
    else pure (toPublicInvoiceView invoice)

/-- An audit row about an invoice. -/
def audit (actorId : Option Uuid) (invoiceId : Uuid) (action : String) (src : InvoiceStatus)
    (dst : InvoiceStatus) : AuditLog where
  actorId := actorId.map Uuid.text
  actorType := if actorId.isSome then .user else .system
  action := action
  targetType := "Invoice"
  targetId := some invoiceId.text
  reason := none
  metadata := [("from", .str src.text), ("to", .str dst.text)]

/-- The `CANCEL` of a voided invoice's transaction. -/
def cancellation (sellerId transactionId : Uuid) (invoice : Invoice) : ApplyTransitionInput where
  transactionId := transactionId
  event := .cancel
  actor := { id := some sellerId.text, type := .user, role := some "SELLER" }
  reason := some ("invoice " ++ (if invoice.number = "" then invoice.id.text else invoice.number) ++
    " voided")

/-- Cancel the transaction of an invoice that has one. -/
def cancelTransaction (sellerId : Uuid) (invoice : Invoice) : Program Unit :=
  match invoice.transactionId with
  | none => pure ()
  | some transactionId => do
      let _ ← apply (cancellation sellerId transactionId invoice)
      pure ()

/-- Void an invoice that is not paid, and cancel its transaction. -/
def void (sellerId id : Uuid) : Program Invoice := do
  let invoice ← loadOwned sellerId id
  if !voidableStatuses.contains invoice.status then
    Prog.throw (.badRequest ("Cannot void an invoice in status " ++ invoice.status.text))
  else do
    cancelTransaction sellerId invoice
    let updated ← await (.invoiceUpdate id { status := some .void })
    await (.auditLogCreate (audit (some sellerId) id "invoice.voided" invoice.status .void))
    pure updated

/-- The next number of a seller's invoices. -/
def allocateNumber (sellerId : Uuid) : Program String := do
  let counter ← await (.invoiceCounterUpsert sellerId)
  let digits := toString (counter.nextSeq - 1)
  pure ("INV-" ++ String.ofList (List.replicate (4 - digits.length) '0') ++ digits)

/-- The draft transaction of an invoice. -/
def transactionDraft (sellerId : Uuid) (invoice : Invoice) : CreateDraftInput where
  sellerId := sellerId
  title := if invoice.number = "" then "Invoice" else invoice.number
  amount := invoice.total
  currency := some invoice.currency
  origin := some .web

/-- The `SELLER_PUBLISH` of a sent invoice's transaction. -/
def publication (sellerId transactionId : Uuid) : ApplyTransitionInput where
  transactionId := transactionId
  event := .sellerPublish
  actor := { id := some sellerId.text, type := .user, role := some "SELLER" }
  reason := some "invoice sent"

/-- Send a draft: mint and publish its transaction, give it a number, and flip it while it still is
a draft. -/
def send (sellerId id : Uuid) : Program Invoice := do
  let invoice ← loadOwned sellerId id
  if invoice.status ≠ .draft then pure invoice
  else if invoice.total ≤ 0 then
    Prog.throw (.badRequest "Cannot send an invoice with a zero total")
  else do
    let tx ← Meduman.createDraft (transactionDraft sellerId invoice)
    let _ ← apply (publication sellerId tx.id)
    let number ← allocateNumber sellerId
    let count ← await (.invoiceUpdateManySent id number tx.id)
    if count ≠ 1 then getById id
    else do
      await (.auditLogCreate (audit (some sellerId) id "invoice.sent" .draft .sent))
      await (.enqueueInvoice id)
      getById id

/-- Flip unpaid invoices past their due date. -/
def scanOverdue : Program Nat := do
  let now ← await .now
  await (.invoiceUpdateManyOverdue now)

end Invoices

end Meduman
