import Mathlib.Data.List.Sort
import Mathlib.Data.Prod.Lex
import Mathlib.Data.String.Basic
import Meduman.Model.Accounts
import Meduman.Page.Traversal

/-!
# Lists, read page by page

* `Dated`, `key`, `findMany` : rows in the order of the lists, and the query of a page
* `page` : a page and its cursor
* `listForUser`, `listForMerchant`, `listForSeller`, `listForReview` : the lists
-/

set_option autoImplicit false

namespace Meduman.Listing

open Paging (Page)
open Chat (ChatPlatform)
open Linking (ChatLinkRequest ChatLinkRequestStatus MergeCollisionKind)

/-- A row with its `createdAt`. -/
structure Dated (ρ : Type) where
  createdAt : Int
  row : ρ
deriving DecidableEq

section Query

variable {ρ : Type} (id : ρ → Uuid)

/-- What `orderBy: [{ createdAt: 'desc' }, { id: 'desc' }]` orders by. -/
def key (d : Dated ρ) : Int ×ₗ String := toLex (d.createdAt, (id d.row).text)

/-- One row comes no later than another. -/
def Newer (a b : Dated ρ) : Prop := key id b ≤ key id a

instance : DecidableRel (Newer id) := fun a b => inferInstanceAs (Decidable (key id b ≤ key id a))

/-- The rows that match, newest first; with a cursor, those from its row on without the first. -/
def findMany (table : List (Dated ρ)) (filter : ρ → Bool) (take : Nat) (cursor : Option Uuid) :
    List (Dated ρ) :=
  let sorted := table.insertionSort (Newer id)
  match cursor with
  | none => (sorted.filter fun d => filter d.row).take take
  | some c =>
      match table.find? fun d => id d.row == c with
      | none => []
      -- the position of the cursor's row, whether or not it matches
      | some start =>
          (((sorted.filter fun d => filter d.row).filter fun d => key id d ≤ key id start).drop 1).take
            take

/-- A page; one row more is read, to know whether there is a next one. -/
def page (table : List (Dated ρ)) (filter : ρ → Bool) (take : Nat) (cursor : Option Uuid) :
    Page (Dated ρ) Uuid :=
  let rows := findMany id table filter (take + 1) cursor
  let items := rows.take take
  { items := items
    nextCursor := if take < rows.length then items.getLast?.map fun d => id d.row else none }

end Query

/-! ## The lists -/

inductive Role
  | buyer | seller
deriving DecidableEq

structure ListTransactionsOptions where
  role : Role
  status : Option TransactionStatus
  cursor : Option Uuid
  limit : Option Nat

def ofUser (userId : Uuid) (role : Role) (status : Option TransactionStatus) (tx : Transaction) :
    Bool :=
  (match role with
    | .buyer => tx.buyerId == some userId
    | .seller => tx.sellerId == userId) && status.all (tx.status == ·)

def listForUser (table : List (Dated Transaction)) (userId : Uuid) (opts : ListTransactionsOptions) :
    Page (Dated Transaction) Uuid :=
  page Transaction.id table (ofUser userId opts.role opts.status) (opts.limit.getD 20) opts.cursor

def ofMerchant (merchantId : Uuid) (status : Option TransactionStatus) (tx : Transaction) : Bool :=
  tx.merchantId == some merchantId && status.all (tx.status == ·)

structure ListMerchantOptions where
  status : Option TransactionStatus
  cursor : Option Uuid
  limit : Option Nat

/-- The transactions of a merchant. -/
def listForMerchant (table : List (Dated Transaction)) (merchantId : Uuid)
    (opts : ListMerchantOptions) : Page (Dated Transaction) Uuid :=
  page Transaction.id table (ofMerchant merchantId opts.status) (opts.limit.getD 20) opts.cursor

def ofSeller (sellerId : Uuid) (status : Option InvoiceStatus) (invoice : Invoice) : Bool :=
  invoice.sellerId == sellerId && status.all (invoice.status == ·)

structure ListInvoicesOptions where
  status : Option InvoiceStatus
  cursor : Option Uuid
  limit : Option Nat

/-- The invoices of a seller. -/
def listForSeller (table : List (Dated Invoice)) (sellerId : Uuid) (opts : ListInvoicesOptions) :
    Page (Dated Invoice) Uuid :=
  page Invoice.id table (ofSeller sellerId opts.status) (opts.limit.getD 20) opts.cursor

/-- A link request as an admin sees it, without its `codeHash`. -/
structure LinkRequestView where
  id : Uuid
  targetUserId : Uuid
  platform : Option ChatPlatform
  platformUserId : Option String
  chatIdentityId : Option Uuid
  sourceUserId : Option Uuid
  status : ChatLinkRequestStatus
  conflictReason : Option MergeCollisionKind
  attemptCount : Nat
  expiresAt : Int
  consumedAt : Option Int
  resolvedAt : Option Int
  resolvedBy : Option Uuid
deriving DecidableEq

def view (r : ChatLinkRequest) : LinkRequestView where
  id := r.id
  targetUserId := r.targetUserId
  platform := r.platform
  platformUserId := r.platformUserId
  chatIdentityId := r.chatIdentityId
  sourceUserId := r.sourceUserId
  status := r.status
  conflictReason := r.conflictReason
  attemptCount := r.attemptCount
  expiresAt := r.expiresAt
  consumedAt := r.consumedAt
  resolvedAt := r.resolvedAt
  resolvedBy := r.resolvedBy

/-- `Math.min(Number(filter.limit) || 50, 100)` -/
def reviewTake (limit : Option Nat) : Nat :=
  min (match limit with
    | none | some 0 => 50
    | some n => n) 100

/-- What the review queue is asked for; `limit` is what `Number` reads, with none for `NaN`. -/
structure ReviewFilter where
  status : Option ChatLinkRequestStatus
  cursor : Option Uuid
  limit : Option Nat

def inReview (status : Option ChatLinkRequestStatus) (r : ChatLinkRequest) : Bool :=
  r.status == status.getD .pendingReview

/-- The parked link requests. -/
def listForReview (table : List (Dated ChatLinkRequest)) (filter : ReviewFilter) :
    Page (Dated LinkRequestView) Uuid :=
  let rows := page ChatLinkRequest.id table (inReview filter.status) (reviewTake filter.limit)
    filter.cursor
  { items := rows.items.map fun d => { createdAt := d.createdAt, row := view d.row }
    nextCursor := rows.nextCursor }

end Meduman.Listing
