import Mathlib.Data.Rat.Defs
import Mathlib.Algebra.Order.Ring.Rat
import Mathlib.Data.List.Dedup
import Meduman.Model.World

/-!
# Platform analytics

The stages the transactions created in a time range ever reached, by the platform they came from, and
the response the rows are mapped to.

* `Analytics.toNumber`, `Analytics.add` : counts as the response has them, 64-bit floating point numbers
* `Analytics.queryRaw` : one row an origin
* `Analytics.toPlatformAnalyticsResponse` : seven rows and their totals
* `Analytics.getPlatformMetrics`
-/

set_option autoImplicit false

namespace Meduman.Analytics

open Effect

/-! ## Numbers -/

/-- The nearest multiple of `ulp`, the even one of two. -/
def roundTo (ulp n : Nat) : Nat :=
  if ulp < 2 * (n % ulp) ∨ 2 * (n % ulp) = ulp ∧ n / ulp % 2 = 1 then (n / ulp + 1) * ulp
  else n / ulp * ulp

/-- `Number(n)` of a count: the nearest number of 53 significant bits. -/
def toNumber (n : Nat) : Nat := roundTo (2 ^ (n.log2 - 52)) n

/-- `+` of two such numbers. -/
def add (a b : Nat) : Nat := toNumber (a + b)

/-- `value.toString()` -/
def kobo (value : Int) : String := value.repr

/-- `BigInt(text)` of the text of an integer. -/
def bigInt (text : String) : Int := text.toInt?.getD 0

/-! ## Rows and responses -/

/-- One origin's funnel and money; `COUNT` and `SUM` are exact. -/
structure PlatformMetrics where
  origin : TransactionOrigin
  sellers : Nat := 0
  buyers : Nat := 0
  created : Nat := 0
  published : Nat := 0
  paymentStarted : Nat := 0
  protectedCount : Nat := 0
  delivered : Nat := 0
  released : Nat := 0
  disputed : Nat := 0
  protectedVolumeKobo : Int := 0
  releasedVolumeKobo : Int := 0
  feesKobo : Int := 0

/-- The counts of a response are numbers, its money is text. No origin stands for all of them. -/
structure PlatformMetricsResponse where
  origin : Option TransactionOrigin
  sellers : Nat
  buyers : Nat
  created : Nat
  published : Nat
  paymentStarted : Nat
  protectedCount : Nat
  delivered : Nat
  released : Nat
  disputed : Nat
  disputeRate : ℚ
  protectedVolumeKobo : String
  releasedVolumeKobo : String
  feesKobo : String

/-- A fraction of four decimal places; 0 where nothing was protected. -/
def rate (disputed protectedCount : Nat) : ℚ :=
  if protectedCount = 0 then 0 else (toNumber (disputed * 10000 / protectedCount) : ℚ) / 10000

def toResponse (row : PlatformMetrics) : PlatformMetricsResponse where
  origin := some row.origin
  sellers := toNumber row.sellers
  buyers := toNumber row.buyers
  created := toNumber row.created
  published := toNumber row.published
  paymentStarted := toNumber row.paymentStarted
  protectedCount := toNumber row.protectedCount
  delivered := toNumber row.delivered
  released := toNumber row.released
  disputed := toNumber row.disputed
  disputeRate := rate row.disputed row.protectedCount
  protectedVolumeKobo := kobo row.protectedVolumeKobo
  releasedVolumeKobo := kobo row.releasedVolumeKobo
  feesKobo := kobo row.feesKobo

/-- `ALL_ORIGINS` -/
def allOrigins : List TransactionOrigin :=
  [.web, .telegram, .whatsapp, .instagram, .messenger, .x, .eaas]

/-- What `reduce` gathers; money as integers again. -/
structure Summed where
  sellers : Nat := 0
  buyers : Nat := 0
  created : Nat := 0
  published : Nat := 0
  paymentStarted : Nat := 0
  protectedCount : Nat := 0
  delivered : Nat := 0
  released : Nat := 0
  disputed : Nat := 0
  protectedVolume : Int := 0
  releasedVolume : Int := 0
  fees : Int := 0

def Summed.add (acc : Summed) (p : PlatformMetricsResponse) : Summed where
  sellers := Analytics.add acc.sellers p.sellers
  buyers := Analytics.add acc.buyers p.buyers
  created := Analytics.add acc.created p.created
  published := Analytics.add acc.published p.published
  paymentStarted := Analytics.add acc.paymentStarted p.paymentStarted
  protectedCount := Analytics.add acc.protectedCount p.protectedCount
  delivered := Analytics.add acc.delivered p.delivered
  released := Analytics.add acc.released p.released
  disputed := Analytics.add acc.disputed p.disputed
  protectedVolume := acc.protectedVolume + bigInt p.protectedVolumeKobo
  releasedVolume := acc.releasedVolume + bigInt p.releasedVolumeKobo
  fees := acc.fees + bigInt p.feesKobo

def Summed.totals (summed : Summed) : PlatformMetricsResponse where
  origin := none
  sellers := summed.sellers
  buyers := summed.buyers
  created := summed.created
  published := summed.published
  paymentStarted := summed.paymentStarted
  protectedCount := summed.protectedCount
  delivered := summed.delivered
  released := summed.released
  disputed := summed.disputed
  disputeRate := rate summed.disputed summed.protectedCount
  protectedVolumeKobo := kobo summed.protectedVolume
  releasedVolumeKobo := kobo summed.releasedVolume
  feesKobo := kobo summed.fees

structure PlatformAnalyticsResponse where
  platforms : List PlatformMetricsResponse
  totals : PlatformMetricsResponse

/-- Zero-fill to every origin, and add the totals. -/
def toPlatformAnalyticsResponse (rows : List PlatformMetrics) : PlatformAnalyticsResponse :=
  let byOrigin (origin : TransactionOrigin) := rows.reverse.find? fun r => r.origin == origin
  let platforms := allOrigins.map fun origin => toResponse ((byOrigin origin).getD { origin := origin })
  { platforms := platforms, totals := (platforms.foldl Summed.add {}).totals }

/-! ## The query -/

/-- What the query reads; the transactions' own time of creation is a column of its own here. -/
structure Store where
  transactions : Table Transaction
  timeline : List TimelineEvent
  createdAt : Uuid → Int

/-- `EXISTS` a timeline row that enters this state. -/
def Store.reached (w : Store) (s : TransactionStatus) (t : Transaction) : Bool :=
  w.timeline.any fun e => e.transactionId == t.id && e.newState == s.text

/-- The transactions created in the range. -/
def Store.cohort (w : Store) (start stop : Int) : List Transaction :=
  w.transactions.filter fun t => start ≤ w.createdAt t.id && w.createdAt t.id < stop

/-- The transactions of one origin aggregated. -/
def Store.aggregate (w : Store) (origin : TransactionOrigin) (staged : List Transaction) :
    PlatformMetrics where
  origin := origin
  sellers := (staged.map Transaction.sellerId).dedup.length
  buyers := (staged.filterMap Transaction.buyerId).dedup.length
  created := staged.length
  published := staged.countP (w.reached .linkActive)
  paymentStarted := staged.countP (w.reached .paymentPending)
  protectedCount := staged.countP (w.reached .paymentProtected)
  delivered := staged.countP (w.reached .confirmationPending)
  released := staged.countP (w.reached .completed)
  disputed := staged.countP (w.reached .disputed)
  protectedVolumeKobo := ((staged.filter (w.reached .paymentProtected)).map Transaction.amount).sum
  releasedVolumeKobo := ((staged.filter (w.reached .completed)).map Transaction.amount).sum
  feesKobo := ((staged.filter (w.reached .paymentProtected)).map Transaction.feeAmount).sum

/-- One row for each origin some transaction has. -/
def Store.queryRaw (w : Store) (start stop : Int) : List PlatformMetrics :=
  allOrigins.filterMap fun origin =>
    let staged := (w.cohort start stop).filter fun t => t.origin == origin
    if staged.isEmpty then none else some (w.aggregate origin staged)

def Store.getPlatformMetrics (w : Store) (start stop : Int) : PlatformAnalyticsResponse :=
  toPlatformAnalyticsResponse (w.queryRaw start stop)

end Meduman.Analytics
