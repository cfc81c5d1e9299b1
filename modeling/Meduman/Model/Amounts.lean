import Meduman.Dialog.Naira
import Meduman.Model.Invoices
import Meduman.Num.Double

/-!
# Amounts in doubles

The arithmetic of the amounts as it is computed, every operation rounded to a double. A double that is
too large to be finite is as good as any other too large for a column.

* `Doubles.computeLineTotal`, `Doubles.computeTotals` : the invoice arithmetic
* `Doubles.parseNairaToKobo` : the amount a chat names
* `Doubles.chargeAmountFor`, `Doubles.sellerSettlement` : what a buyer is charged, and the seller is paid
* `Fits` : what an `INTEGER` column holds
-/

set_option autoImplicit false

namespace Meduman

namespace Doubles

open Double

def computeLineTotal (line : LineInput) : ℚ := toDouble (line.unitPrice * line.quantity)

structure InvoiceTotals where
  subtotal : ℚ
  taxAmount : ℚ
  total : ℚ

def computeTotals (lines : List LineInput) (taxRatePctBp : Option Int) : InvoiceTotals :=
  let subtotal := lines.foldl (fun sum line => toDouble (sum + computeLineTotal line)) 0
  let taxAmount := match taxRatePctBp with
    | none => (0 : ℚ)
    | some rate => mathRound (toDouble (toDouble (subtotal * rate) / 10000))
  ⟨subtotal, taxAmount, toDouble (subtotal + taxAmount)⟩

/-- `Number` rounds what the text spells to a double. -/
def parseNairaToKobo (text : String) : Option Int :=
  match Dialog.spelled text with
  | none => none
  | some naira =>
      if !isFinite (naira / 100) then none
      else some (mathRound (toDouble (toDouble (naira / 100) * 100)))

def chargeAmountFor (tx : Transaction) : ℚ :=
  toDouble (tx.amount + if tx.feeModel = .buyerPays then tx.feeAmount else 0)

def sellerSettlement (amount : Int) (feeModel : FeeModel) (feeAmount : Int) : ℚ :=
  match feeModel with
  | .buyerPays => amount
  | .sellerPays => toDouble (amount - feeAmount)

end Doubles

/-- The numbers of an `INTEGER` column. -/
def int4Max : Int := 2147483647

def int4Min : Int := -2147483648

/-- A number fits into a column. -/
def Fits (x : ℚ) : Prop := int4Min ≤ x ∧ x ≤ int4Max

end Meduman
