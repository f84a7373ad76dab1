import PayrollFormula.Template.Catalogue

/-!
# The bundled catalogue

The templates that come with the library: common rules of pay, bonuses, deductions and tax.
-/

set_option autoImplicit false

namespace PayrollFormula

namespace Template

/-- The number `a / b`. -/
def ratio (a b : Nat) : Double := .round false (a * Rank.one) b

/-- A whole number. -/
def whole (n : Nat) : Double := ratio n 1

/-- A parameter in per cent. -/
def percentage (name : String) (default : Nat) : Parameter :=
  ⟨name, .percentage, "", none, none, some (whole default)⟩

/-- An amount that is not below zero. -/
def amount (name : String) (default : Nat) : Parameter :=
  ⟨name, .fixed, "", some (whole 0), none, some (whole default)⟩

/-- Whole numbers as sample bindings, with the value that they give. -/
def sampleOf (values : List (String × Nat)) (result : Double) : Option Sample :=
  some ⟨values.map fun (name, n) => (name, whole n), result⟩

/-- Hours at a rate. -/
def hourlyPay : Template where
  code := "hourly_pay"
  name := "Hourly Pay"
  category := "earnings"
  description := "Regular pay from hours worked and the hourly rate."
  formula := "hours_worked * hourly_rate"
  variableNames := ["hours_worked", "hourly_rate"]
  parameters := []
  sample := sampleOf [("hours_worked", 40), ("hourly_rate", 25)] (whole 1000)

/-- Overtime hours at a multiple of the rate. -/
def overtimePay : Template where
  code := "overtime_pay"
  name := "Overtime Pay"
  category := "earnings"
  description := "Overtime hours paid at a multiple of the hourly rate."
  formula := "overtime_hours * hourly_rate * \x7bmultiplier\x7d"
  variableNames := ["overtime_hours", "hourly_rate"]
  parameters := [
    ⟨"multiplier", .fixed, "Overtime premium, e.g. 1.5 for time-and-a-half.",
      some (whole 1), some (whole 3), some (ratio 3 2)⟩]
  sample := sampleOf [("overtime_hours", 10), ("hourly_rate", 25)] (whole 375)

/-- A share of gross pay. -/
def percentageBonus : Template where
  code := "percentage_bonus"
  name := "Percentage Bonus"
  category := "bonus"
  description := "Bonus as a percentage of gross pay."
  formula := "gross_pay * \x7bbonus_percentage\x7d / 100"
  variableNames := ["gross_pay"]
  parameters := [percentage "bonus_percentage" 10]
  sample := sampleOf [("gross_pay", 5000)] (whole 500)

/-- One of two amounts, depending on gross pay. -/
def tieredBonus : Template where
  code := "tiered_bonus"
  name := "Tiered Bonus"
  category := "bonus"
  description := "Fixed bonus that steps up once gross pay passes a threshold."
  formula := "IF(gross_pay > \x7bthreshold\x7d, \x7bhigh_bonus\x7d, \x7blow_bonus\x7d)"
  variableNames := ["gross_pay"]
  parameters := [amount "threshold" 3000, amount "high_bonus" 150, amount "low_bonus" 100]
  sample := sampleOf [("gross_pay", 5000)] (whole 150)

/-- A share of gross pay up to a greatest amount. -/
def cappedDeduction : Template where
  code := "capped_deduction"
  name := "Capped Deduction"
  category := "deduction"
  description := "Percentage of gross pay, limited to a maximum amount."
  formula := "MIN(gross_pay * \x7brate\x7d / 100, \x7bcap\x7d)"
  variableNames := ["gross_pay"]
  parameters := [percentage "rate" 5, amount "cap" 200]
  sample := sampleOf [("gross_pay", 5000)] (whole 200)

/-- Tax at one rate on what exceeds an exempt amount. -/
def flatTaxWithholding : Template where
  code := "flat_tax_withholding"
  name := "Flat Tax Withholding"
  category := "tax"
  description := "Flat-rate tax on taxable income above an exempt amount, rounded to cents."
  formula := "ROUND(MAX(taxable_income - \x7bexemption\x7d, 0) * \x7btax_rate\x7d / 100, 2)"
  variableNames := ["taxable_income"]
  parameters := [amount "exemption" 1000, percentage "tax_rate" 8]
  sample := sampleOf [("taxable_income", 5000)] (whole 320)

/-- Gross pay per hour. -/
def effectiveHourlyRate : Template where
  code := "effective_hourly_rate"
  name := "Effective Hourly Rate"
  category := "ratio"
  description := "Gross pay per hour worked, zero when no hours were recorded."
  formula := "hours_worked > 0 ? ROUND(gross_pay / hours_worked, 2) : 0"
  variableNames := ["gross_pay", "hours_worked"]
  parameters := []
  sample := sampleOf [("gross_pay", 5000), ("hours_worked", 160)] (ratio 3125 100)

end Template

/-- The bundled templates. -/
def Catalogue.bundled : Catalogue := [
  .hourlyPay, .overtimePay, .percentageBonus, .tieredBonus, .cappedDeduction, .flatTaxWithholding,
  .effectiveHourlyRate]

end PayrollFormula
