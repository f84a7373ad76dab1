import PayrollFormula.Log.Event
import PayrollFormula.Template.Applied

/-!
# Reports of applied templates

The event that is logged when a template is applied. It names the template and its parameters, but
holds none of their numbers.
-/

set_option autoImplicit false

namespace PayrollFormula

/-- What is reported about applying a template: its code and the names of its parameters. -/
def Applied.event (time : String) (a : Applied) : Event :=
  .report time .templateApplied .info ("Applied template " ++ quoted a.code)
    [(Event.templateField, .text a.code),
      ("parameters", .list ((sortTexts (a.parameters.map Prod.fst)).map .text))]
    none

end PayrollFormula
