import PayrollFormula.Log.Journal

/-!
# Reporters

A reporter is the journal for the events that name none. It can be switched off, and then the
events reported to it are dropped; its journal stays and can still be written and read.
-/

set_option autoImplicit false

namespace PayrollFormula

/-- A journal that can be switched off. -/
structure Reporter where
  journal : Journal
  on : Bool

namespace Reporter

/-- Reports an event, which is dropped if the reporter is off. -/
def report (r : Reporter) (e : Event) (run : Option String) : Reporter :=
  if r.on then { r with journal := r.journal.emit e run } else r

/-- Writes an event to the journal of the reporter, be it on or off. -/
def reportDirectly (r : Reporter) (e : Event) (run : Option String) : Reporter :=
  { r with journal := r.journal.emit e run }

/-- Switches the reporter on or off. -/
def switch (r : Reporter) (on : Bool) : Reporter := { r with on }

end Reporter

end PayrollFormula
