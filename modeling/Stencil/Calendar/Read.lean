import Stencil.Calendar.Exchange
import Stencil.Calendar.Layout

/-! Reading times whatever their form. -/

namespace Stencil.Calendar

/-- The point in time that a text says. Stamps and mail headers are tried first, then layouts with
an offset, without one, and bare dates. -/
def Instant.read? (s : String) : Option Instant :=
  let cs := Text.trim s.toList
  (stamp? cs).or <| (mailDate? cs).or <|
    (Part.withOffset ++ Part.withoutOffset ++ Part.dates).findSome? (Part.instant? · cs)

end Stencil.Calendar
