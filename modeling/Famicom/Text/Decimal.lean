/-!
# Quotients with fixed places

A quotient is written with a fixed number of decimal places, rounded to the nearest one.
-/

namespace Famicom.Text

/-- The whole number nearest to a quotient; a half goes up. -/
def nearest (numerator denominator : Nat) : Nat :=
  (2 * numerator + denominator) / (2 * denominator)

/-- A quotient with `places` decimal places. -/
def fixedPlaces (numerator denominator places : Nat) : String :=
  let unit := Nat.pow 10 places
  let scaled := nearest (numerator * unit) denominator
  let fraction := toString (scaled % unit)
  toString (scaled / unit) ++ "." ++
    String.ofList (List.replicate (places - fraction.length) '0') ++ fraction

end Famicom.Text
