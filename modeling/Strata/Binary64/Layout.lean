import Strata.Binary64.Shortest

/-!
# Layouts of decimal numbers

How shortest digits are set down: positionally or with an exponent, with or
without a fraction in integral values, and which digits they are where two
decimals are equally short and equally near. Every number that is written goes
through `Layout.render`; a format that writes numbers is one `Layout`, defined
beside that format.
-/

namespace Strata.Binary64

/-- The decisions a format takes on numbers. -/
structure Layout where
  /-- Whether digits with their point at this place are written positionally. -/
  positional : Int → Bool
  /-- Whether an integral value written positionally keeps one fraction digit. -/
  keepsFraction : Bool
  /-- Whether negative zero shows its sign. -/
  signsZero : Bool
  /-- Which digits are written if there are two nearest decimals. -/
  tie : Tie

/-- The digits of a natural number, most significant first. -/
def digitText (n : Nat) : String :=
  String.ofList (Nat.toDigits 10 n)

def zeros (n : Nat) : String :=
  String.ofList (List.replicate n '0')

/-- Digits with the point among them or beside them, padded with zeros. -/
def Layout.positionally (layout : Layout) (d : Decimal) : String :=
  let text := digitText d.digits
  if d.point ≤ 0 then "0." ++ zeros (-d.point).toNat ++ text
  else if (d.count : Int) ≤ d.point then
    text ++ zeros (d.point - d.count).toNat ++ (if layout.keepsFraction then ".0" else "")
  else
    let chars := text.toList
    String.ofList (chars.take d.point.toNat) ++ "." ++ String.ofList (chars.drop d.point.toNat)

/-- One digit before the point, the others behind it, and a signed exponent. -/
def scientific (d : Decimal) : String :=
  let chars := (digitText d.digits).toList
  let fraction := if d.count ≤ 1 then "" else "." ++ String.ofList (chars.drop 1)
  let exponent := d.point - 1
  String.ofList (chars.take 1) ++ fraction ++ "e" ++ (if exponent < 0 then "-" else "+")
    ++ digitText exponent.natAbs

/-- The text of a finite value. -/
def Layout.render (layout : Layout) (x : Binary64) : String :=
  if x.magnitude = 0 then
    (if x.isNegative && layout.signsZero then "-" else "")
      ++ (if layout.keepsFraction then "0.0" else "0")
  else
    let d := x.shortest layout.tie
    (if x.isNegative then "-" else "")
      ++ (if layout.positional d.point then layout.positionally d else scientific d)

end Strata.Binary64
