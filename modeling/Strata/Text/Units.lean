/-!
# UTF-16 units

The order of texts by their UTF-16 units. It differs from the order by code
point above the surrogates: a character beyond the first plane, which is two
units from U+D800 on, comes before U+E000 and what follows it.
-/

namespace Strata.Text

/-- The units of a character. -/
def charUnits (c : Char) : List Nat :=
  if c.toNat < 0x10000 then [c.toNat]
  else [0xD800 + (c.toNat - 0x10000) / 0x400, 0xDC00 + (c.toNat - 0x10000) % 0x400]

/-- The units of a text. -/
def units (text : String) : List Nat :=
  text.toList.flatMap charUnits

/-- Whether `x` does not come after `y` when units are compared one by one. -/
def unitsLe (x y : String) : Bool :=
  decide (¬ units y < units x)

end Strata.Text
