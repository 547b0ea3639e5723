import Proctor.Decimal.Shortest

/-!
# Doubles as text

A double is written with its shortest digits: with a decimal point and at least one digit on
either side of it while its magnitude is from `1e-5` to below `1e16`, with an exponent beyond.
-/

set_option autoImplicit false

namespace Proctor.Decimal

/-- Where positional notation begins and ends: values from `10 ^ least` to below `10 ^ greatest`. -/
structure Layout where
  least : Int
  greatest : Int

/-- Positional from `1e-5` on and below `1e16`. -/
def standard : Layout := ⟨-5, 16⟩

/-- Writes nonzero digits; `magnitude` is the number of digits before the point. -/
def Layout.write (n : Layout) (s : Scaled) : List Char :=
  let digits := Text.Integer.digits s.digits
  let magnitude := digits.length + s.exponent
  if n.least < magnitude ∧ magnitude ≤ n.greatest then
    if 0 ≤ s.exponent then digits ++ List.replicate s.exponent.toNat '0' ++ ['.', '0']
    else if 0 < magnitude then digits.take magnitude.toNat ++ '.' :: digits.drop magnitude.toNat
    else '0' :: '.' :: List.replicate (-magnitude).toNat '0' ++ digits
  else
    let mantissa := match digits with
      | d :: rest => if rest.isEmpty then [d] else d :: '.' :: rest
      | [] => []
    mantissa ++ 'e' :: (Text.Integer.text (magnitude - 1)).toList

/-- The text of a finite double. -/
def text (x : Float) : String :=
  let sign := if x.toBits.toNat / 0x8000000000000000 = 1 then ['-'] else []
  let size := x.toBits.toNat % 0x8000000000000000
  if size = 0 then String.ofList (sign ++ ['0', '.', '0'])
  else String.ofList (sign ++ standard.write (Shortest.decimal size.toUInt64))

example : text 50.0 = "50.0" := by decide +kernel
example : standard.write ⟨4656612875245797, -23⟩ = "4.656612875245797e-8".toList := by decide
example : standard.write ⟨1, 16⟩ = "1e16".toList := by decide
example : standard.write ⟨125, -7⟩ = "0.0000125".toList := by decide

end Proctor.Decimal
