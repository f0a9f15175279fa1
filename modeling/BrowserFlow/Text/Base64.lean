import BrowserFlow.Text.Basic

/-!
Octets written as text, six bits to a letter: three octets become four letters,
and equals signs fill up the last four. Reading takes the letters alone, so that
line ends and the filling may stand between them.
-/

set_option autoImplicit false
set_option relaxedAutoImplicit false

namespace BrowserFlow.Base64

/-- The letter of a number below sixty-four. -/
def letter (n : Nat) : CodeUnit :=
  if n < 26 then (0x41 + n).toUInt16
  else if n < 52 then (0x61 + (n - 26)).toUInt16
  else if n < 62 then (0x30 + (n - 52)).toUInt16
  else if n = 62 then '+' else '/'

/-- The number of a letter. -/
def number? (u : CodeUnit) : Option Nat :=
  if u.isUpper then some (u.toNat - 0x41)
  else if u.isLower then some (u.toNat - 0x61 + 26)
  else if u.isDigit then some (u.toNat - 0x30 + 52)
  else if u = '+' then some 62
  else if u = '/' then some 63
  else none

/-- The letters of octets. -/
def letters : List UInt8 → List CodeUnit
  | a :: b :: c :: rest =>
    let n := a.toNat * 65536 + b.toNat * 256 + c.toNat
    letter (n / 262144) :: letter (n / 4096 % 64) :: letter (n / 64 % 64) :: letter (n % 64)
      :: letters rest
  | [a, b] =>
    let n := a.toNat * 65536 + b.toNat * 256
    [letter (n / 262144), letter (n / 4096 % 64), letter (n / 64 % 64), '=']
  | [a] =>
    let n := a.toNat * 65536
    [letter (n / 262144), letter (n / 4096 % 64), '=', '=']
  | [] => []

/-- Octets as text. -/
def encode (octets : List UInt8) : Text := ⟨letters octets⟩

/-- The octets of letters read as numbers; bits that fill no octet are left out. -/
def octets : List Nat → List UInt8
  | a :: b :: c :: d :: rest =>
    let n := ((a * 64 + b) * 64 + c) * 64 + d
    (n / 65536).toUInt8 :: (n / 256 % 256).toUInt8 :: (n % 256).toUInt8 :: octets rest
  | [a, b, c] =>
    let n := ((a * 64 + b) * 64 + c) * 64
    [(n / 65536).toUInt8, (n / 256 % 256).toUInt8]
  | [a, b] => [((a * 64 + b) / 16).toUInt8]
  | _ => []

end BrowserFlow.Base64
