import MethodFlow.Document

/-! Floating-point numbers and bytes in documents. A number is written as the hexadecimal digits of
its bits, so that it reads back as it was; all NaNs are written alike. -/
namespace MethodFlow

namespace Document

def hexDigit (n : Nat) : Char := Char.ofNat (if n < 10 then 48 + n else 87 + n)

def hexDigits : Nat → Nat → List Char
  | 0, _ => []
  | width + 1, n => hexDigits width (n / 16) ++ [hexDigit (n % 16)]

def hexText (width n : Nat) : String := String.ofList (hexDigits width n)

def hexValue? (c : Char) : Option Nat :=
  if '0' ≤ c && c ≤ '9' then some (c.toNat - 48)
  else if 'a' ≤ c && c ≤ 'f' then some (c.toNat - 87)
  else if 'A' ≤ c && c ≤ 'F' then some (c.toNat - 55)
  else none

def ofHex? (chars : List Char) : Option Nat :=
  chars.foldlM (fun n c => (n * 16 + ·) <$> hexValue? c) 0

def double? (document : Document) : Option Float := do
  match ← document.text? with
  | "nan" => return 0.0 / 0.0
  | digits => return Float.ofBits (UInt64.ofNat (← ofHex? digits.toList))

def single? (document : Document) : Option Float32 := do
  match ← document.text? with
  | "nan" => return 0.0 / 0.0
  | digits => return Float32.ofBits (UInt32.ofNat (← ofHex? digits.toList))

def double (value : Float) : Document :=
  text (if value.isNaN then "nan" else hexText 16 value.toBits.toNat)

def single (value : Float32) : Document :=
  text (if value.isNaN then "nan" else hexText 8 value.toBits.toNat)

/-- A number of which only the value counts, so that both zeros are written alike. -/
def quantity (value : Float) : Document := double (if value == 0.0 then 0.0 else value)

def bytesOf? : List Char → Option (List UInt8)
  | [] => some []
  | [_] => none
  | high :: low :: rest => do
    let byte := UInt8.ofNat ((← hexValue? high) * 16 + (← hexValue? low))
    return byte :: (← bytesOf? rest)

def bytes? (document : Document) : Option (Array UInt8) := do
  return (← bytesOf? (← document.text?).toList).toArray

def bytes (code : Array UInt8) : Document :=
  text (String.ofList (code.toList.flatMap fun byte => hexDigits 2 byte.toNat))

end Document

end MethodFlow
