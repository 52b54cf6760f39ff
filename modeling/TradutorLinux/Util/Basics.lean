import TradutorLinux.Util.Bytes

/-!
# The text helpers of `util/basics.hpp`

Hexadecimal and decimal numerals for the error texts, and the
locale-independent ASCII comparison every module and symbol name goes through.
-/

namespace TradutorLinux

/-! ### Numerals -/

/-- The digit of `"0123456789abcdef"`. -/
def hexDigit (digit : ℕ) : UInt8 := UInt8.ofNat (if digit < 10 then 48 + digit else 87 + digit)

/-- The loop of `format_hex` over the nibbles still to come, high ones first;
`started` once a digit has been written. -/
def hexDigits (value : ℕ) : ℕ → Bool → ByteString
  | 0, started => if started then [] else [48]
  | n + 1, started =>
    let digit := value >>> (4 * n) &&& 0xF
    if digit ≠ 0 ∨ started then hexDigit digit :: hexDigits value n true
    else hexDigits value n false

/-- `0x` and the lower-case hexadecimal digits of a 64-bit value. -/
def formatHex (value : ℕ) : ByteString := text "0x" ++ hexDigits value 16 false

/-- `std::to_string`. -/
def decimal (value : ℕ) : ByteString := text (toString value)

/-! ### Comparison of names -/

/-- `std::tolower` in the C locale. -/
def tolower (c : UInt8) : UInt8 := if 65 ≤ c ∧ c ≤ 90 then c + 32 else c

/-- Equality of names up to ASCII case. -/
def asciiIequals (a b : ByteString) : Bool := a.map tolower == b.map tolower

end TradutorLinux
