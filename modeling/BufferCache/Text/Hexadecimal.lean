/-!
# Hexadecimal numerals

Device numbers appear in messages as `0x` followed by at least four lower-case
hexadecimal digits, and the bits of a floating-point number as exactly sixteen
digits.  Both are one rule: the digits of the number, most significant first,
filled up with zeros on the left.
-/

namespace BufferCache
namespace Text

/-- The lower-case hexadecimal digits of `n`, filled up with zeros to at least
`width` of them. -/
def hexDigits (width n : Nat) : String :=
  let digits := Nat.toDigits 16 n
  String.ofList (List.replicate (width - digits.length) '0' ++ digits)

/-- The numeral of `n` with at least four digits behind `0x`. -/
def hexadecimal (n : Nat) : String :=
  "0x" ++ hexDigits 4 n

end Text
end BufferCache
