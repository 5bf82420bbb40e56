import TelemetryQuery.Text.Range
/- White space. -/
namespace TelemetryQuery.Text

/-- The characters with the Unicode property White_Space. -/
def blankRanges : List (Nat × Nat) :=
  [(0x0009, 0x000D), (0x0020, 0x0020), (0x0085, 0x0085), (0x00A0, 0x00A0), (0x1680, 0x1680),
    (0x2000, 0x200A), (0x2028, 0x2029), (0x202F, 0x202F), (0x205F, 0x205F), (0x3000, 0x3000)]

/-- A space of any kind: blank, tab, line end, or one of the wide and thin spaces. -/
def isBlank (c : Char) : Bool :=
  inRanges blankRanges c

/-- Text without the white space at its two ends. -/
def trim (text : String) : String :=
  String.ofList ((text.toList.dropWhile isBlank).reverse.dropWhile isBlank).reverse

/-- Text that holds white space only. -/
def isBlankText (text : String) : Bool :=
  text.toList.all isBlank

/-- Text with all its white space removed. -/
def removeBlanks (text : String) : String :=
  String.ofList (text.toList.filter (!isBlank ·))

end TelemetryQuery.Text
