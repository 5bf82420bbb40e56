import TelemetryQuery.Text.Numeric
/- Word characters, and the boundaries between words. -/
namespace TelemetryQuery.Text

/-- Combining marks beyond ASCII that are not alphabetic. -/
def markRanges : List (Nat × Nat) :=
  [(0x0300, 0x0344), (0x0346, 0x036F), (0x0483, 0x0489), (0x0591, 0x05AF), (0x0658, 0x0658),
   (0x06DF, 0x06E0), (0x06EA, 0x06EC), (0x0740, 0x074A), (0x07EB, 0x07F3), (0x07FD, 0x07FD),
   (0x0818, 0x0819), (0x082D, 0x082D), (0x0859, 0x085B), (0x0898, 0x089F), (0x08CA, 0x08D3),
   (0x08E0, 0x08E1), (0x08EA, 0x08EF), (0x093C, 0x093C), (0x094D, 0x094D), (0x0951, 0x0954),
   (0x09BC, 0x09BC), (0x09CD, 0x09CD), (0x09FE, 0x09FE), (0x0A3C, 0x0A3C), (0x0A4D, 0x0A4D),
   (0x0ABC, 0x0ABC), (0x0ACD, 0x0ACD), (0x0AFD, 0x0AFF), (0x0B3C, 0x0B3C), (0x0B4D, 0x0B4D),
   (0x0B55, 0x0B55), (0x0BCD, 0x0BCD), (0x0C3C, 0x0C3C), (0x0C4D, 0x0C4D), (0x0CBC, 0x0CBC),
   (0x0CCD, 0x0CCD), (0x0D3B, 0x0D3C), (0x0D4D, 0x0D4D), (0x0DCA, 0x0DCA), (0x0E47, 0x0E4C),
   (0x0E4E, 0x0E4E), (0x0EBA, 0x0EBA), (0x0EC8, 0x0ECC), (0x0ECE, 0x0ECE), (0x0F18, 0x0F19),
   (0x0F35, 0x0F35), (0x0F37, 0x0F37), (0x0F39, 0x0F39), (0x0F3E, 0x0F3F), (0x0F84, 0x0F84),
   (0x0F86, 0x0F87), (0x0FC6, 0x0FC6), (0x1037, 0x1037), (0x1039, 0x103A), (0x135D, 0x135F),
   (0x1714, 0x1715), (0x1734, 0x1734), (0x17B4, 0x17B5), (0x17C9, 0x17D3), (0x17DD, 0x17DD),
   (0x180B, 0x180D), (0x180F, 0x180F), (0x1939, 0x193B), (0x1A60, 0x1A60), (0x1A75, 0x1A7C),
   (0x1A7F, 0x1A7F), (0x1AB0, 0x1ABE), (0x1AC1, 0x1ACB), (0x1B34, 0x1B34), (0x1B44, 0x1B44),
   (0x1B6B, 0x1B73), (0x1BAA, 0x1BAB), (0x1BE6, 0x1BE6), (0x1BF2, 0x1BF3), (0x1C37, 0x1C37),
   (0x1CD0, 0x1CD2), (0x1CD4, 0x1CE8), (0x1CED, 0x1CED), (0x1CF4, 0x1CF4), (0x1CF7, 0x1CF9),
   (0x1DC0, 0x1DE6), (0x1DF5, 0x1DFF), (0x20D0, 0x20F0), (0x2CEF, 0x2CF1), (0x2D7F, 0x2D7F),
   (0x302A, 0x302F), (0x3099, 0x309A), (0xA66F, 0xA672), (0xA67C, 0xA67D), (0xA6F0, 0xA6F1),
   (0xA806, 0xA806), (0xA82C, 0xA82C), (0xA8C4, 0xA8C4), (0xA8E0, 0xA8F1), (0xA92B, 0xA92D),
   (0xA953, 0xA953), (0xA9B3, 0xA9B3), (0xA9C0, 0xA9C0), (0xAABF, 0xAABF), (0xAAC1, 0xAAC1),
   (0xAAF6, 0xAAF6), (0xABEC, 0xABED), (0xFE00, 0xFE0F), (0xFE20, 0xFE2F), (0x101FD, 0x101FD),
   (0x102E0, 0x102E0), (0x10A38, 0x10A3A), (0x10A3F, 0x10A3F), (0x10AE5, 0x10AE6),
   (0x10EFD, 0x10EFF), (0x10F46, 0x10F50), (0x10F82, 0x10F85), (0x11046, 0x11046),
   (0x11070, 0x11070), (0x1107F, 0x1107F), (0x110B9, 0x110BA), (0x11133, 0x11134),
   (0x11173, 0x11173), (0x111C0, 0x111C0), (0x111C9, 0x111CC), (0x11235, 0x11236),
   (0x112E9, 0x112EA), (0x1133B, 0x1133C), (0x1134D, 0x1134D), (0x11366, 0x1136C),
   (0x11370, 0x11374), (0x11442, 0x11442), (0x11446, 0x11446), (0x1145E, 0x1145E),
   (0x114C2, 0x114C3), (0x115BF, 0x115C0), (0x1163F, 0x1163F), (0x116B6, 0x116B7),
   (0x1172B, 0x1172B), (0x11839, 0x1183A), (0x1193D, 0x1193E), (0x11943, 0x11943),
   (0x119E0, 0x119E0), (0x11A33, 0x11A34), (0x11A47, 0x11A47), (0x11A98, 0x11A99),
   (0x11C3F, 0x11C3F), (0x11D42, 0x11D42), (0x11D44, 0x11D45), (0x11D97, 0x11D97),
   (0x11F41, 0x11F42), (0x13440, 0x13440), (0x13447, 0x13455), (0x16AF0, 0x16AF4),
   (0x16B30, 0x16B36), (0x16FE4, 0x16FE4), (0x1BC9D, 0x1BC9D), (0x1CF00, 0x1CF2D),
   (0x1CF30, 0x1CF46), (0x1D165, 0x1D169), (0x1D16D, 0x1D172), (0x1D17B, 0x1D182),
   (0x1D185, 0x1D18B), (0x1D1AA, 0x1D1AD), (0x1D242, 0x1D244), (0x1DA00, 0x1DA36),
   (0x1DA3B, 0x1DA6C), (0x1DA75, 0x1DA75), (0x1DA84, 0x1DA84), (0x1DA9B, 0x1DA9F),
   (0x1DAA1, 0x1DAAF), (0x1E130, 0x1E136), (0x1E2AE, 0x1E2AE), (0x1E2EC, 0x1E2EF),
   (0x1E4EC, 0x1E4EF), (0x1E8D0, 0x1E8D6), (0x1E944, 0x1E946), (0x1E948, 0x1E94A),
   (0xE0100, 0xE01EF)]

/-- Connector punctuation: the underscore and its relatives. -/
def connectorRanges : List (Nat × Nat) :=
  [(0x005F, 0x005F), (0x203F, 0x2040), (0x2054, 0x2054), (0xFE33, 0xFE34), (0xFE4D, 0xFE4F),
    (0xFF3F, 0xFF3F)]

/-- The zero-width joiner and non-joiner. -/
def joinControlRanges : List (Nat × Nat) :=
  [(0x200C, 0x200D)]

/-- A character that patterns count as part of a word. -/
def isWord (c : Char) : Bool :=
  isAlphabetic c || isDecimalDigit c || inRanges connectorRanges c || inRanges markRanges c ||
    inRanges joinControlRanges c

/-- Whether a word starts or ends between two neighbours; the ends of a text are no word. -/
def isBoundary (before after : Option Char) : Bool :=
  before.any isWord != after.any isWord

end TelemetryQuery.Text
