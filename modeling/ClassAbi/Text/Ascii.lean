/-!
# ASCII characters by name

The punctuation and letters that the formats of this library give a meaning to.
-/

namespace ClassAbi.Ascii

@[match_pattern] abbrev tab : UInt8 := 0x09
@[match_pattern] abbrev newline : UInt8 := 0x0A
@[match_pattern] abbrev blank : UInt8 := 0x20
@[match_pattern] abbrev dollar : UInt8 := 0x24
@[match_pattern] abbrev openParen : UInt8 := 0x28
@[match_pattern] abbrev closeParen : UInt8 := 0x29
@[match_pattern] abbrev minus : UInt8 := 0x2D
@[match_pattern] abbrev dot : UInt8 := 0x2E
@[match_pattern] abbrev slash : UInt8 := 0x2F
@[match_pattern] abbrev semicolon : UInt8 := 0x3B
@[match_pattern] abbrev upperE : UInt8 := 0x45
@[match_pattern] abbrev upperL : UInt8 := 0x4C
@[match_pattern] abbrev upperU : UInt8 := 0x55
@[match_pattern] abbrev upperV : UInt8 := 0x56
@[match_pattern] abbrev openBracket : UInt8 := 0x5B
@[match_pattern] abbrev underscore : UInt8 := 0x5F

def isDigit (b : UInt8) : Bool := 0x30 ≤ b && b ≤ 0x39

end ClassAbi.Ascii
