import ClassAbi.Text.Number

/-!
# Durations

Spans of time in nanoseconds, written in the largest unit that fits, or as milliseconds in a table.
-/

namespace ClassAbi.Text

/-- A number of units with a fraction of `digits` digits, of which zeros at the end are left out. -/
def withFraction (digits : Nat) (n : Nat) : Text :=
  let fraction := ((zeroFill digits (ofNat (n % Nat.pow 10 digits))).reverse.dropWhile (· = 0x30)).reverse
  ofNat (n / Nat.pow 10 digits) ++ onlyIf (!fraction.isEmpty) ("." ++ fraction)

def ofDuration (ns : Int) : Text :=
  let us := (ns.natAbs + 500) / 1000
  let sign := onlyIf (ns < 0 && us != 0) "-"
  let minutes := us / 60000000
  sign ++
    if us = 0 then Text.ofString "0s"
    else if us < 1000 then ofNat us ++ "µs"
    else if us < 1000000 then withFraction 3 us ++ "ms"
    else
      onlyIf (60 ≤ minutes) (ofNat (minutes / 60) ++ "h") ++ onlyIf (1 ≤ minutes) (ofNat (minutes % 60) ++ "m") ++
        withFraction 6 (us % 60000000) ++ "s"

def ofMilliseconds (ns : Int) : Text :=
  let us := (ns.natAbs + 500) / 1000
  let body := onlyIf (ns < 0) "-" ++ ofNat (us / 1000) ++ "." ++ zeroFill 3 (ofNat (us % 1000))
  List.replicate (9 - body.length) 0x20 ++ body

end ClassAbi.Text
