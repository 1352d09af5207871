import ClassAbi.Text.Number

/-!
# Time stamps

A moment is a number of microseconds since the start of 1970, shown as the date and time of day in its zone.
-/

namespace ClassAbi.Trace

/-- A moment, and the zone in which it is shown. -/
structure Stamp where
  micros : Int := 0
  /-- Seconds by which the clocks of the zone are ahead. -/
  zone : Int := 0
  deriving Repr, DecidableEq, BEq, Inhabited

structure Date where
  year : Int
  month : Nat
  day : Nat
  deriving Repr, DecidableEq, BEq

/-- The date of a day that is counted from the first day of 1970. Years are counted from March here, so that the leap day
is the last day of a year, and in eras of 400 years, which all have the same number of days. -/
def Date.ofDay (n : Int) : Date :=
  let n := n + 719468
  let era := n.fdiv 146097
  let dayOfEra := (n - era * 146097).toNat
  let year := (dayOfEra - dayOfEra / 1460 + dayOfEra / 36524 - dayOfEra / 146096) / 365
  let dayOfYear := dayOfEra - (365 * year + year / 4 - year / 100)
  let month := (5 * dayOfYear + 2) / 153
  let day := dayOfYear - (153 * month + 2) / 5 + 1
  let late := 10 ≤ month
  { year := year + era * 400 + (if late then 1 else 0), month := if late then month - 9 else month + 3, day }

/-- A number with at least `width` digits, after the minus sign if there is one. -/
def padded (width : Nat) : Int → Text
  | .ofNat n => Text.zeroFill width (Text.ofNat n)
  | .negSucc n => "-" ++ Text.zeroFill width (Text.ofNat (n + 1))

/-- The letter of the zone of Greenwich, or the hours and minutes by which a zone differs from it. -/
def zoneText (zone : Int) : Text :=
  if zone = 0 then "Z"
  else
    let minutes := zone.tdiv 60
    let n := minutes.natAbs
    (if minutes < 0 then "-" else "+" : String) ++ padded 2 (n / 60 : Nat) ++ ":" ++ padded 2 (n % 60 : Nat)

def Stamp.text (s : Stamp) : Text :=
  let seconds := s.micros.fdiv 1000000 + s.zone
  let date := Date.ofDay (seconds.fdiv 86400)
  let time := seconds.fmod 86400
  padded 4 date.year ++ "-" ++ padded 2 date.month ++ "-" ++ padded 2 date.day ++ "T" ++
    padded 2 (time / 3600) ++ ":" ++ padded 2 (time / 60 % 60) ++ ":" ++ padded 2 (time % 60) ++ "." ++
    padded 6 (s.micros.fmod 1000000) ++ zoneText s.zone

end ClassAbi.Trace
