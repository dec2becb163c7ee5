import Formulary.Number.Numeral
import Formulary.Toml.Scan
/-!
# Dates and times of TOML

A moment is a date, a time, or a date and a time, in the last case perhaps with a distance from the
standard time. Only its form counts here, to which it belongs that there is such a day.
-/

namespace Formulary.Toml

/-- How many days a month has. -/
def daysIn (year month : Nat) : Nat :=
  if month = 2 then
    if year % 4 = 0 && (year % 100 ≠ 0 || year % 400 = 0) then 29 else 28
  else if month = 4 || month = 6 || month = 9 || month = 11 then 30
  else 31

namespace Scan

/-- Takes a count of digits. -/
def fixedDigits (count : Nat) : Scan Nat :=
  checked (upTo count Char.isDigit) fun ds =>
    if ds.length = count then some (digitsValue ds) else none

/-- Takes two digits whose number lies between two others. -/
def twoDigits (least greatest : Nat) : Scan Nat :=
  checked (fixedDigits 2) fun n => if least ≤ n && n ≤ greatest then some n else none

/-- Takes a date. -/
def date : Scan Unit := do
  let year ← fixedDigits 4
  char '-'
  required do
    let month ← twoDigits 1 12
    char '-'
    discard <| checked (twoDigits 1 31) fun day =>
      if day ≤ daysIn year month then some day else none

/-- Takes hours and minutes. -/
def hourAndMinute : Scan Unit := do
  discard <| twoDigits 0 23
  char ':'
  discard <| twoDigits 0 59

/-- Takes a time. -/
def time : Scan Unit := do
  discard <| twoDigits 0 23
  char ':'
  required do
    discard <| twoDigits 0 59
    char ':'
    discard <| twoDigits 0 60
    discard <| optional do
      char '.'
      run₁ Char.isDigit

/-- Takes a distance from the standard time. -/
def offset : Scan Unit :=
  orElse (discard <| one fun c => c = 'Z' || c = 'z') do
    discard <| one fun c => c = '+' || c = '-'
    required hourAndMinute

/-- Takes a moment. -/
def moment : Scan Unit :=
  orElse
    (do
      date
      discard <| optional do
        discard <| one fun c => c = 'T' || c = 't' || c = ' '
        time
        optional offset)
    time

end Scan

end Formulary.Toml
