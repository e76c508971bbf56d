/-!
Moments of the civil calendar, in universal time, as names of directories hold them.
-/

namespace NodeLogs

/-- A moment in whole seconds since the beginning of 1970. -/
structure Moment where
  seconds : Nat
deriving Repr, DecidableEq

namespace Moment

structure Date where
  year : Nat
  month : Nat
  day : Nat
deriving Repr, DecidableEq

/-- The date so many days after the first of March of the year 0. The calendar repeats itself every
400 years; counted from March, the leap day is the last of its year. -/
def dateAfter (days : Nat) : Date :=
  let inCycle := days % 146097
  let year := (inCycle - inCycle / 1460 + inCycle / 36524 - inCycle / 146096) / 365
  let inYear := inCycle - (365 * year + year / 4 - year / 100)
  let month := (5 * inYear + 2) / 153
  { year := days / 146097 * 400 + year + (if month < 10 then 0 else 1)
    month := if month < 10 then month + 3 else month - 9
    day := inYear - (153 * month + 2) / 5 + 1 }

def date (m : Moment) : Date := dateAfter (m.seconds / 86400 + 719468)

/-- A number with zeros before it, up to a width. -/
def padded (width n : Nat) : String :=
  String.ofList (List.replicate (width - n.repr.length) '0') ++ n.repr

/-- Date and time of day, each as one number of a fixed width. -/
def text (m : Moment) : String :=
  let d := m.date
  let s := m.seconds % 86400
  padded 4 d.year ++ padded 2 d.month ++ padded 2 d.day ++ "-" ++
    padded 2 (s / 3600) ++ padded 2 (s / 60 % 60) ++ padded 2 (s % 60)

example : (Moment.mk 951782400).text = "20000229-000000" := by decide +kernel

end Moment

end NodeLogs
