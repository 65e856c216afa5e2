/-!
# Calendar dates

Seconds since the start of 1970 (UTC) as `YYYY-MM-DD hh:mm:ss`. Days become dates by counting
in 400-year eras of 146097 days that start on the first of March, so that the leap day falls at
the end of each counted year.
-/

namespace ScriptMachine.Text

/-- The year, month and day of a day counted from 1970-01-01. -/
def civilDate (days : Nat) : Nat × Nat × Nat :=
  let z := days + 719468
  let era := z / 146097
  let doe := z - era * 146097
  let yoe := (doe - doe / 1460 + doe / 36524 - doe / 146096) / 365
  let doy := doe - (365 * yoe + yoe / 4 - yoe / 100)
  let mp := (5 * doy + 2) / 153
  let d := doy - (153 * mp + 2) / 5 + 1
  let m := if mp < 10 then mp + 3 else mp - 9
  let y := yoe + era * 400 + (if m ≤ 2 then 1 else 0)
  (y, m, d)

def zeroPadded (width n : Nat) : String :=
  let s := toString n
  String.ofList (List.replicate (width - s.length) '0') ++ s

def dateTimeText (seconds : Nat) : String :=
  let (y, m, d) := civilDate (seconds / 86400)
  let t := seconds % 86400
  zeroPadded 4 y ++ "-" ++ zeroPadded 2 m ++ "-" ++ zeroPadded 2 d ++ " " ++
    zeroPadded 2 (t / 3600) ++ ":" ++ zeroPadded 2 (t / 60 % 60) ++ ":" ++ zeroPadded 2 (t % 60)

end ScriptMachine.Text
