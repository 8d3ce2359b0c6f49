import Yanta.Go.Strings

/-!
# Journal files

What the index reads of `internal/journal/journal.go`: the entries of a daily
journal file and the check on the date that names it. The file's own metadata
and the time of an entry are not read by the index and are left out.
-/

namespace Yanta.Journal

structure JournalEntry where
  id : String
  content : String
  tags : List String
  deleted : Bool
deriving DecidableEq, Repr

structure JournalFile where
  entries : List JournalEntry
deriving DecidableEq, Repr

def isDigit (c : Char) : Bool := '0' ≤ c && c ≤ '9'

def numberOf (digits : List Char) : Nat :=
  digits.foldl (fun n c => 10 * n + (c.toNat - 48)) 0

def isLeap (year : Nat) : Bool :=
  year % 4 == 0 && (year % 100 != 0 || year % 400 == 0)

def daysIn (month year : Nat) : Nat :=
  if month == 2 then if isLeap year then 29 else 28
  else if month == 4 || month == 6 || month == 9 || month == 11 then 30
  else 31

/-- `time.Parse("2006-01-02", _)` succeeds. -/
def parsesDate (date : String) : Bool :=
  match date.toList with
  | [y1, y2, y3, y4, '-', m1, m2, '-', d1, d2] =>
    let year := numberOf [y1, y2, y3, y4]
    let month := numberOf [m1, m2]
    let day := numberOf [d1, d2]
    [y1, y2, y3, y4, m1, m2, d1, d2].all isDigit && 1 ≤ month && month ≤ 12 &&
      1 ≤ day && day ≤ daysIn month year
  | _ => false

def validateDate (date : String) : Except String Unit :=
  if date = "" then .error "date cannot be empty"
  else if parsesDate date then .ok ()
  else .error ("invalid date format (expected YYYY-MM-DD): " ++ date)

end Yanta.Journal
