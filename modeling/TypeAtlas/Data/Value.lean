import TypeAtlas.Data.Calendar
import TypeAtlas.Decimal.Double
import TypeAtlas.Text.Numeral
import TypeAtlas.Text.Quoted

namespace TypeAtlas

/-- A value that a configuration can give to a key. Tables keep the order of their entries. -/
inductive Data
  | null
  | bool (b : Bool)
  | integer (n : Int)
  | real (x : Decimal.Double)
  | text (s : Text)
  | date (d : Date)
  | time (t : TimeOfDay)
  | moment (m : Moment)
  | list (items : List Data)
  | table (entries : List (Text × Data))
  deriving Repr, Inhabited

namespace Data

mutual

/-- How a value is shown in a report. One that holds an integer with too many digits cannot be
shown. -/
def quoted? : Data → Option Text
  | .null => some "None"
  | .bool true => some "True"
  | .bool false => some "False"
  | .integer n => Text.ofInt? n
  | .real x => some x.text
  | .text s => some (Text.quoted s)
  | .date d => some d.quoted
  | .time t => some t.quoted
  | .moment m => some m.quoted
  | .list items => do return "[" ++ Text.join ", " (← quotedItems? items) ++ "]"
  | .table entries => do return "\x7b" ++ Text.join ", " (← quotedEntries? entries) ++ "\x7d"

def quotedItems? : List Data → Option (List Text)
  | [] => some []
  | d :: ds => do return (← quoted? d) :: (← quotedItems? ds)

def quotedEntries? : List (Text × Data) → Option (List Text)
  | [] => some []
  | (k, d) :: es => do return (Text.quoted k ++ ": " ++ (← quoted? d)) :: (← quotedEntries? es)

end

/-- The value of an entry of a table. -/
def lookup (entries : List (Text × Data)) (key : Text) : Option Data :=
  (entries.find? (·.1 == key)).map (·.2)

end Data

end TypeAtlas
