/-!
# Reports

What a command has found out is a report: named values, which are printed as a JSON text with one
value to a line and the names in order.
-/

namespace RoadTraffic

/-- A value of a report. -/
inductive Report where
  | null
  | bool (b : Bool)
  | number (n : Nat)
  | text (text : String)
  | record (fields : List (String × Report))
  deriving Repr

namespace Report

/-- The hexadecimal digit of `n`, a number below 16. -/
def hexDigit (n : Nat) : Char := Char.ofNat (if n < 10 then 48 + n else 87 + n)

/-- The character `c` inside a JSON string. -/
def escape (c : Char) : List Char :=
  match c with
  | '"' => ['\\', '"']
  | '\\' => ['\\', '\\']
  | '\x08' => ['\\', 'b']
  | '\x0c' => ['\\', 'f']
  | '\n' => ['\\', 'n']
  | '\r' => ['\\', 'r']
  | '\t' => ['\\', 't']
  | c =>
    if c.toNat < 32 then ['\\', 'u', '0', '0', hexDigit (c.toNat / 16), hexDigit (c.toNat % 16)]
    else [c]

/-- The `text` as a JSON string. -/
def quote (text : String) : String :=
  "\"" ++ String.ofList (text.toList.flatMap escape) ++ "\""

/-- Two spaces for each `level`. -/
def indentation (level : Nat) : String := String.ofList (List.replicate (2 * level) ' ')

/-- The `lines` in the order of the names they belong to. -/
def inOrder (lines : List (String × String)) : List String :=
  (lines.mergeSort fun a b => a.1 ≤ b.1).map Prod.snd

/-- A record with the given lines, one below the other and closed at its `level`. -/
def enclose (level : Nat) : List String → String
  | [] => "\x7b\x7d"
  | lines => "\x7b\n" ++ ",\n".intercalate lines ++ "\n" ++ indentation level ++ "\x7d"

mutual

/-- The text of a value at the given `level`. -/
def renderAt (level : Nat) : Report → String
  | null => "null"
  | bool b => if b then "true" else "false"
  | number n => toString n
  | text t => quote t
  | record fields => enclose level (inOrder (linesAt (level + 1) fields))

/-- The names of `fields`, and their lines at the given `level`. -/
def linesAt (level : Nat) : List (String × Report) → List (String × String)
  | [] => []
  | (name, value) :: fields =>
    (name, indentation level ++ quote name ++ ": " ++ renderAt level value) ::
      linesAt level fields

end

/-- The text of a report, with a line end after it. -/
def render (report : Report) : String := report.renderAt 0 ++ "\n"

end Report

end RoadTraffic
