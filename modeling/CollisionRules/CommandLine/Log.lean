import CollisionRules.Event

namespace CollisionRules.CommandLine

/-- A library that reads which events a log is to show. -/
class LogReader where
  /-- The events that a text asks for, unless a part of it cannot be read. -/
  read? (text : String) : Option (Event → Bool)
  /-- The events that the parts of a text ask for that can be read. -/
  readParts (text : String) : Event → Bool

/-- A character of a message as the log shows it. Controls that could drive a
    terminal are shown by their number. -/
def shown (c : Char) : List Char :=
  let n := c.toNat
  let digits := Nat.toDigits 16 n
  if n == 0x1B || n == 0x07 || n == 0x08 || n == 0x0C || n == 0x7F then
    '\\' :: 'x' :: (if n < 0x10 then '0' :: digits else digits)
  else if 0x80 ≤ n && n ≤ 0x9F then ['\\', 'u', '\x7b'] ++ digits ++ ['\x7d']
  else [c]

def levelName : Level → String
  | .info => "INFO"
  | .warn => "WARN"

/-- The line that shows an event: its level, its message and its fields. -/
def logLine (event : Event) : String :=
  let message := String.ofList (event.message.toList.flatMap shown)
  let fields := event.fields.map fun (name, value) => s!" {name}={value.render}"
  s!"{levelName event.level} {message}" ++ String.join fields

/-- The lines that show the events of a run that pass a filter. -/
def logLines (filter : Event → Bool) (events : List Event) : List String :=
  (events.filter filter).map logLine

end CollisionRules.CommandLine
