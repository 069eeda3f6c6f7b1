import EntityClasses.Text.Hidden

/-! A text in double quotes, as messages show it: on one line, with escapes for all that cannot be
seen. -/

namespace EntityClasses.Text

def escaped (c : Char) : List Char :=
  if c = '"' then ['\\', '"']
  else if c = '\\' then ['\\', '\\']
  else if c = '\n' then ['\\', 'n']
  else if c = '\r' then ['\\', 'r']
  else if c = '\t' then ['\\', 't']
  else if c = '\x00' then ['\\', '0']
  else if isHidden c then ['\\', 'u', '\x7b'] ++ Nat.toDigits 16 c.toNat ++ ['\x7d']
  else [c]

def quoted (text : String) : String :=
  "\"" ++ String.ofList (text.toList.flatMap escaped) ++ "\""

end EntityClasses.Text
