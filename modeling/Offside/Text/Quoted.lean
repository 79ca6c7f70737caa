/-! Quoted text, as lines of a program are shown in the log: between double quotes, with the
characters that would not show as themselves written as escapes. -/

namespace Offside.Text

def escapeChar (c : Char) : List Char :=
  if c = '"' then ['\\', '"']
  else if c = '\\' then ['\\', '\\']
  else if c = '\t' then ['\\', 't']
  else if c = '\n' then ['\\', 'n']
  else if c = '\r' then ['\\', 'r']
  else if c = '\x00' then ['\\', '0']
  else if c.toNat < 0x20 || c.toNat = 0x7F then
    ['\\', 'u', '\x7b'] ++ Nat.toDigits 16 c.toNat ++ ['\x7d']
  else [c]

def quoted (text : List Char) : String :=
  String.ofList ('"' :: text.flatMap escapeChar ++ ['"'])

end Offside.Text
