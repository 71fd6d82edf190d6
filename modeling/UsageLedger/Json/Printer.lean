import UsageLedger.Text.Digits
import UsageLedger.Text.Quoted

/-! Writing JSON strings: quotes, backslashes and control characters are escaped, all else stands for
itself. -/

namespace UsageLedger.Json

/-- How a character is written inside a string. -/
def printChar (c : Char) : List Char :=
  if c = '"' ∨ c = '\\' then ['\\', c]
  else if c = '\x08' then ['\\', 'b']
  else if c = '\x0c' then ['\\', 'f']
  else if c = '\n' then ['\\', 'n']
  else if c = '\r' then ['\\', 'r']
  else if c = '\t' then ['\\', 't']
  else if c.toNat < 32 then
    ['\\', 'u', '0', '0', Text.hexChar (c.toNat / 16), Text.hexChar (c.toNat % 16)]
  else [c]

/-- A text as a JSON string. -/
def printText (cs : List Char) : List Char := '"' :: cs.flatMap printChar ++ ['"']

end UsageLedger.Json
