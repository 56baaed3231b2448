import ApprovalFlow.Text.Digits
import ApprovalFlow.Text.Printable

/-!
# Quoted text

A text between quotes, as messages and descriptions show it. The quotes are single unless the text
holds a single quote and no double one. The quote and the backslash are escaped, and so is every
character that is not printable: by a letter for tab, line feed and carriage return, else by its code
in two, four or eight hexadecimal digits.
-/

namespace ApprovalFlow.Text

def quoteFor (cs : List Char) : Char :=
  if cs.contains '\'' && !cs.contains '"' then '"' else '\''

def quotedChar (quote c : Char) : List Char :=
  if c == quote || c == '\\' then ['\\', c]
  else if c == '\t' then ['\\', 't']
  else if c == '\n' then ['\\', 'n']
  else if c == '\r' then ['\\', 'r']
  else if isPrintable c then [c]
  else if c.toNat < 0x100 then '\\' :: 'x' :: hex 2 c.toNat
  else if c.toNat < 0x10000 then '\\' :: 'u' :: hex 4 c.toNat
  else '\\' :: 'U' :: hex 8 c.toNat

def quoted (s : String) : String :=
  let cs := s.toList
  let quote := quoteFor cs
  String.ofList (quote :: cs.flatMap (quotedChar quote) ++ [quote])

end ApprovalFlow.Text
