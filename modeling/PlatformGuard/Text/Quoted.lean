import PlatformGuard.Bytes
import PlatformGuard.Text.Shown

/-!
# Quoted texts in messages
-/

namespace PlatformGuard.Text

/-- The digits of a number in base 16, in lower case and without leading zeros. -/
def hexDigits (n : Nat) : List Char :=
  if n < 16 then [Bytes.digitChar n] else hexDigits (n / 16) ++ [Bytes.digitChar (n % 16)]
termination_by n

/-- A character inside quotes: quotes, backslashes and what is not shown as itself are escaped. -/
def quoteChar (c : Char) : List Char :=
  if c = '"' then ['\\', '"']
  else if c = '\\' then ['\\', '\\']
  else if c = '\n' then ['\\', 'n']
  else if c = '\r' then ['\\', 'r']
  else if c = '\t' then ['\\', 't']
  else if c.toNat = 0 then ['\\', '0']
  else if isShown c then [c]
  else '\\' :: 'u' :: '\x7b' :: hexDigits c.toNat ++ ['\x7d']

/-- A text between quotes. -/
def quoted (s : List Char) : String := String.ofList ('"' :: s.flatMap quoteChar ++ ['"'])

end PlatformGuard.Text
