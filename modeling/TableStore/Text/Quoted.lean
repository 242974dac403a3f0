import TableStore.Text.Combining
import TableStore.Text.Unprintable

/-!
# Quoted text

Messages quote text that comes from outside, so that its ends and its invisible characters show.
`quoted s` stands in double quotes; a quote and a backslash follow a backslash, line feed,
carriage return, tab and the zero character have their letters, and every other combining or
unprintable character is written as its code point in hexadecimal.
-/

set_option autoImplicit false
namespace TableStore
namespace Text

/-- How a character is written between the quotes. -/
def quotedChar (c : Char) : List Char :=
  if c = '"' then ['\\', '"']
  else if c = '\\' then ['\\', '\\']
  else if c = '\n' then ['\\', 'n']
  else if c = '\r' then ['\\', 'r']
  else if c = '\t' then ['\\', 't']
  else if c = '\x00' then ['\\', '0']
  else if isCombining c || isUnprintable c then
    ['\\', 'u', '{'] ++ Nat.toDigits 16 c.toNat ++ ['}']
  else [c]

/-- A text in double quotes. -/
def quoted (s : String) : String :=
  String.ofList ('"' :: s.toList.flatMap quotedChar ++ ['"'])

end Text
end TableStore
