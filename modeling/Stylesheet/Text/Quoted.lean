import Stylesheet.Text.Hidden

/-!
# Quoted text

A quoted text stands between quotes. A backslash goes before the quote in use and before a
backslash; line feed, carriage return, tab and the null character have one-letter forms; a hidden
character is written by its code point in lower-case hexadecimal.

* `Quoted.string`: between double quotes, single ones unchanged.
* `Quoted.character`: between single quotes, double ones unchanged.
-/
namespace Stylesheet.Quoted

/-- The digits of a number in base sixteen, most significant first and none of them superfluous. -/
def hexadecimal (n : Nat) : List Char := Nat.toDigits 16 n

/-- How a character is written between the given quotes. -/
def escape (quote c : Char) : List Char :=
  if c = quote || c = '\\' then ['\\', c]
  else if c = '\n' then ['\\', 'n']
  else if c = '\r' then ['\\', 'r']
  else if c = '\t' then ['\\', 't']
  else if c = '\x00' then ['\\', '0']
  else if isHidden c then ['\\', 'u', '\x7b'] ++ hexadecimal c.toNat ++ ['\x7d']
  else [c]

def string (text : List Char) : String :=
  String.ofList ('"' :: text.flatMap (escape '"') ++ ['"'])

def character (c : Char) : String :=
  String.ofList ('\'' :: escape '\'' c ++ ['\''])

end Stylesheet.Quoted
