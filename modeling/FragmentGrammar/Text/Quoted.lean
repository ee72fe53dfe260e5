import FragmentGrammar.Text.Hidden

/-! # Quoted characters and strings

    Labels are written with their characters between single quotes and their strings
    between double quotes.  Inside, a backslash, the surrounding quote, the four
    controls with a letter of their own and every hidden character are escaped; all
    other characters stand for themselves, the other kind of quote included. -/

namespace FragmentGrammar

/-- The hexadecimal digits of `n`, lower case, without leading zeros. -/
def hexadecimal (n : Nat) : String :=
  String.ofList (Nat.toDigits 16 n)

/-- How `c` is written between two quotes of the kind `quote`. -/
def escaped (quote c : Char) : String :=
  if c = '\x00' then "\\0"
  else if c = '\t' then "\\t"
  else if c = '\n' then "\\n"
  else if c = '\r' then "\\r"
  else if c = '\\' then "\\\\"
  else if c = quote then "\\" ++ quote.toString
  else if isHidden c then "\\u\x7b" ++ hexadecimal c.toNat ++ "\x7d"
  else c.toString

/-- A character between single quotes. -/
def quotedChar (c : Char) : String :=
  "'" ++ escaped '\x27' c ++ "'"

/-- A string between double quotes. -/
def quotedString (s : String) : String :=
  "\x22" ++ String.join (s.toList.map (escaped '\x22')) ++ "\x22"

end FragmentGrammar
