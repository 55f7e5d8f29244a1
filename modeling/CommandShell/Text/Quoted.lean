import CommandShell.Text.Printable

namespace CommandShell.Text

-- Lower-case hexadecimal digits of a number without leading zeros.
def hexDigits (n : Nat) : List Char :=
  Nat.toDigits 16 n

def quoteChar (c : Char) : List Char :=
  match c with
  | '"' => ['\\', '"']
  | '\\' => ['\\', '\\']
  | '\n' => ['\\', 'n']
  | '\r' => ['\\', 'r']
  | '\t' => ['\\', 't']
  | '\x00' => ['\\', '0']
  | c => if isPrintable c then [c] else ['\\', 'u', '\x7b'] ++ hexDigits c.toNat ++ ['\x7d']

-- A text between double quotes as messages show it: quotes, backslashes and whatever would not
-- show as itself are escaped.
def quoted (s : String) : String :=
  String.ofList ('"' :: s.toList.flatMap quoteChar ++ ['"'])

-- A byte that belongs to no character, as two upper-case hexadecimal digits.
def quoteByte (byte : UInt8) : List Char :=
  '\\' :: 'x' :: (Nat.toDigits 16 (byte.toNat / 16) ++
    Nat.toDigits 16 (byte.toNat % 16)).map Char.toUpper

end CommandShell.Text
