import Skweltch.Config.Json

/-!
# Skweltch — writing JSON

`JsonObject::write` without pretty printing, over the generator of `json_spirit`
(`json_spirit_writer_template.h`) with `remove_trailing_zeros`. The text of a real is what
`output(double)` prints for it and is given by `real`.
-/

namespace Skweltch

open NumText

namespace JsonWriter

/-- `to_hex_char`. -/
def toHexChar (c : Nat) : Char :=
  if c < 10 then Char.ofNat ('0'.toNat + c) else Char.ofNat ('A'.toNat - 10 + c)

/-- `non_printable_to_string`. -/
def nonPrintable (c : Nat) : Str :=
  ['\\', 'u', toHexChar (c / 4096 % 16), toHexChar (c / 256 % 16), toHexChar (c / 16 % 16),
    toHexChar (c % 16)]

/-- `add_esc_chars` on one byte. -/
def escape (c : Char) : Str :=
  if c = '"' then ['\\', '"']
  else if c = '\\' then ['\\', '\\']
  else if c = '\x08' then ['\\', 'b']
  else if c = '\x0c' then ['\\', 'f']
  else if c = '\n' then ['\\', 'n']
  else if c = '\r' then ['\\', 'r']
  else if c = '\t' then ['\\', 't']
  -- `iswprint` of the C locale
  else if 32 ≤ c.toNat ∧ c.toNat < 127 then [c]
  else nonPrintable c.toNat

def quoted (s : Str) : Str := '"' :: s.flatMap escape ++ ['"']

variable (real : ℚ → Str)

mutual

/-- `Generator::output`. -/
def output : Json → Str
  | .obj o => '{' :: outputMembers o ++ ['}']
  | .arr es => '[' :: outputElements es ++ [']']
  | .str s => quoted s
  | .bool b => if b then "true".toList else "false".toList
  | .int n => decText n
  | .real q => real q
  | .null => "null".toList

def outputMembers : List (Str × Json) → Str
  | [] => []
  | [p] => outputMember p
  | p :: q :: o => outputMember p ++ ',' :: outputMembers (q :: o)

def outputMember : Str × Json → Str
  | (name, v) => quoted name ++ ':' :: output v

def outputElements : List Json → Str
  | [] => []
  | [v] => output v
  | v :: w :: es => output v ++ ',' :: outputElements (w :: es)

end

end JsonWriter

/-- `JsonObject::write`: null is written as an empty object. -/
def JsonObject.write (real : ℚ → Str) (v : Json) : Str :=
  if v.isNull then "{}".toList else JsonWriter.output real v

end Skweltch
