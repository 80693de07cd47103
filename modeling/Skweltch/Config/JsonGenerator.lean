import Skweltch.Config.JsonWriter

/-!
# Skweltch — the generator of JSON

`Generator` (`json_spirit_writer_template.h`), which writes a value on one line or over many. The
options of `JsonObject::write` are put together with `||`, so that both flags are lost when it is to
be pretty, and only `pretty_print` is left of them. Without it the generator writes what
`JsonWriter.output` does (`output_compact`).
-/

namespace Skweltch

open NumText

/-- `Generator`, with the text that it has for a real. -/
structure Generator where
  pretty : Bool
  real : ℚ → Str

namespace Generator

variable (g : Generator)

def newLine : Str := if g.pretty then ['\n'] else []

def space : Str := if g.pretty then [' '] else []

def indent (level : ℕ) : Str :=
  if g.pretty then (List.replicate level "    ".toList).flatten else []

/-- What is behind an item of an object or an array. -/
def separator {α : Type} (more : List α) : Str := if more.isEmpty then [] else [',']

mutual

/-- `Generator::output`, at an indentation level. -/
def output (level : ℕ) : Json → Str
  | .obj o => '{' :: (g.newLine ++ outputMembers (level + 1) o) ++ (g.indent level ++ ['}'])
  | .arr es => '[' :: (g.newLine ++ outputElements (level + 1) es) ++ (g.indent level ++ [']'])
  | .str s => JsonWriter.quoted s
  | .bool b => if b then "true".toList else "false".toList
  | .int n => decText n
  | .real q => g.real q
  | .null => "null".toList

def outputMembers (level : ℕ) : List (Str × Json) → Str
  | [] => []
  | p :: o => g.indent level ++
      (outputMember level p ++ (separator o ++ (g.newLine ++ outputMembers level o)))

def outputMember (level : ℕ) : Str × Json → Str
  | (name, v) => JsonWriter.quoted name ++ (g.space ++ ':' :: (g.space ++ output level v))

def outputElements (level : ℕ) : List Json → Str
  | [] => []
  | v :: es => g.indent level ++
      (output level v ++ (separator es ++ (g.newLine ++ outputElements level es)))

end

end Generator

/-- `JsonObject::write` with pretty printing: `pretty_print || remove_trailing_zeros` is one, which
is `pretty_print`. -/
def JsonObject.writePretty (real : ℚ → Str) (v : Json) : Str :=
  if v.isNull then "{}".toList else ({ pretty := true, real := real } : Generator).output 0 v

namespace Generator

/-! ## On one line

With neither line ends nor indentation the generator is the writer, at every level. -/

section Compact

variable (real : ℚ → Str)

/-- The generator of `JsonObject::write` without pretty printing. -/
abbrev compact : Generator := { pretty := false, real := real }

mutual

/-- The compact generator writes as the writer does, at every level. -/
theorem output_compact : (level : ℕ) → (v : Json) →
    (compact real).output level v = JsonWriter.output real v
  | level, .obj o => by
    rw [output, JsonWriter.output, outputMembers_compact]
    simp [newLine, indent]
  | level, .arr es => by
    rw [output, JsonWriter.output, outputElements_compact]
    simp [newLine, indent]
  | _, .str s => by rw [output, JsonWriter.output]
  | _, .bool b => by rw [output, JsonWriter.output]
  | _, .int n => by rw [output, JsonWriter.output]
  | _, .real q => by rw [output, JsonWriter.output]
  | _, .null => by rw [output, JsonWriter.output]

/-- The members of an object are written as by the writer. -/
theorem outputMembers_compact : (level : ℕ) → (o : List (Str × Json)) →
    (compact real).outputMembers level o = JsonWriter.outputMembers real o
  | _, [] => by rw [outputMembers, JsonWriter.outputMembers]
  | level, [p] => by
    rw [outputMembers, outputMembers, JsonWriter.outputMembers, outputMember_compact]
    simp [newLine, indent, separator]
  | level, p :: q :: o => by
    rw [outputMembers, outputMember_compact, outputMembers_compact, JsonWriter.outputMembers]
    simp [newLine, indent, separator]

theorem outputMember_compact : (level : ℕ) → (p : Str × Json) →
    (compact real).outputMember level p = JsonWriter.outputMember real p
  | level, (name, v) => by
    rw [outputMember, JsonWriter.outputMember, output_compact]
    simp [space]

/-- The elements of an array are written as by the writer, by induction on them. -/
theorem outputElements_compact : (level : ℕ) → (es : List Json) →
    (compact real).outputElements level es = JsonWriter.outputElements real es
  | _, [] => by rw [outputElements, JsonWriter.outputElements]
  | level, [v] => by
    rw [outputElements, outputElements, JsonWriter.outputElements, output_compact]
    simp [newLine, indent, separator]
  | level, v :: w :: es => by
    rw [outputElements, output_compact, outputElements_compact, JsonWriter.outputElements]
    simp [newLine, indent, separator]

end

theorem write_eq (v : Json) :
    JsonObject.write real v =
      if v.isNull then "{}".toList else (compact real).output 0 v := by
  rw [JsonObject.write, output_compact]

end Compact

end Generator

end Skweltch
