import Skweltch.Config.JsonGenerator
import Skweltch.Config.JsonScanner

/-!
# Skweltch — JSON that is written is read back

What the generator writes, on one line or over many, is read back by `JsonObject::read` as the value
that was written (`read_write`); a real is read back if its text is (`Kept`).

The grammar performs the actions of a value (`actsOf`) on its text and goes on behind it
(`value_output`), and the actions of a value put it where the value is built that it belongs to
(`foldl_actsOf`).
-/

namespace Skweltch

open ActionParser NumText Subtrees

/-! ## Values that can be held

Strings and integers of any kind are read back. Reals are written by a stream, of which it is
assumed that the text is read as the same number. -/

/-- The text of a real is read back. -/
def Kept (L : Scanner) (real : ℚ → Str) (q : ℚ) : Prop :=
  (∃ c s, real q = c :: s ∧ startsNumber c = true) ∧
    ∀ rest, Delimited rest → L.real (real q ++ rest) = some (q, rest)

mutual

/-- A value that a `json_spirit::Value` can hold, and whose reals are as they should be. -/
def Held (P : ℚ → Prop) : Json → Prop
  | .obj o => HeldMembers P o
  | .arr es => HeldElements P es
  | .str s => ∀ c ∈ s, c.toNat < 256
  | .int n => -2 ^ 63 ≤ n ∧ n < 2 ^ 64
  | .real q => P q
  | .bool _ => True
  | .null => True

def HeldMembers (P : ℚ → Prop) : List (Str × Json) → Prop
  | [] => True
  | (name, v) :: o => (∀ c ∈ name, c.toNat < 256) ∧ Held P v ∧ HeldMembers P o

def HeldElements (P : ℚ → Prop) : List Json → Prop
  | [] => True
  | v :: es => Held P v ∧ HeldElements P es

end

/-! ## Strings

The writer escapes what the reader unescapes, character by character. No escape is a quote, so that
a string ends where it should. -/

namespace JsonString

open JsonWriter

theorem hexToNum_toHexChar {n : ℕ} (h : n < 16) : hexToNum (toHexChar n) = n := by
  have hall : ∀ m : Fin 16, hexToNum (toHexChar m) = m.val := by decide
  exact hall ⟨n, h⟩

theorem toHexChar_plain {n : ℕ} (h : n < 16) : toHexChar n ≠ '"' ∧ toHexChar n ≠ '\\' := by
  have hall : ∀ m : Fin 16, toHexChar m ≠ '"' ∧ toHexChar m ≠ '\\' := by decide
  exact hall ⟨n, h⟩

/-- How a character is written: as itself, with a letter behind a backslash, or as a number. -/
theorem escape_cases (c : Char) :
    (c ≠ '"' ∧ c ≠ '\\' ∧ escape c = [c]) ∨
    (∃ d ∈ ['"', '\\', 'b', 'f', 'n', 'r', 't'], escape c = ['\\', d] ∧ escChar d = [c]) ∨
    escape c = nonPrintable c.toNat := by
  unfold escape
  split_ifs with hquote hback hb hf hn hr ht hprint
  · exact Or.inr (Or.inl ⟨'"', by decide, rfl, by rw [hquote]; rfl⟩)
  · exact Or.inr (Or.inl ⟨'\\', by decide, rfl, by rw [hback]; rfl⟩)
  · exact Or.inr (Or.inl ⟨'b', by decide, rfl, by rw [hb]; rfl⟩)
  · exact Or.inr (Or.inl ⟨'f', by decide, rfl, by rw [hf]; rfl⟩)
  · exact Or.inr (Or.inl ⟨'n', by decide, rfl, by rw [hn]; rfl⟩)
  · exact Or.inr (Or.inl ⟨'r', by decide, rfl, by rw [hr]; rfl⟩)
  · exact Or.inr (Or.inl ⟨'t', by decide, rfl, by rw [ht]; rfl⟩)
  · exact Or.inl ⟨hquote, hback, rfl⟩
  · exact Or.inr (Or.inr rfl)

/-- What the writer makes of one character does not end the string, whatever lexeme follows. -/
theorem lexeme_escape (c : Char) {t : Str} (ht : Lexeme t) : Lexeme (escape c ++ t) := by
  have hmod : ∀ n : ℕ, n % 16 < 16 := fun n => Nat.mod_lt n (by decide)
  rcases escape_cases c with ⟨hquote, hback, heq⟩ | ⟨d, hd, heq, -⟩ | heq
  · rw [heq]
    exact .plain c ⟨hquote, hback⟩ ht
  · rw [heq]
    have hsub : ∀ d ∈ ['"', '\\', 'b', 'f', 'n', 'r', 't'],
        d ∈ ['"', '\\', '/', 'b', 'f', 'n', 'r', 't', 'u'] := by simp
    exact .escaped d (hsub d hd) ht
  · rw [heq]
    refine .escaped 'u' (by decide) ?_
    exact .plain _ (toHexChar_plain (hmod _)) (.plain _ (toHexChar_plain (hmod _))
      (.plain _ (toHexChar_plain (hmod _)) (.plain _ (toHexChar_plain (hmod _)) ht)))

theorem lexeme_flatMap (s : Str) : Lexeme (s.flatMap escape) := by
  induction s with
  | nil => exact .nil
  | cons c s ih => exact lexeme_escape c ih

/-- A character without a backslash is kept by the reader. -/
theorem substituteEscChars_plain {c : Char} (hc : c ≠ '\\') (t : Str) :
    substituteEscChars (c :: t) = c :: substituteEscChars t := by
  rw [substituteEscChars.eq_def]
  split
  · rename_i heq
    exact absurd (List.cons.inj heq).1 hc
  · rename_i heq
    exact absurd (List.cons.inj heq).1 hc
  · rename_i heq
    exact absurd (List.cons.inj heq).1 hc
  · rename_i heq
    obtain ⟨rfl, rfl⟩ := List.cons.inj heq
    rfl
  · rename_i heq
    cases heq

/-- A backslash with one of these characters is read as the character that the two stand for. -/
theorem substituteEscChars_letter {d : Char}
    (hd : d ∈ ['"', '\\', 'b', 'f', 'n', 'r', 't']) (t : Str) :
    substituteEscChars ('\\' :: d :: t) = escChar d ++ substituteEscChars t := by
  have hx : d ≠ 'x' ∧ d ≠ 'u' := by
    constructor
    · rintro rfl
      exact absurd hd (by decide)
    · rintro rfl
      exact absurd hd (by decide)
  rw [substituteEscChars.eq_def]
  split
  · rename_i heq
    exact absurd (List.cons.inj (List.cons.inj heq).2).1 hx.1
  · rename_i heq
    exact absurd (List.cons.inj (List.cons.inj heq).2).1 hx.2
  · rename_i heq
    obtain ⟨-, heq⟩ := List.cons.inj heq
    obtain ⟨rfl, rfl⟩ := List.cons.inj heq
    rfl
  · rename_i hno heq
    obtain ⟨rfl, rfl⟩ := List.cons.inj heq
    exact absurd rfl (hno d t rfl)
  · rename_i heq
    cases heq

/-- **One character there and back**: what the writer makes of it is read as it. A character of more
than a byte is not written so that this holds. -/
theorem substituteEscChars_escape {c : Char} (hc : c.toNat < 256) (t : Str) :
    substituteEscChars (escape c ++ t) = c :: substituteEscChars t := by
  rcases escape_cases c with ⟨-, hback, heq⟩ | ⟨d, hd, heq, hletter⟩ | heq
  · rw [heq]
    exact substituteEscChars_plain hback t
  · rw [heq, List.cons_append, List.cons_append, List.nil_append,
      substituteEscChars_letter hd, hletter]
    rfl
  · rw [heq]
    have hbyte : 16 * (c.toNat / 16 % 16) + c.toNat % 16 = c.toNat := by omega
    simp only [nonPrintable, List.cons_append, List.nil_append, substituteEscChars]
    rw [hexToNum_toHexChar (Nat.mod_lt _ (by decide)),
      hexToNum_toHexChar (Nat.mod_lt _ (by decide)), hbyte, Char.ofNat_toNat]

/-- A string of bytes survives being quoted and read. -/
theorem getStr_quoted {s : Str} (hs : ∀ c ∈ s, c.toNat < 256) : getStr (quoted s) = s := by
  have hbody : (quoted s).drop 1 = s.flatMap escape ++ ['"'] := rfl
  rw [getStr, hbody, List.dropLast_concat]
  induction s with
  | nil => rfl
  | cons c s ih =>
    obtain ⟨hc, hs⟩ := List.forall_mem_cons.mp hs
    rw [List.flatMap_cons, substituteEscChars_escape hc, ih hs rfl]

end JsonString

/-! ## The text of a value and its actions

One direction of the grammar is enough: on the text of a value, with a delimiter behind it, it
matches that text and performs the actions of the value. The induction is on the value, together
with its members and elements. -/

mutual

/-- What the grammar is to do on the text of a value. -/
def actsOf : Json → List Act
  | .obj o => .beginObj :: (actsOfMembers o ++ [.endObj])
  | .arr es => .beginArray :: (actsOfElements es ++ [.endArray])
  | .str s => [.newValue (.str s)]
  | .bool b => [.newValue (.bool b)]
  | .int n => [.newValue (.int n)]
  | .real q => [.newValue (.real q)]
  | .null => [.newValue .null]

def actsOfMembers : List (Str × Json) → List Act
  | [] => []
  | (name, v) :: o => .newName name :: (actsOf v ++ actsOfMembers o)

def actsOfElements : List Json → List Act
  | [] => []
  | v :: es => actsOf v ++ actsOfElements es

end

namespace JsonGrammar

variable {L : Scanner} {g : Generator}

/-! ### White space -/

/-- White space in front of a text is skipped with what the text itself begins with. -/
theorem skip_append (hL : L.Spirit) {w : Str} (hw : ∀ c ∈ w, isBlank c = true) (s : Str) :
    L.skip (w ++ s) = L.skip s := by
  induction w with
  | nil => rfl
  | cons c w ih =>
    obtain ⟨hc, hw⟩ := List.forall_mem_cons.mp hw
    rw [List.cons_append, hL.skip_blank c _ hc, ih hw]

/-- What the writer puts at the end of a line is white space, also where it puts nothing. -/
theorem blank_newLine : ∀ c ∈ g.newLine, isBlank c = true := by
  intro c hc
  unfold Generator.newLine at hc
  split at hc
  · obtain rfl := List.mem_singleton.mp hc
    decide
  · cases hc

theorem blank_space : ∀ c ∈ g.space, isBlank c = true := by
  intro c hc
  unfold Generator.space at hc
  split at hc
  · obtain rfl := List.mem_singleton.mp hc
    decide
  · cases hc

/-- The indentation is white space, at every level. -/
theorem blank_indent (level : ℕ) : ∀ c ∈ g.indent level, isBlank c = true := by
  intro c hc
  unfold Generator.indent at hc
  split at hc
  · obtain ⟨t, ht, hct⟩ := List.mem_flatten.mp hc
    rw [List.eq_of_mem_replicate ht] at hct
    have hall : ∀ c ∈ "    ".toList, isBlank c = true := List.all_eq_true.mp (by decide)
    exact hall c hct
  · cases hc

/-- An item is read behind the white space in front of it. -/
theorem skip_item (hL : L.Spirit) (level : ℕ) (s : Str) :
    L.skip (g.newLine ++ (g.indent level ++ s)) = L.skip s := by
  rw [skip_append hL blank_newLine, skip_append hL (blank_indent level)]

/-! ### Pieces -/

section Pieces

variable {s rest : Str} {c : Char}

theorem ch_match (h : L.skip s = c :: rest) (acts : List Act) :
    ch L c acts s = ⟨acts, .hit rest⟩ := by
  rw [ch, piece, h]
  simp

theorem ch_none (h : L.skip s = c :: rest) {d : Char} (hd : c ≠ d) (acts : List Act) :
    ch L d acts s = ⟨[], .miss⟩ := by
  rw [ch, piece, h]
  simp [hd]

/-- A string that the writer has quoted is matched, and its action gets the string. -/
theorem string_match (hL : L.Spirit) {t : Str} (ht : ∀ c ∈ t, c.toNat < 256)
    (h : L.skip s = JsonWriter.quoted t ++ rest) (act : Str → Act) :
    string L act s = ⟨[act t], .hit rest⟩ := by
  have hread : L.string (L.skip s) = some (JsonWriter.quoted t, rest) := by
    rw [h]
    have hquoted : JsonWriter.quoted t ++ rest =
        '"' :: (t.flatMap JsonWriter.escape ++ '"' :: rest) := by simp [JsonWriter.quoted]
    rw [hquoted, hL.string_lexeme _ _ (JsonString.lexeme_flatMap t)]
    rfl
  rw [string, piece, hread]
  simp only [Option.map_some, JsonString.getStr_quoted ht]

theorem string_none (hL : L.Spirit) (h : L.skip s = c :: rest) (hc : c ≠ '"') (act : Str → Act) :
    string L act s = ⟨[], .miss⟩ := by
  rw [string, piece, h, hL.string_none c rest hc]
  rfl

theorem number_none (hL : L.Spirit) (h : L.skip s = c :: rest) (hc : startsNumber c = false) :
    number L s = ⟨[], .miss⟩ := by
  simp only [number, alt, piece, h, hL.real_none c rest hc, hL.int64_none c rest hc,
    hL.uint64_none c rest hc, Option.map_none, List.append_nil]

theorem word_match {w : Str} (h : L.skip s = w ++ rest) (act : Act) :
    word L w act s = ⟨[act], .hit rest⟩ := by
  rw [word, piece, h, if_pos (List.prefix_append w rest), List.drop_left]

theorem word_none {w t : Str} {d : Char} (h : L.skip s = c :: rest) (hw : w = d :: t) (hd : c ≠ d)
    (act : Act) : word L w act s = ⟨[], .miss⟩ := by
  have hno : ¬ w <+: c :: rest := by
    rw [hw]
    exact fun hp => hd (List.cons_prefix_cons.mp hp).1.symm
  rw [word, piece, h, if_neg hno]

theorem object_none (h : L.skip s = c :: rest) (hc : c ≠ '{') (v : Parser Act) (n : ℕ) :
    object L v n s = ⟨[], .miss⟩ := seq_none (ch_none h hc _)

theorem array_none (h : L.skip s = c :: rest) (hc : c ≠ '[') (v : Parser Act) (n : ℕ) :
    array L v n s = ⟨[], .miss⟩ := seq_none (ch_none h hc _)

end Pieces

/-- A value is read behind white space as without it. -/
theorem value_congr {s t : Str} (h : L.skip s = L.skip t) (n : ℕ) : value L n s = value L n t := by
  cases n with
  | zero => rfl
  | succ n =>
    simp only [value, string, number, object, array, words, word, ch, alt, seq, piece, h]

/-- What begins with a mark of its own is neither a string nor a number. -/
theorem value_mark (hL : L.Spirit) {s rest : Str} {c : Char} (h : L.skip s = c :: rest)
    (hquote : c ≠ '"') (hnumber : startsNumber c = false) (n : ℕ) :
    value L (n + 1) s =
      alt (object L (value L n) n) (alt (array L (value L n) n) (words L)) s := by
  rw [value, alt_match_right (string_none hL h hquote _), alt_match_right (number_none hL h hnumber)]

theorem value_number (hL : L.Spirit) {s rest rest' : Str} {c : Char} {acts : List Act}
    (h : L.skip s = c :: rest) (hquote : c ≠ '"') (hnumber : number L s = ⟨acts, .hit rest'⟩)
    (n : ℕ) : value L (n + 1) s = ⟨acts, .hit rest'⟩ := by
  rw [value, alt_match_right (string_none hL h hquote _)]
  exact alt_match_left hnumber

/-! ### Values -/

/-- A digit is no blank, begins no comment and no string, and begins a number. -/
theorem isDigit_marks {c : Char} (hc : c.isDigit = true) :
    isBlank c = false ∧ c ≠ '/' ∧ c ≠ '"' ∧ startsNumber c = true := by
  have hrange : 48 ≤ c.toNat ∧ c.toNat ≤ 57 := by
    simpa [Char.isDigit, UInt32.le_iff_toNat_le] using hc
  have hne : ∀ d : Char, ¬ (48 ≤ d.toNat ∧ d.toNat ≤ 57) → c ≠ d := by
    rintro d hd rfl
    exact hd hrange
  refine ⟨?_, hne '/' (by decide), hne '"' (by decide), by rw [startsNumber, hc]; rfl⟩
  have hblank : ¬ (c = ' ' ∨ ('\t' ≤ c ∧ c ≤ '\r')) := by
    rintro (rfl | ⟨-, hle⟩)
    · exact absurd hrange (by decide)
    · have : c.toNat ≤ 13 := hle
      omega
  exact decide_eq_false hblank

/-- The same of whatever begins a number. -/
theorem startsNumber_marks {c : Char} (hc : startsNumber c = true) :
    isBlank c = false ∧ c ≠ '/' ∧ c ≠ '"' := by
  rcases Bool.or_eq_true_iff.mp hc with hdigit | hsign
  · have h := isDigit_marks hdigit
    exact ⟨h.1, h.2.1, h.2.2.1⟩
  · rcases of_decide_eq_true hsign with rfl | rfl | rfl
    · decide
    · decide
    · decide

theorem exists_decText (n : ℤ) : ∃ c s, decText n = c :: s ∧ startsNumber c = true := by
  obtain ⟨c, s, hcons⟩ := List.exists_cons_of_ne_nil (decText_ne_nil n)
  refine ⟨c, s, hcons, ?_⟩
  rcases mem_decText (hcons ▸ List.mem_cons_self : c ∈ decText n) with rfl | hdigit
  · decide
  · exact (isDigit_marks hdigit).2.2.2

/-- A text that begins like a number is not white space. -/
theorem skip_number (hL : L.Spirit) {t : Str} (ht : ∃ c s, t = c :: s ∧ startsNumber c = true)
    (rest : Str) : L.skip (t ++ rest) = t ++ rest := by
  obtain ⟨c, s, rfl, hc⟩ := ht
  have hmarks := startsNumber_marks hc
  exact hL.skip_mark c _ hmarks.1 hmarks.2.1

/-- A whole number that fits 64 bits is read as itself, if the text behind it cannot be part of it.
-/
theorem number_int (hL : L.Spirit) {n : ℤ} (hn : -2 ^ 63 ≤ n ∧ n < 2 ^ 64) {rest : Str}
    (hrest : Delimited rest) :
    number L (decText n ++ rest) = ⟨[.newValue (.int n)], .hit rest⟩ := by
  have hskip : L.skip (decText n ++ rest) = decText n ++ rest :=
    skip_number hL (exists_decText n) rest
  have hreal := hL.real_decText n rest hrest
  by_cases hsmall : n < 2 ^ 63
  · have hint := hL.int64_decText n rest hn.1 hsmall hrest
    simp [number, alt, piece, hskip, hreal, hint]
  · have hlarge : 2 ^ 63 ≤ n := not_lt.mp hsmall
    have hint := hL.int64_large n rest hlarge hrest
    have huint := hL.uint64_decText n rest (le_trans (by norm_num) hlarge) hn.2 hrest
    simp [number, alt, piece, hskip, hreal, hint, huint]

theorem value_string (hL : L.Spirit) {t rest : Str} (ht : ∀ c ∈ t, c.toNat < 256) (n : ℕ) :
    value L (n + 1) (JsonWriter.quoted t ++ rest) = ⟨[.newValue (.str t)], .hit rest⟩ := by
  have hskip : L.skip (JsonWriter.quoted t ++ rest) = JsonWriter.quoted t ++ rest :=
    hL.skip_mark '"' _ (by decide) (by decide)
  rw [value]
  exact alt_match_left (string_match hL ht hskip _)

/-- The words for the truth values and for null are read as what they stand for. -/
theorem value_word (hL : L.Spirit) {w rest : Str} {act : Act}
    (hw : (w, act) ∈ [("true".toList, Act.newValue (.bool true)),
      ("false".toList, Act.newValue (.bool false)), ("null".toList, Act.newValue .null)])
    (n : ℕ) : value L (n + 1) (w ++ rest) = ⟨[act], .hit rest⟩ := by
  have hmark : ∀ c : Char, c = 't' ∨ c = 'f' ∨ c = 'n' → ∀ s,
      L.skip (c :: s) = c :: s ∧
        value L (n + 1) (c :: s) = words L (c :: s) := by
    intro c hc s
    have hplain : isBlank c = false ∧ c ≠ '/' ∧ c ≠ '"' ∧ startsNumber c = false ∧ c ≠ '{' ∧
        c ≠ '[' := by
      rcases hc with rfl | rfl | rfl <;> decide
    obtain ⟨hblank, hslash, hquote, hnumber, hbrace, hbracket⟩ := hplain
    have hskip : L.skip (c :: s) = c :: s := hL.skip_mark c s hblank hslash
    refine ⟨hskip, ?_⟩
    rw [value_mark hL hskip hquote hnumber, alt_match_right (object_none hskip hbrace _ _),
      alt_match_right (array_none hskip hbracket _ _)]
  simp only [List.mem_cons, Prod.mk.injEq, List.not_mem_nil, or_false] at hw
  rcases hw with ⟨rfl, rfl⟩ | ⟨rfl, rfl⟩ | ⟨rfl, rfl⟩
  · obtain ⟨hskip, hvalue⟩ := hmark 't' (by decide) ("rue".toList ++ rest)
    refine hvalue.trans ?_
    exact alt_match_left (word_match (w := "true".toList) hskip _)
  · obtain ⟨hskip, hvalue⟩ := hmark 'f' (by decide) ("alse".toList ++ rest)
    refine hvalue.trans ?_
    rw [words, alt_match_right (word_none (w := "true".toList) hskip rfl (by decide) _)]
    exact alt_match_left (word_match (w := "false".toList) hskip _)
  · obtain ⟨hskip, hvalue⟩ := hmark 'n' (by decide) ("ull".toList ++ rest)
    refine hvalue.trans ?_
    rw [words, alt_match_right (word_none (w := "true".toList) hskip rfl (by decide) _),
      alt_match_right (word_none (w := "false".toList) hskip rfl (by decide) _)]
    exact word_match (w := "null".toList) hskip _

/-! ### What stands behind a value -/

theorem delimited_nil : Delimited [] := fun _ hc => by cases hc

/-- White space in front does not go on with a number. -/
theorem delimited_append {w : Str} (hw : ∀ c ∈ w, isBlank c = true) {s : Str}
    (hs : Delimited s) : Delimited (w ++ s) := by
  cases w with
  | nil => exact hs
  | cons c w =>
    intro d hd
    obtain rfl := Option.mem_some_iff.mp hd
    exact Or.inl (hw c List.mem_cons_self)

theorem delimited_cons {c : Char} (hc : c = ',' ∨ c = '}' ∨ c = ']') (s : Str) :
    Delimited (c :: s) := by
  intro d hd
  obtain rfl := Option.mem_some_iff.mp hd
  exact Or.inr hc

/-- Behind an item is a comma or the bracket. -/
theorem delimited_item {α : Type} (more : List α) {close : Char} (hclose : close = '}' ∨ close = ']')
    (level : ℕ) (items rest : Str) (hitems : more = [] → items = []) :
    Delimited (Generator.separator more ++
      (g.newLine ++ (items ++ (g.indent level ++ close :: rest)))) := by
  cases more with
  | cons a more => exact delimited_cons (Or.inl rfl) _
  | nil =>
    rw [hitems rfl]
    show Delimited (g.newLine ++ (g.indent level ++ close :: rest))
    exact delimited_append blank_newLine (delimited_append (blank_indent level)
      (delimited_cons (Or.inr hclose) rest))

/-! ### Objects and arrays -/

/-- A name, a colon and a value that is read are a pair that is read. -/
theorem pair_match (hL : L.Spirit) {name : Str} (hname : ∀ c ∈ name, c.toNat < 256) {s t rest : Str}
    {acts : List Act} {n : ℕ}
    (hs : L.skip s = JsonWriter.quoted name ++ (g.space ++ ':' :: (g.space ++ t)))
    (hvalue : value L n t = ⟨acts, .hit rest⟩) :
    pair L (value L n) s = ⟨.newName name :: acts, .hit rest⟩ := by
  have hcolon : L.skip (g.space ++ ':' :: (g.space ++ t)) = ':' :: (g.space ++ t) := by
    rw [skip_append hL blank_space]
    exact hL.skip_mark ':' _ (by decide) (by decide)
  have hspace : value L n (g.space ++ t) = ⟨acts, .hit rest⟩ := by
    rw [value_congr (skip_append hL blank_space t), hvalue]
  exact seq_match (string_match hL hname hs _)
    (seq_match (alt_match_left (ch_match hcolon [])) (alt_match_left hspace))

/-- The bracket that ends an object or an array, behind its items. -/
theorem skip_close (hL : L.Spirit) {close : Char} (hclose : close = '}' ∨ close = ']') (level : ℕ)
    (rest : Str) :
    L.skip (g.newLine ++ (g.indent level ++ close :: rest)) = close :: rest := by
  rw [skip_item hL]
  rcases hclose with rfl | rfl
  · exact hL.skip_mark '}' rest (by decide) (by decide)
  · exact hL.skip_mark ']' rest (by decide) (by decide)

/-- A closing bracket begins no value. -/
theorem value_close (hL : L.Spirit) {s rest : Str} (h : L.skip s = ']' :: rest) (n : ℕ) :
    value L (n + 1) s = ⟨[], .miss⟩ := by
  rw [value_mark hL h (by decide) (by decide), alt_match_right (object_none h (by decide) _ _),
    alt_match_right (array_none h (by decide) _ _), words,
    alt_match_right (word_none (w := "true".toList) h rfl (by decide) _),
    alt_match_right (word_none (w := "false".toList) h rfl (by decide) _)]
  exact word_none (w := "null".toList) h rfl (by decide) _

/-- Braces around members that are read are an object that is read. -/
theorem object_match (hL : L.Spirit) {o : List (Str × Json)} {level n : ℕ} {rest : Str}
    (hmembers : opt (members L (value L n) n)
        (g.newLine ++ (g.outputMembers (level + 1) o ++ (g.indent level ++ '}' :: rest))) =
      ⟨actsOfMembers o, .hit (g.newLine ++ (g.indent level ++ '}' :: rest))⟩) :
    value L (n + 1) (g.output level (.obj o) ++ rest) = ⟨actsOf (.obj o), .hit rest⟩ := by
  have htext : g.output level (.obj o) ++ rest = '{' ::
      (g.newLine ++ (g.outputMembers (level + 1) o ++ (g.indent level ++ '}' :: rest))) := by
    simp [Generator.output]
  have hskip : L.skip (g.output level (.obj o) ++ rest) = '{' ::
      (g.newLine ++ (g.outputMembers (level + 1) o ++ (g.indent level ++ '}' :: rest))) := by
    rw [htext]
    exact hL.skip_mark '{' _ (by decide) (by decide)
  rw [value_mark hL hskip (by decide) (by decide)]
  have hclose := ch_match (skip_close (g := g) hL (Or.inl rfl) level rest) [Act.endObj]
  have hobject := seq_match (ch_match hskip [.beginObj])
    (seq_match hmembers (alt_match_left (q := throws "not an object") hclose))
  exact (alt_match_left hobject).trans (by rw [actsOf]; rfl)

/-- Brackets around elements that are read are an array that is read. -/
theorem array_match (hL : L.Spirit) {es : List Json} {level n : ℕ} {rest : Str}
    (helements : opt (elements L (value L n) n)
        (g.newLine ++ (g.outputElements (level + 1) es ++ (g.indent level ++ ']' :: rest))) =
      ⟨actsOfElements es, .hit (g.newLine ++ (g.indent level ++ ']' :: rest))⟩) :
    value L (n + 1) (g.output level (.arr es) ++ rest) = ⟨actsOf (.arr es), .hit rest⟩ := by
  have htext : g.output level (.arr es) ++ rest = '[' ::
      (g.newLine ++ (g.outputElements (level + 1) es ++ (g.indent level ++ ']' :: rest))) := by
    simp [Generator.output]
  have hskip : L.skip (g.output level (.arr es) ++ rest) = '[' ::
      (g.newLine ++ (g.outputElements (level + 1) es ++ (g.indent level ++ ']' :: rest))) := by
    rw [htext]
    exact hL.skip_mark '[' _ (by decide) (by decide)
  rw [value_mark hL hskip (by decide) (by decide),
    alt_match_right (object_none hskip (by decide) _ _)]
  have hclose := ch_match (skip_close (g := g) hL (Or.inr rfl) level rest) [Act.endArray]
  have harray := seq_match (ch_match hskip [.beginArray])
    (seq_match helements (alt_match_left (q := throws "not an array") hclose))
  exact (alt_match_left harray).trans (by rw [actsOf]; rfl)

/-- A member, up to what is behind it. -/
theorem pair_item (hL : L.Spirit) {name : Str} (hname : ∀ c ∈ name, c.toNat < 256) {v : Json}
    {o : List (Str × Json)} {level n : ℕ} {tail : Str}
    (hvalue : value L n (g.output level v ++ (Generator.separator o ++
        (g.newLine ++ (g.outputMembers level o ++ tail)))) =
      ⟨actsOf v, .hit (Generator.separator o ++
        (g.newLine ++ (g.outputMembers level o ++ tail)))⟩) :
    pair L (value L n) (g.newLine ++ (g.outputMembers level ((name, v) :: o) ++ tail)) =
      ⟨.newName name :: actsOf v, .hit (Generator.separator o ++
        (g.newLine ++ (g.outputMembers level o ++ tail)))⟩ := by
  refine pair_match (g := g) hL hname ?_ hvalue
  have htext : g.outputMembers level ((name, v) :: o) ++ tail =
      g.indent level ++ (JsonWriter.quoted name ++ (g.space ++ ':' :: (g.space ++
        (g.output level v ++ (Generator.separator o ++
          (g.newLine ++ (g.outputMembers level o ++ tail))))))) := by
    simp [Generator.outputMembers, Generator.outputMember]
  rw [htext, skip_item hL]
  exact hL.skip_mark '"' _ (by decide) (by decide)

/-- An element with the line break in front, from the value alone. -/
theorem element_item (hL : L.Spirit) {v : Json} {es : List Json} {level n : ℕ} {tail : Str}
    (hvalue : value L n (g.output level v ++ (Generator.separator es ++
        (g.newLine ++ (g.outputElements level es ++ tail)))) =
      ⟨actsOf v, .hit (Generator.separator es ++
        (g.newLine ++ (g.outputElements level es ++ tail)))⟩) :
    value L n (g.newLine ++ (g.outputElements level (v :: es) ++ tail)) =
      ⟨actsOf v, .hit (Generator.separator es ++
        (g.newLine ++ (g.outputElements level es ++ tail)))⟩ := by
  have htext : g.outputElements level (v :: es) ++ tail =
      g.indent level ++ (g.output level v ++ (Generator.separator es ++
        (g.newLine ++ (g.outputElements level es ++ tail)))) := by
    simp [Generator.outputElements]
  rw [htext, value_congr (skip_item hL level _), hvalue]

/-- An item is shorter than the items from it on, and so is what is behind it. -/
theorem length_members (level : ℕ) (name : Str) (v : Json) (o : List (Str × Json)) (tail : Str) :
    (g.output level v ++ (Generator.separator o ++
        (g.newLine ++ (g.outputMembers level o ++ tail)))).length + 3 ≤
      (g.newLine ++ (g.outputMembers level ((name, v) :: o) ++ tail)).length := by
  simp only [Generator.outputMembers, Generator.outputMember, JsonWriter.quoted,
    List.length_append, List.length_cons, List.length_nil]
  omega

/-- The text of a value is part of the text of the elements that it heads, so that the fuel for
these is enough for it. -/
theorem length_elements (level : ℕ) (v : Json) (es : List Json) (tail : Str) :
    (g.output level v ++ (Generator.separator es ++
        (g.newLine ++ (g.outputElements level es ++ tail)))).length ≤
      (g.newLine ++ (g.outputElements level (v :: es) ++ tail)).length := by
  simp only [Generator.outputElements, List.length_append]
  omega

mutual

/-- **A value is read from its text**: the grammar does what is to be done and stops behind it. -/
theorem value_output (hL : L.Spirit) : (v : Json) → Held (Kept L g.real) v →
    ∀ (level n : ℕ) (rest : Str), Delimited rest → (g.output level v ++ rest).length < n →
      value L n (g.output level v ++ rest) = ⟨actsOf v, .hit rest⟩
  | .obj o, hv, level, n + 1, rest, hrest, hn => by
    rw [Held] at hv
    -- the fuel goes down by one for the brace
    refine object_match hL (members_opt hL o hv (level + 1) level n rest ?_)
    have hlen : (g.output level (.obj o) ++ rest).length =
        (g.newLine ++ (g.outputMembers (level + 1) o ++
          (g.indent level ++ '}' :: rest))).length + 1 := by
      simp [Generator.output]
    omega
  | .arr es, hv, level, n + 1, rest, hrest, hn => by
    rw [Held] at hv
    refine array_match hL (elements_opt hL es hv (level + 1) level n rest ?_)
    have hlen : (g.output level (.arr es) ++ rest).length =
        (g.newLine ++ (g.outputElements (level + 1) es ++
          (g.indent level ++ ']' :: rest))).length + 1 := by
      simp [Generator.output]
    omega
  | .str s, hv, level, n + 1, rest, hrest, hn => by
    rw [Held] at hv
    rw [Generator.output, actsOf]
    exact value_string hL hv n
  | .bool true, hv, level, n + 1, rest, hrest, hn => by
    rw [Generator.output, actsOf]
    exact value_word hL (by simp) n
  | .bool false, hv, level, n + 1, rest, hrest, hn => by
    rw [Generator.output, actsOf]
    exact value_word hL (by simp) n
  | .int k, hv, level, n + 1, rest, hrest, hn => by
    rw [Held] at hv
    rw [Generator.output, actsOf]
    -- a number is told from the other values by its first character
    obtain ⟨c, s, hcons, hc⟩ := exists_decText k
    have hskip : L.skip (NumText.decText k ++ rest) = c :: (s ++ rest) := by
      rw [skip_number hL (exists_decText k), hcons]
      rfl
    exact value_number hL hskip (startsNumber_marks hc).2.2 (number_int hL hv hrest) n
  | .real q, hv, level, n + 1, rest, hrest, hn => by
    rw [Held] at hv
    rw [Generator.output, actsOf]
    obtain ⟨hstart, hread⟩ := hv
    have hskip : L.skip (g.real q ++ rest) = g.real q ++ rest := skip_number hL hstart rest
    obtain ⟨c, s, hcons, hc⟩ := hstart
    have hnumber : number L (g.real q ++ rest) = ⟨[.newValue (.real q)], .hit rest⟩ := by
      simp [number, alt, piece, hskip, hread rest hrest]
    have hfirst : L.skip (g.real q ++ rest) = c :: (s ++ rest) := by
      rw [hskip, hcons]
      rfl
    exact value_number hL hfirst (startsNumber_marks hc).2.2 hnumber n
  | .null, hv, level, n + 1, rest, hrest, hn => by
    rw [Generator.output, actsOf]
    exact value_word hL (by simp) n

/-- Members in the braces that the writer puts around them, by recursion on the members: each needs
less fuel than all together. -/
theorem members_opt (hL : L.Spirit) : (o : List (Str × Json)) →
    HeldMembers (Kept L g.real) o → ∀ (level outer n : ℕ) (rest : Str),
      (g.newLine ++ (g.outputMembers level o ++ (g.indent outer ++ '}' :: rest))).length < n →
      opt (members L (value L n) n)
          (g.newLine ++ (g.outputMembers level o ++ (g.indent outer ++ '}' :: rest))) =
        ⟨actsOfMembers o, .hit (g.newLine ++ (g.indent outer ++ '}' :: rest))⟩
  | [], _, level, outer, n, rest, _ => by
    have hclose := skip_close (g := g) hL (Or.inl rfl : '}' = '}' ∨ '}' = ']') outer rest
    rw [Generator.outputMembers, actsOfMembers]
    exact opt_none (seq_none (seq_none (string_none hL hclose (by decide) _)))
  | (name, v) :: o, ho, level, outer, n, rest, hn => by
    rw [HeldMembers] at ho
    have hlen := length_members level name v o (g.indent outer ++ '}' :: rest) (g := g)
    have hvalue := value_output hL v ho.2.1 level n _
      (delimited_item (g := g) o (Or.inl rfl) outer (g.outputMembers level o) rest
        (by rintro rfl; rw [Generator.outputMembers])) (by omega)
    have hmore := members_many hL o ho.2.2 level outer n n rest le_rfl (by
      simp only [List.length_append] at hlen hn ⊢
      omega)
    rw [actsOfMembers]
    exact opt_match (seq_match (pair_item hL ho.1 hvalue) hmore)

/-- The members behind the first of an object. -/
theorem members_many (hL : L.Spirit) : (o : List (Str × Json)) →
    HeldMembers (Kept L g.real) o → ∀ (level outer n m : ℕ) (rest : Str), m ≤ n →
      (Generator.separator o ++ (g.newLine ++ (g.outputMembers level o ++
        (g.indent outer ++ '}' :: rest)))).length < m →
      many (seq (ch L ',' []) (pair L (value L n))) m
          (Generator.separator o ++ (g.newLine ++ (g.outputMembers level o ++
            (g.indent outer ++ '}' :: rest)))) =
        ⟨actsOfMembers o, .hit (g.newLine ++ (g.indent outer ++ '}' :: rest))⟩
  | [], _, level, outer, n, m + 1, rest, hmn, hm => by
    have hclose := skip_close (g := g) hL (Or.inl rfl : '}' = '}' ∨ '}' = ']') outer rest
    rw [Generator.outputMembers, actsOfMembers]
    exact many_none (seq_none (ch_none hclose (by decide) _)) m
  | (name, v) :: o, ho, level, outer, n, m + 1, rest, hmn, hm => by
    rw [HeldMembers] at ho
    have hlen := length_members level name v o (g.indent outer ++ '}' :: rest) (g := g)
    have hcomma : (Generator.separator ((name, v) :: o)).length = 1 := rfl
    rw [List.length_append, hcomma] at hm
    have hvalue := value_output hL v ho.2.1 level n _
      (delimited_item (g := g) o (Or.inl rfl) outer (g.outputMembers level o) rest
        (by rintro rfl; rw [Generator.outputMembers])) (by omega)
    have hmore := members_many hL o ho.2.2 level outer n m rest (by omega) (by
      simp only [List.length_append] at hlen hm ⊢
      omega)
    rw [actsOfMembers]
    exact many_match (seq_match (ch_match (hL.skip_mark ',' _ (by decide) (by decide)) [])
      (pair_item hL ho.1 hvalue)) hmore

/-- Elements in the brackets around them, in the same way. -/
theorem elements_opt (hL : L.Spirit) : (es : List Json) →
    HeldElements (Kept L g.real) es → ∀ (level outer n : ℕ) (rest : Str),
      (g.newLine ++ (g.outputElements level es ++ (g.indent outer ++ ']' :: rest))).length < n →
      opt (elements L (value L n) n)
          (g.newLine ++ (g.outputElements level es ++ (g.indent outer ++ ']' :: rest))) =
        ⟨actsOfElements es, .hit (g.newLine ++ (g.indent outer ++ ']' :: rest))⟩
  | [], _, level, outer, n + 1, rest, _ => by
    have hclose := skip_close (g := g) hL (Or.inr rfl : ']' = '}' ∨ ']' = ']') outer rest
    rw [Generator.outputElements, actsOfElements]
    exact opt_none (seq_none (value_close hL hclose n))
  | v :: es, hes, level, outer, n, rest, hn => by
    rw [HeldElements] at hes
    have hlen := length_elements level v es (g.indent outer ++ ']' :: rest) (g := g)
    have hvalue := value_output hL v hes.1 level n _
      (delimited_item (g := g) es (Or.inr rfl) outer (g.outputElements level es) rest
        (by rintro rfl; rw [Generator.outputElements])) (by omega)
    have hmore := elements_many hL es hes.2 level outer n n rest le_rfl (by
      simp only [List.length_append] at hlen hn ⊢
      omega)
    rw [actsOfElements]
    exact opt_match (seq_match (element_item hL hvalue) hmore)

/-- The elements behind the first of an array. -/
theorem elements_many (hL : L.Spirit) : (es : List Json) →
    HeldElements (Kept L g.real) es → ∀ (level outer n m : ℕ) (rest : Str), m ≤ n →
      (Generator.separator es ++ (g.newLine ++ (g.outputElements level es ++
        (g.indent outer ++ ']' :: rest)))).length < m →
      many (seq (ch L ',' []) (value L n)) m
          (Generator.separator es ++ (g.newLine ++ (g.outputElements level es ++
            (g.indent outer ++ ']' :: rest)))) =
        ⟨actsOfElements es, .hit (g.newLine ++ (g.indent outer ++ ']' :: rest))⟩
  | [], _, level, outer, n, m + 1, rest, hmn, hm => by
    have hclose := skip_close (g := g) hL (Or.inr rfl : ']' = '}' ∨ ']' = ']') outer rest
    rw [Generator.outputElements, actsOfElements]
    exact many_none (seq_none (ch_none hclose (by decide) _)) m
  | v :: es, hes, level, outer, n, m + 1, rest, hmn, hm => by
    rw [HeldElements] at hes
    have hlen := length_elements level v es (g.indent outer ++ ']' :: rest) (g := g)
    have hcomma : (Generator.separator (v :: es)).length = 1 := rfl
    rw [List.length_append, hcomma] at hm
    have hvalue := value_output hL v hes.1 level n _
      (delimited_item (g := g) es (Or.inr rfl) outer (g.outputElements level es) rest
        (by rintro rfl; rw [Generator.outputElements])) (by omega)
    have hmore := elements_many hL es hes.2 level outer n m rest (by omega) (by
      simp only [List.length_append] at hlen hm ⊢
      omega)
    rw [actsOfElements]
    exact many_match (seq_match (ch_match (hL.skip_mark ',' _ (by decide) (by decide)) [])
      (element_item hL hvalue)) hmore

end

end JsonGrammar

/-! ## The actions of a value

The actions are performed on what was built so far. They put the value at the end of the object or
array that is open, and leave everything else as it was (`Added`). -/

namespace Json

/-- To change an element only that element matters. -/
theorem modify_congr {α : Type} {l : List α} {i : ℕ} {a : α} (hi : l[i]? = some a) {f g : α → α}
    (h : f a = g a) : l.modify i f = l.modify i g := by
  apply List.ext_getElem?
  intro j
  rw [List.getElem?_modify, List.getElem?_modify]
  by_cases hij : i = j
  · subst hij
    simp [hi, h]
  · simp [hij]

/-- What is put below a position that was just replaced is put into the replacement. -/
theorem put_put_below {t s : Json} {p : Position} (h : sub t p = some s) (u w : Json)
    (q : Position) : put (put t p u) (p ++ q) w = put t p (put u q w) := by
  induction p generalizing t with
  | nil => rfl
  | cons i p ih =>
    cases t with
    | obj o =>
      obtain ⟨c, hc, hs⟩ := Option.bind_eq_some_iff.mp h
      obtain ⟨⟨name, c'⟩, ho, rfl⟩ := Option.map_eq_some_iff.mp ((children_obj o i).symm.trans hc)
      rw [put_obj, List.cons_append, put_obj, put_obj, List.modify_modify_eq]
      refine congrArg Json.obj (modify_congr ho ?_)
      exact congrArg (Prod.mk name) (ih hs)
    | arr es =>
      obtain ⟨c, hc, hs⟩ := Option.bind_eq_some_iff.mp h
      have hes : es[i]? = some c := hc
      rw [put_arr, List.cons_append, put_arr, put_arr, List.modify_modify_eq]
      exact congrArg Json.arr (modify_congr hes (ih hs))
    | str _ => cases h
    | bool _ => cases h
    | int _ => cases h
    | real _ => cases h
    | null => cases h

theorem put_put {t s : Json} {p : Position} (h : sub t p = some s) (u w : Json) :
    put (put t p u) p w = put t p w := by
  have hbelow := put_put_below h u w []
  rwa [List.append_nil, put_nil] at hbelow

theorem sub_put_self {t s : Json} {p : Position} (h : sub t p = some s) (u : Json) :
    sub (put t p u) p = some u := by
  have hbelow := sub_put_below h u []
  rwa [List.append_nil, sub_nil] at hbelow

end Json

namespace SemanticActions

open Json

/-- A container with one more child at its end. -/
inductive Grows (name : Str) (v : Json) : Json → Json → ℕ → Prop where
  | obj (o : Object) : Grows name v (.obj o) (.obj (o ++ [(name, v)])) o.length
  | arr (es : List Json) : Grows name v (.arr es) (.arr (es ++ [v])) es.length

theorem Grows.sub_last {name : Str} {v u u' : Json} {k : ℕ} (h : Grows name v u u' k) :
    sub u' [k] = some v := by
  cases h with
  | obj o => simp [sub_obj]
  | arr es =>
    rw [sub_singleton]
    exact List.getElem?_concat_length

theorem modify_concat {α : Type} (l : List α) (a : α) (f : α → α) :
    (l ++ [a]).modify l.length f = l ++ [f a] := by
  induction l with
  | nil => rfl
  | cons b l ih => simp [ih]

/-- The last child is replaced. -/
theorem Grows.put_last {name : Str} {v u u' : Json} {k : ℕ} (h : Grows name v u u' k) (w : Json) :
    Grows name w u (put u' [k] w) k := by
  cases h with
  | obj o =>
    rw [put_obj, modify_concat]
    exact .obj o
  | arr es =>
    rw [put_arr, modify_concat]
    exact .arr es

/-- A value that is added to the current compound becomes its last child, and nothing else changes.
-/
theorem addToCurrent_grows {s : State} {p : Position} {u u' v : Json} {k : ℕ}
    (hp : s.current = some p) (hu : sub s.value p = some u) (hgrows : Grows s.name v u u' k) :
    addToCurrent v s = ({ s with value := put s.value p u' }, some (p ++ [k])) := by
  unfold addToCurrent
  rw [hp]
  cases hgrows with
  | obj o => simp only [hu]
  | arr es => simp only [hu]

/-- A value was added to the container that is being built. -/
structure Added (s : State) (p : Position) (u' : Json) (s' : State) : Prop where
  current : s'.current = some p
  stack : s'.stack = s.stack
  value : s'.value = put s.value p u'

/-- Two sequences of actions, each of which adds to the compound and comes back to it. -/
theorem Added.trans {s s' s'' : State} {p : Position} {u u' u'' : Json}
    (hu : sub s.value p = some u) (h : Added s p u' s') (h' : Added s' p u'' s'') :
    Added s p u'' s'' where
  current := h'.current
  stack := h'.stack.trans h.stack
  value := by rw [h'.value, h.value, put_put hu]

theorem Grows.unique {name : Str} {v u u₁ u₂ : Json} {k₁ k₂ : ℕ} (h₁ : Grows name v u u₁ k₁)
    (h₂ : Grows name v u u₂ k₂) : u₁ = u₂ ∧ k₁ = k₂ := by
  cases h₁ <;> cases h₂ <;> exact ⟨rfl, rfl⟩

/-- Where one value can be added, so can another. -/
theorem Grows.other {name : Str} {v u u' : Json} {k : ℕ} (h : Grows name v u u' k) (w : Json) :
    ∃ u₁, Grows name w u u₁ k := by
  cases h with
  | obj o => exact ⟨_, .obj o⟩
  | arr es => exact ⟨_, .arr es⟩

theorem added_scalar {s : State} {p : Position} {u u' v : Json} {k : ℕ}
    (hp : s.current = some p) (hu : sub s.value p = some u) (hgrows : Grows s.name v u u' k) :
    Added s p u' ([Act.newValue v].foldl act s) := by
  have hact : [Act.newValue v].foldl act s = { s with value := put s.value p u' } := by
    show (addToCurrent v s).1 = _
    rw [addToCurrent_grows hp hu hgrows]
  rw [hact]
  exact { current := hp, stack := rfl, value := rfl }

/-- An empty object or array is begun as the last child of what is being built. -/
theorem beginCompound_grows {s : State} {p : Position} {u u' v : Json} {k : ℕ}
    (hp : s.current = some p) (hu : sub s.value p = some u) (hgrows : Grows s.name v u u' k) :
    beginCompound v s =
      { s with value := put s.value p u', current := some (p ++ [k]), stack := p :: s.stack } := by
  rw [beginCompound, hp]
  simp only [addToCurrent_grows hp hu hgrows]

/-- An object or an array is begun, filled with what belongs to it and ended. -/
theorem added_compound {s s' : State} {p : Position} {u u₁ u' v w : Json} {k : ℕ}
    (hp : s.current = some p) (hu : sub s.value p = some u) (hbegun : Grows s.name v u u₁ k)
    (hgrows : Grows s.name w u u' k) (hfill : Added (beginCompound v s) (p ++ [k]) w s') :
    Added s p u' (endCompound s') := by
  rw [beginCompound_grows hp hu hbegun] at hfill
  have hne : s'.current ≠ some [] := by
    rw [hfill.current]
    simp
  rw [endCompound, if_neg hne]
  exact
    { current := by simp [hfill.stack]
      stack := by simp [hfill.stack]
      value := by
        have hput := (hbegun.put_last w).unique hgrows
        show s'.value = _
        rw [hfill.value, ← hput.1]
        exact put_put_below hu u₁ w [k] }

theorem sub_beginCompound {s : State} {p : Position} {u u' v : Json} {k : ℕ}
    (hp : s.current = some p) (hu : sub s.value p = some u) (hgrows : Grows s.name v u u' k) :
    sub (beginCompound v s).value (p ++ [k]) = some v := by
  rw [beginCompound_grows hp hu hgrows]
  exact (sub_put_below hu u' [k]).trans hgrows.sub_last

mutual

/-- **The actions of a value add it** to the container that is being built, and leave everything
else as it is. -/
theorem foldl_actsOf : (v : Json) → ∀ {s : State} {p : Position} {u u' : Json} {k : ℕ},
    s.current = some p → sub s.value p = some u → Grows s.name v u u' k →
      Added s p u' ((actsOf v).foldl act s)
  | .obj o, s, p, u, u', k, hp, hu, hgrows => by
    obtain ⟨u₁, hbegun⟩ := hgrows.other (.obj [])
    have hfill := foldl_members o (s := beginCompound (.obj []) s)
      (by rw [beginCompound_grows hp hu hbegun]) (sub_beginCompound hp hu hbegun)
    have hadded := added_compound hp hu hbegun hgrows hfill
    rw [actsOf, List.foldl_cons, List.foldl_append]
    exact hadded
  | .arr es, s, p, u, u', k, hp, hu, hgrows => by
    obtain ⟨u₁, hbegun⟩ := hgrows.other (.arr [])
    have hfill := foldl_elements es (s := beginCompound (.arr []) s)
      (by rw [beginCompound_grows hp hu hbegun]) (sub_beginCompound hp hu hbegun)
    have hadded := added_compound hp hu hbegun hgrows hfill
    rw [actsOf, List.foldl_cons, List.foldl_append]
    exact hadded
  | .str t, s, p, u, u', k, hp, hu, hgrows => by
    rw [actsOf]
    exact added_scalar hp hu hgrows
  | .bool b, s, p, u, u', k, hp, hu, hgrows => by
    rw [actsOf]
    exact added_scalar hp hu hgrows
  | .int n, s, p, u, u', k, hp, hu, hgrows => by
    rw [actsOf]
    exact added_scalar hp hu hgrows
  | .real q, s, p, u, u', k, hp, hu, hgrows => by
    rw [actsOf]
    exact added_scalar hp hu hgrows
  | .null, s, p, u, u', k, hp, hu, hgrows => by
    rw [actsOf]
    exact added_scalar hp hu hgrows

/-- The actions of members add these members, each behind the ones before, by recursion on them. -/
theorem foldl_members : (o : List (Str × Json)) → ∀ {s : State} {p : Position}
    {o₀ : List (Str × Json)}, s.current = some p → sub s.value p = some (.obj o₀) →
      Added s p (.obj (o₀ ++ o)) ((actsOfMembers o).foldl act s)
  | [], s, p, o₀, hp, hu => by
    rw [actsOfMembers, List.append_nil]
    exact { current := hp, stack := rfl, value := (put_self hu).symm }
  | (name, v) :: o, s, p, o₀, hp, hu => by
    have hfirst := foldl_actsOf v (s := { s with name := name }) hp hu (.obj o₀)
    have hsub : sub ((actsOf v).foldl act { s with name := name }).value p =
        some (.obj (o₀ ++ [(name, v)])) := by
      rw [hfirst.value]
      exact sub_put_self hu _
    have hrest := foldl_members o hfirst.current hsub
    have hsame : Added s p (.obj (o₀ ++ [(name, v)])) ((actsOf v).foldl act { s with name := name }) :=
      { current := hfirst.current, stack := hfirst.stack, value := hfirst.value }
    rw [actsOfMembers, List.foldl_cons, List.foldl_append]
    have hboth := hsame.trans hu hrest
    rw [List.append_assoc, List.singleton_append] at hboth
    exact hboth

/-- The actions of elements add these elements, in the same way. -/
theorem foldl_elements : (es : List Json) → ∀ {s : State} {p : Position} {es₀ : List Json},
    s.current = some p → sub s.value p = some (.arr es₀) →
      Added s p (.arr (es₀ ++ es)) ((actsOfElements es).foldl act s)
  | [], s, p, es₀, hp, hu => by
    rw [actsOfElements, List.append_nil]
    exact { current := hp, stack := rfl, value := (put_self hu).symm }
  | v :: es, s, p, es₀, hp, hu => by
    have hfirst := foldl_actsOf v (s := s) hp hu (.arr es₀)
    have hsub : sub ((actsOf v).foldl act s).value p = some (.arr (es₀ ++ [v])) := by
      rw [hfirst.value]
      exact sub_put_self hu _
    have hrest := foldl_elements es hfirst.current hsub
    rw [actsOfElements, List.foldl_append]
    have hboth := hfirst.trans hu hrest
    rw [List.append_assoc, List.singleton_append] at hboth
    exact hboth

end

/-- The actions of a value put it in the place of whatever was there. -/
theorem run_actsOf (v old : Json) : run (actsOf v) old = v := by
  cases v with
  | obj o =>
    have hfill : Added (addFirst (.obj []) ⟨old, none, [], []⟩) [] (.obj ([] ++ o)) _ :=
      foldl_members o rfl rfl
    rw [run, actsOf, List.foldl_cons, List.foldl_append]
    show (endCompound ((actsOfMembers o).foldl act (addFirst (.obj []) ⟨old, none, [], []⟩))).value
      = _
    rw [endCompound, if_pos hfill.current, hfill.value]
    rfl
  | arr es =>
    have hfill : Added (addFirst (.arr []) ⟨old, none, [], []⟩) [] (.arr ([] ++ es)) _ :=
      foldl_elements es rfl rfl
    rw [run, actsOf, List.foldl_cons, List.foldl_append]
    show (endCompound ((actsOfElements es).foldl act (addFirst (.arr []) ⟨old, none, [], []⟩))).value
      = _
    rw [endCompound, if_pos hfill.current, hfill.value]
    rfl
  | str s => rw [run, actsOf]; rfl
  | bool b => rw [run, actsOf]; rfl
  | int n => rw [run, actsOf]; rfl
  | real q => rw [run, actsOf]; rfl
  | null => rw [run, actsOf]; rfl

end SemanticActions

namespace JsonGrammar

variable {L : Scanner} {real : ℚ → Str}

/-- A value is read from its text, whatever it replaces and whatever is behind it. -/
theorem read_output (hL : L.Spirit) {g : Generator} {v : Json} (hv : Held (Kept L g.real) v)
    (level : ℕ) {rest : Str} (hrest : Delimited rest) (old : Json) :
    JsonObject.read L (g.output level v ++ rest) old = (v, true) := by
  have hvalue := value_output hL v hv level _ rest hrest (Nat.lt_succ_self _)
  have hjson : json L (g.output level v ++ rest) = ⟨actsOf v, .hit rest⟩ := alt_match_left hvalue
  rw [JsonObject.read, hjson, SemanticActions.run_actsOf]

theorem read_empty (hL : L.Spirit) (old : Json) :
    JsonObject.read L "{}".toList old = (.obj [], true) := by
  have hread := read_output hL (g := Generator.compact fun _ => []) (v := .obj [])
    (by rw [Held, HeldMembers]; trivial) 0 delimited_nil old
  exact hread

/-- What a document that was written is read back as: null is written as an empty object. -/
def readBack (v : Json) : Json := if v.isNull then .obj [] else v

/-- **JSON that is written is read back**, whether it was written on one line or over many, and
whatever was in the place it is read to. -/
theorem read_write (hL : L.Spirit) {v : Json} (hv : Held (Kept L real) v) (old : Json) :
    JsonObject.read L (JsonObject.write real v) old = (readBack v, true) ∧
      JsonObject.read L (JsonObject.writePretty real v) old = (readBack v, true) := by
  have hboth : ∀ g : Generator, g.real = real →
      JsonObject.read L (if v.isNull then "{}".toList else g.output 0 v) old =
        (readBack v, true) := by
    rintro g rfl
    rw [readBack]
    split
    · exact read_empty hL old
    · have hread := read_output hL hv 0 delimited_nil old
      rwa [List.append_nil] at hread
  constructor
  · rw [Generator.write_eq]
    exact hboth _ rfl
  · exact hboth _ rfl

/-- A configuration with a number, a half and a text in it. -/
def exampleConfig : Json :=
  .obj [("n".toList, .int (-7)), ("half".toList, .real (1 / 2)),
    ("names".toList, .arr [.str "a\"\nb".toList, .null, .obj []])]

/-- The example's real number is read from its text. -/
theorem real_half {rest : Str} (h : Delimited rest) :
    PlainScanner.real ("0.5".toList ++ rest) = some (1 / 2, rest) := by
  have htake : ('5' :: rest).takeWhile Char.isDigit = ['5'] := by
    rw [List.takeWhile_cons, if_pos (by decide), (PlainScanner.not_digit_of_delimited h).1]
  have hfirst : PlainScanner.digits ("0.5".toList ++ rest) = some (0, '.' :: '5' :: rest) := rfl
  have hsecond : PlainScanner.digits ('5' :: rest) = some (5, rest) :=
    PlainScanner.digits_toDigits 5 h
  have hsign : PlainScanner.real ("0.5".toList ++ rest) =
      PlainScanner.decimals ("0.5".toList ++ rest) := rfl
  rw [hsign, PlainScanner.decimals, hfirst]
  simp only [hsecond, Option.map_some, htake]
  norm_num

/-- A document with every kind of value, in both layouts. -/
theorem read_write_exampleConfig :
    JsonObject.read plainScanner (JsonObject.write (fun _ => "0.5".toList) exampleConfig) .null =
        (readBack exampleConfig, true) ∧
      JsonObject.read plainScanner
        (JsonObject.writePretty (fun _ => "0.5".toList) exampleConfig) .null =
        (readBack exampleConfig, true) := by
  have hhalf : Kept plainScanner (fun _ => "0.5".toList) (1 / 2) := by
    refine ⟨⟨'0', ".5".toList, rfl, rfl⟩, fun rest hrest => ?_⟩
    exact real_half hrest
  refine read_write spirit_plainScanner ?_ .null
  simp only [exampleConfig, Held, HeldMembers, HeldElements, and_true]
  refine ⟨by simp, by decide, by simp, hhalf, by simp, by simp⟩

end JsonGrammar

end Skweltch
