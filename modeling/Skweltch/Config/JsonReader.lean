import Skweltch.Config.PathUpdate
import Skweltch.Lib.ActionParser

/-!
# Skweltch — reading JSON

`JsonObject::read` (`config/JsonObject.cpp`) and the reader of `json_spirit` that it calls
(`json_spirit_reader_template.h`): a grammar whose semantic actions build the value in the place
of the one that was there. What Boost.Spirit reads for the grammar (white space and comments,
strings with their quotes, numbers) is given by a `Scanner`.

A text that cannot be read leaves the old value alone if no object or array begins in it, and what
was built so far in its place otherwise (`read_cases`).
-/

namespace Skweltch

open Subtrees ActionParser

/-- The primitives of the grammar, on a text: what was matched and what remains. -/
structure Scanner where
  /-- `space_p | comment_p("//") | comment_p("/*", "*/")` -/
  skip : Str → Str
  /-- `lexeme_d[confix_p('"', *lex_escape_ch_p, '"')]`, with the quotes -/
  string : Str → Option (Str × Str)
  real : Str → Option (ℚ × Str)
  int64 : Str → Option (Int × Str)
  uint64 : Str → Option (Int × Str)
  skip_le : ∀ s, (skip s).length ≤ s.length
  string_lt : ∀ s t rest, string s = some (t, rest) → rest.length < s.length
  real_lt : ∀ s q rest, real s = some (q, rest) → rest.length < s.length
  int64_lt : ∀ s n rest, int64 s = some (n, rest) → rest.length < s.length
  uint64_lt : ∀ s n rest, uint64 s = some (n, rest) → rest.length < s.length

/-- What the semantic actions are called with. -/
inductive Act where
  | beginObj
  | endObj
  | beginArray
  | endArray
  | newName (name : Str)
  /-- `new_str`, `new_true`, `new_false`, `new_null`, `new_int`, `new_uint64`, `new_real` -/
  | newValue (v : Json)
deriving Repr

/-! ## Semantic actions

A pointer into the value is a position. -/

namespace SemanticActions

open Json

structure State where
  value : Json
  current : Option Position
  stack : List Position
  name : Str

def addFirst (v : Json) (s : State) : State := { s with value := v, current := some [] }

/-- `add_to_current`, with the pointer it returns. -/
def addToCurrent (v : Json) (s : State) : State × Option Position :=
  match s.current with
  | none => (addFirst v s, some [])
  | some p =>
    match sub s.value p with
    | some (.arr es) =>
      ({ s with value := put s.value p (.arr (es ++ [v])) }, some (p ++ [es.length]))
    | some (.obj o) =>
      ({ s with value := put s.value p (.obj (o ++ [(s.name, v)])) }, some (p ++ [o.length]))
    | _ => (s, s.current)

def beginCompound (v : Json) (s : State) : State :=
  match s.current with
  | none => addFirst v s
  | some p =>
    { (addToCurrent v s).1 with stack := p :: s.stack, current := (addToCurrent v s).2 }

def endCompound (s : State) : State :=
  if s.current = some [] then s
  else { s with current := s.stack.head?, stack := s.stack.tail }

def act (s : State) : Act → State
  | .beginObj => beginCompound (.obj []) s
  | .endObj => endCompound s
  | .beginArray => beginCompound (.arr []) s
  | .endArray => endCompound s
  | .newName name => { s with name := name }
  | .newValue v => (addToCurrent v s).1

/-- What becomes of the value that the actions are given. -/
def run (acts : List Act) (value : Json) : Json :=
  (acts.foldl act { value := value, current := none, stack := [], name := [] }).value

end SemanticActions

/-! ## Strings

What stands between the quotes is unescaped while it is copied. -/

namespace JsonString

def hexToNum (c : Char) : Nat := (NumText.hexVal c).getD 0

/-- The character after a backslash; one that is not known is dropped. -/
def escChar : Char → Str
  | 't' => ['\t']
  | 'b' => [Char.ofNat 8]
  | 'f' => [Char.ofNat 12]
  | 'n' => ['\n']
  | 'r' => ['\r']
  | '\\' => ['\\']
  | '/' => ['/']
  | '"' => ['"']
  | _ => []

/-- `substitute_esc_chars`: a `char` keeps the low byte of four digits. -/
def substituteEscChars : Str → Str
  | '\\' :: 'x' :: c₁ :: c₂ :: rest =>
    Char.ofNat (16 * hexToNum c₁ + hexToNum c₂) :: substituteEscChars rest
  | '\\' :: 'u' :: _ :: _ :: c₃ :: c₄ :: rest =>
    Char.ofNat (16 * hexToNum c₃ + hexToNum c₄) :: substituteEscChars rest
  | '\\' :: c :: rest => escChar c ++ substituteEscChars rest
  | c :: rest => c :: substituteEscChars rest
  | [] => []

/-- `get_str`, on a string with its quotes. -/
def getStr (lexeme : Str) : Str := substituteEscChars (lexeme.drop 1).dropLast

end JsonString

/-! ## The grammar

The grammar of the parser with its actions. Actions are done while the text is matched and are not
undone when it is not. -/

namespace JsonGrammar

variable (L : Scanner)

def ch (c : Char) (acts : List Act) : Parser Act :=
  piece fun s =>
    match L.skip s with
    | d :: rest => if d = c then some (acts, rest) else none
    | [] => none

/-- `str_p(word)[act]` -/
def word (word : Str) (act : Act) : Parser Act :=
  piece fun s =>
    if word <+: L.skip s then some ([act], (L.skip s).drop word.length) else none

def string (act : Str → Act) : Parser Act :=
  piece fun s => (L.string (L.skip s)).map fun p => ([act (JsonString.getStr p.1)], p.2)

def number : Parser Act :=
  alt (piece fun s => (L.real (L.skip s)).map fun p => ([.newValue (.real p.1)], p.2))
    (alt (piece fun s => (L.int64 (L.skip s)).map fun p => ([.newValue (.int p.1)], p.2))
      (piece fun s => (L.uint64 (L.skip s)).map fun p => ([.newValue (.int p.1)], p.2)))

def pair (value : Parser Act) : Parser Act :=
  seq (string L .newName)
    (seq (alt (ch L ':' []) (throws "no colon in pair")) (alt value (throws "not a value")))

def members (value : Parser Act) (n : Nat) : Parser Act :=
  seq (pair L value) (many (seq (ch L ',' []) (pair L value)) n)

def object (value : Parser Act) (n : Nat) : Parser Act :=
  seq (ch L '{' [.beginObj])
    (seq (opt (members L value n)) (alt (ch L '}' [.endObj]) (throws "not an object")))

def elements (value : Parser Act) (n : Nat) : Parser Act :=
  seq value (many (seq (ch L ',' []) value) n)

def array (value : Parser Act) (n : Nat) : Parser Act :=
  seq (ch L '[' [.beginArray])
    (seq (opt (elements L value n)) (alt (ch L ']' [.endArray]) (throws "not an array")))

def words : Parser Act :=
  alt (word L "true".toList (.newValue (.bool true)))
    (alt (word L "false".toList (.newValue (.bool false)))
      (word L "null".toList (.newValue .null)))

def value : Nat → Parser Act
  | 0 => spent
  | n + 1 =>
    alt (string L fun s => .newValue (.str s))
      (alt (number L) (alt (object L (value n) n) (alt (array L (value n) n) (words L))))

/-- The grammar, with fuel for every text. -/
def json : Parser Act := fun text => alt (value L (text.length + 1)) (throws "not a value") text

end JsonGrammar

/-- `JsonObject::read`: what is left in the value, and whether the text could be read. What is
behind the first value is not looked at. -/
def JsonObject.read (L : Scanner) (text : Str) (v : Json) : Json × Bool :=
  (SemanticActions.run (JsonGrammar.json L text).acts v,
    match (JsonGrammar.json L text).outcome with
    | .hit _ => true
    | _ => false)

namespace JsonGrammar

variable {L : Scanner} {v : Parser Act} {n : Nat}

/-! ## Enough fuel

The grammar is recursive in the values of an object and an array. As each of them takes at least one
character, as much fuel as the text is long is enough. -/

/-- A mark takes its own character. -/
theorem eats_ch (c : Char) (acts : List Act) : Eats (ch L c acts) := by
  refine eats_piece fun s acts' rest h => ?_
  have hskip := L.skip_le s
  split at h
  · next d rest' hs =>
    split at h
    · obtain ⟨-, rfl⟩ := Prod.mk.inj (Option.some.inj h)
      rw [hs, List.length_cons] at hskip
      omega
    · cases h
  · cases h

/-- A word takes its own characters, of which there are some. -/
theorem eats_word {w : Str} (hw : w ≠ []) (act : Act) : Eats (word L w act) := by
  refine eats_piece fun s acts rest h => ?_
  have hskip := L.skip_le s
  split at h
  · next hprefix =>
    obtain ⟨-, rfl⟩ := Prod.mk.inj (Option.some.inj h)
    have hlen := hprefix.length_le
    have hpos := List.length_pos_iff.mpr hw
    rw [List.length_drop]
    omega
  · cases h

/-- A piece that a primitive reads takes something if the primitive does. -/
theorem eats_read {β : Type} {read : Str → Option (β × Str)}
    (h : ∀ s b rest, read s = some (b, rest) → rest.length < s.length) (act : β → Act) :
    Eats (piece fun s => (read (L.skip s)).map fun p => ([act p.1], p.2)) := by
  refine eats_piece fun s acts rest hs => ?_
  obtain ⟨⟨b, rest'⟩, hread, heq⟩ := Option.map_eq_some_iff.mp hs
  obtain ⟨-, rfl⟩ := Prod.mk.inj heq
  exact (h _ _ _ hread).trans_le (L.skip_le s)

theorem eats_string (act : Str → Act) : Eats (string L act) :=
  eats_read (β := Str) L.string_lt fun t => act (JsonString.getStr t)

theorem eats_number : Eats (number L) :=
  eats_alt (eats_read L.real_lt fun q => .newValue (.real q))
    (eats_alt (eats_read L.int64_lt fun n => .newValue (.int n))
      (eats_read L.uint64_lt fun n => .newValue (.int n)))

theorem eats_words : Eats (words L) :=
  eats_alt (eats_word (by decide) _) (eats_alt (eats_word (by decide) _) (eats_word (by decide) _))

theorem eats_pair (hv : Eats v) : Eats (pair L v) :=
  eats_seq_left (eats_string _)
    (shrinks_seq (shrinks_alt (eats_ch _ _).shrinks (eats_throws _).shrinks)
      (shrinks_alt hv.shrinks (eats_throws _).shrinks))

theorem shrinks_members (hv : Eats v) : Shrinks (members L v n) :=
  shrinks_seq (eats_pair hv).shrinks
    (shrinks_many (shrinks_seq (eats_ch _ _).shrinks (eats_pair hv).shrinks))

theorem shrinks_elements (hv : Eats v) : Shrinks (elements L v n) :=
  shrinks_seq hv.shrinks (shrinks_many (shrinks_seq (eats_ch _ _).shrinks hv.shrinks))

theorem eats_object (hv : Eats v) : Eats (object L v n) :=
  eats_seq_left (eats_ch _ _) (shrinks_seq (shrinks_opt (shrinks_members hv))
    (shrinks_alt (eats_ch _ _).shrinks (eats_throws _).shrinks))

theorem eats_array (hv : Eats v) : Eats (array L v n) :=
  eats_seq_left (eats_ch _ _) (shrinks_seq (shrinks_opt (shrinks_elements hv))
    (shrinks_alt (eats_ch _ _).shrinks (eats_throws _).shrinks))

theorem eats_value (n : Nat) : Eats (value L n) := by
  induction n with
  | zero => exact eats_spent
  | succ n ih =>
    exact eats_alt (eats_string _) (eats_alt eats_number
      (eats_alt (eats_object ih) (eats_alt (eats_array ih) eats_words)))

theorem fits_number : Fits n (number L) :=
  fits_alt (fits_piece _) (fits_alt (fits_piece _) (fits_piece _))

theorem fits_words : Fits n (words L) :=
  fits_alt (fits_piece _) (fits_alt (fits_piece _) (fits_piece _))

theorem fits_pair (hv : Fits n v) : Fits n (pair L v) :=
  fits_seq (fits_piece _) (eats_string _).shrinks
    (fits_seq (fits_alt (fits_piece _) (fits_throws _))
      (shrinks_alt (eats_ch _ _).shrinks (eats_throws _).shrinks)
      (fits_alt hv (fits_throws _)))

theorem fits_members (hv : Fits n v) (heats : Eats v) : Fits n (members L v n) :=
  fits_seq (fits_pair hv) (eats_pair heats).shrinks
    (fits_many (fits_seq (fits_piece _) (eats_ch _ _).shrinks (fits_pair hv))
      (eats_seq_left (eats_ch _ _) (eats_pair heats).shrinks))

theorem fits_elements (hv : Fits n v) (heats : Eats v) : Fits n (elements L v n) :=
  fits_seq hv heats.shrinks
    (fits_many (fits_seq (fits_piece _) (eats_ch _ _).shrinks hv)
      (eats_seq_left (eats_ch _ _) heats.shrinks))

/-- What is inside the brackets is shorter than the whole by the bracket. -/
theorem fits_object (hv : Fits n v) (heats : Eats v) : Fits (n + 1) (object L v n) :=
  fits_seq_eats (fits_piece _) (eats_ch _ _)
    (fits_seq (fits_opt (fits_members hv heats)) (shrinks_opt (shrinks_members heats))
      (fits_alt (fits_piece _) (fits_throws _)))

theorem fits_array (hv : Fits n v) (heats : Eats v) : Fits (n + 1) (array L v n) :=
  fits_seq_eats (fits_piece _) (eats_ch _ _)
    (fits_seq (fits_opt (fits_elements hv heats)) (shrinks_opt (shrinks_elements heats))
      (fits_alt (fits_piece _) (fits_throws _)))

/-- As much fuel as there are characters is enough for a value, by induction on the fuel. -/
theorem fits_value (n : Nat) : Fits n (value L n) := by
  induction n with
  | zero => exact fun s hs => absurd hs (Nat.not_lt_zero _)
  | succ n ih =>
    exact fits_alt (fits_piece _) (fits_alt fits_number
      (fits_alt (fits_object ih (eats_value n))
        (fits_alt (fits_array ih (eats_value n)) fits_words)))

/-- Every text is read to an end: it matches or something is thrown. -/
theorem json_ends (L : Scanner) (text : Str) :
    (∃ rest, (json L text).outcome = .hit rest) ∨
      ∃ reason, (json L text).outcome = .threw reason := by
  have hfits : (json L text).outcome ≠ .spent :=
    fits_alt (fits_value (text.length + 1)) (fits_throws _) text (Nat.lt_succ_self _)
  have hmiss : (json L text).outcome ≠ .miss := by
    unfold json
    by_cases h : (value L (text.length + 1) text).outcome = .miss
    · rw [alt_miss h]
      simp [throws]
    · rw [alt_of_not_miss h]
      exact h
  cases h : (json L text).outcome with
  | hit rest => exact Or.inl ⟨rest, rfl⟩
  | threw reason => exact Or.inr ⟨reason, rfl⟩
  | miss => exact absurd h hmiss
  | spent => exact absurd h hfits

/-! ## Where a failing text leaves the value

A text that does not parse may have been read in part. Then the value is what was built so far, and
it is not null. -/

/-- The text is read, as far as its first value goes. -/
def Parses (L : Scanner) (text : Str) : Prop := ∃ rest, (json L text).outcome = .hit rest

/-- An object or an array begins in the text. -/
def Begins (L : Scanner) (text : Str) : Prop :=
  ∃ rest, L.skip text = '{' :: rest ∨ L.skip text = '[' :: rest

/-- The actions begin a new object or array. -/
def Fresh (acts : List Act) : Prop :=
  ∃ rest, acts = .beginObj :: rest ∨ acts = .beginArray :: rest

/-- Behind a mark that is there, its actions are done, whatever comes of the rest. -/
theorem seq_ch_hit {c : Char} {s rest : Str} (h : L.skip s = c :: rest) (acts : List Act)
    (q : Parser Act) : ∃ acts', (seq (ch L c acts) q s).acts = acts ++ acts' := by
  have hch : ch L c acts s = ⟨acts, .hit rest⟩ := by
    rw [ch, piece, h]
    simp
  exact ⟨_, by rw [seq_hit (by rw [hch]), hch]⟩

/-- If the mark is not there, nothing is done. -/
theorem seq_ch_miss {c : Char} {s : Str} (h : ∀ rest, L.skip s ≠ c :: rest) (acts : List Act)
    (q : Parser Act) : seq (ch L c acts) q s = ⟨[], .miss⟩ := by
  have hch : ch L c acts s = ⟨[], .miss⟩ := by
    rw [ch, piece]
    cases hs : L.skip s with
    | nil => rfl
    | cons d rest =>
      have hne : d ≠ c := fun heq => h rest (heq ▸ hs)
      simp [hne]
  rw [seq_of_not_hit (by simp [hch]), hch]

theorem atomic_string (act : Str → Act) : Atomic (string L act) := atomic_piece _

theorem atomic_number : Atomic (number L) :=
  atomic_alt (atomic_piece _) (atomic_alt (atomic_piece _) (atomic_piece _))

theorem atomic_words : Atomic (words L) :=
  atomic_alt (atomic_piece _) (atomic_alt (atomic_piece _) (atomic_piece _))

/-- A value that does not match has done something exactly if an object or an array begins. -/
theorem value_acts {s : Str} (h : ∀ rest, (value L (n + 1) s).outcome ≠ .hit rest) :
    (Begins L s ∧ Fresh (value L (n + 1) s).acts) ∨
      ¬ Begins L s ∧ (value L (n + 1) s).acts = [] := by
  rw [value] at h ⊢
  -- strings and numbers leave nothing behind when they do not match
  have hstring := alt_of_atomic (atomic_string _) h
  rw [hstring] at h ⊢
  have hnumber := alt_of_atomic atomic_number h
  rw [hnumber] at h ⊢
  by_cases hobj : ∃ rest, L.skip s = '{' :: rest
  · obtain ⟨rest, hs⟩ := hobj
    obtain ⟨acts, hacts⟩ := acts_alt (object L (value L n) n)
      (alt (array L (value L n) n) (words L)) s
    obtain ⟨acts', hacts'⟩ := seq_ch_hit hs [.beginObj]
      (seq (opt (members L (value L n) n)) (alt (ch L '}' [.endObj]) (throws "not an object")))
    refine Or.inl ⟨⟨rest, Or.inl hs⟩, ?_⟩
    rw [hacts, object, hacts']
    exact ⟨_, Or.inl rfl⟩
  · -- no brace: the object does not match either, and has done nothing
    have hmiss : object L (value L n) n s = ⟨[], .miss⟩ := seq_ch_miss (not_exists.mp hobj) _ _
    rw [alt_miss (by rw [hmiss]), hmiss, List.nil_append] at h ⊢
    by_cases harr : ∃ rest, L.skip s = '[' :: rest
    · obtain ⟨rest, hs⟩ := harr
      obtain ⟨acts, hacts⟩ := acts_alt (array L (value L n) n) (words L) s
      obtain ⟨acts', hacts'⟩ := seq_ch_hit hs [.beginArray]
        (seq (opt (elements L (value L n) n)) (alt (ch L ']' [.endArray]) (throws "not an array")))
      refine Or.inl ⟨⟨rest, Or.inr hs⟩, ?_⟩
      rw [hacts, array, hacts']
      exact ⟨_, Or.inr rfl⟩
    · have hmiss' : array L (value L n) n s = ⟨[], .miss⟩ := seq_ch_miss (not_exists.mp harr) _ _
      rw [alt_miss (by rw [hmiss']), hmiss', List.nil_append] at h ⊢
      refine Or.inr ⟨?_, ?_⟩
      · rintro ⟨rest, hs | hs⟩
        · exact hobj ⟨rest, hs⟩
        · exact harr ⟨rest, hs⟩
      · rcases atomic_words s with ⟨rest, hs⟩ | hs
        · exact absurd hs (h rest)
        · rw [hs]

/-- The actions of a text that does not parse: none, or those of an object or an array that has been
begun. -/
theorem json_acts {text : Str} (h : ¬ Parses L text) :
    (Begins L text ∧ Fresh (json L text).acts) ∨ ¬ Begins L text ∧ (json L text).acts = [] := by
  have hvalue : ∀ rest, (value L (text.length + 1) text).outcome ≠ .hit rest := by
    intro rest hs
    refine h ⟨rest, ?_⟩
    unfold json
    rw [alt_of_not_miss (by simp [hs]), hs]
  have hacts : (json L text).acts = (value L (text.length + 1) text).acts := by
    unfold json
    by_cases hmiss : (value L (text.length + 1) text).outcome = .miss
    · rw [alt_miss hmiss]
      simp [throws]
    · rw [alt_of_not_miss hmiss]
  rw [hacts]
  exact value_acts hvalue

end JsonGrammar

namespace SemanticActions

open Json

/-- What is put below a value does not make it null. -/
theorem isNull_put {v u : Json} (p : Position) (hv : v.isNull = false) (hu : u.isNull = false) :
    (put v p u).isNull = false := by
  cases p with
  | nil => exact hu
  | cons i p =>
    cases v with
    | obj o => rfl
    | arr es => rfl
    | _ => exact hv

/-- A value is being built; the pointers to go back to end at the value itself. -/
def Building (s : State) : Prop :=
  s.value.isNull = false ∧ ∃ p, s.current = some p ∧ (p :: s.stack).getLast? = some []

/-- Adding a value keeps the building going, and says where the value went. -/
theorem addToCurrent_building {s : State} (h : Building s) (v : Json) :
    Building (addToCurrent v s).1 ∧ (addToCurrent v s).1.stack = s.stack ∧
      ∃ q, (addToCurrent v s).2 = some q := by
  obtain ⟨hvalue, p, hp, hlast⟩ := h
  unfold addToCurrent
  rw [hp]
  simp only
  split
  · exact ⟨⟨isNull_put p hvalue rfl, p, rfl, hlast⟩, rfl, _, rfl⟩
  · exact ⟨⟨isNull_put p hvalue rfl, p, rfl, hlast⟩, rfl, _, rfl⟩
  · exact ⟨⟨hvalue, p, hp, hlast⟩, rfl, _, rfl⟩

/-- The beginning of an object or an array keeps the building going. -/
theorem beginCompound_building {s : State} (h : Building s) (v : Json) :
    Building (beginCompound v s) := by
  obtain ⟨⟨hvalue, -⟩, -, q, hq⟩ := addToCurrent_building h v
  obtain ⟨-, p, hp, hlast⟩ := h
  unfold beginCompound
  rw [hp]
  refine ⟨hvalue, q, hq, ?_⟩
  rw [List.getLast?_cons_cons]
  exact hlast

/-- The end of an object or an array keeps the building going. -/
theorem endCompound_building {s : State} (h : Building s) : Building (endCompound s) := by
  unfold endCompound
  split
  · exact h
  · next hne =>
    obtain ⟨hvalue, p, hp, hlast⟩ := h
    -- an empty stack is that of the outermost value, where the pointer is not moved
    cases hstack : s.stack with
    | nil =>
      rw [hstack] at hlast
      rw [hp] at hne
      exact absurd (congrArg some (Option.some.inj hlast)) hne
    | cons p' stack =>
      rw [hstack, List.getLast?_cons_cons] at hlast
      exact ⟨hvalue, p', rfl, hlast⟩

theorem act_building {s : State} (h : Building s) (a : Act) : Building (act s a) := by
  cases a with
  | beginObj => exact beginCompound_building h _
  | endObj => exact endCompound_building h
  | beginArray => exact beginCompound_building h _
  | endArray => exact endCompound_building h
  | newName name => exact h
  | newValue v => exact (addToCurrent_building h v).1

theorem foldl_building {acts : List Act} {s : State} (h : Building s) :
    Building (acts.foldl act s) := by
  induction acts generalizing s with
  | nil => exact h
  | cons a acts ih => exact ih (act_building h a)

/-- Once an object or an array has begun, it stands where the old value was. -/
theorem run_fresh {acts : List Act} (h : JsonGrammar.Fresh acts) (v : Json) :
    (run acts v).isNull = false := by
  obtain ⟨rest, rfl | rfl⟩ := h
  · have hbegin : Building (beginCompound (.obj [])
        { value := v, current := none, stack := [], name := [] }) := ⟨rfl, [], rfl, rfl⟩
    exact (foldl_building hbegin).1
  · have hbegin : Building (beginCompound (.arr [])
        { value := v, current := none, stack := [], name := [] }) := ⟨rfl, [], rfl, rfl⟩
    exact (foldl_building hbegin).1

end SemanticActions

namespace JsonGrammar

/-- **Reading.** A text is read, or something is thrown before an object or array begins in it and
the value is what it was, or something is thrown later and the value is gone. -/
theorem read_cases (L : Scanner) (text : Str) (v : Json) :
    (Parses L text ∧ (JsonObject.read L text v).2 = true) ∨
    (¬ Parses L text ∧ ¬ Begins L text ∧ JsonObject.read L text v = (v, false)) ∨
    (¬ Parses L text ∧ Begins L text ∧ (JsonObject.read L text v).2 = false ∧
      (JsonObject.read L text v).1.isNull = false) := by
  rcases json_ends L text with ⟨rest, hhit⟩ | ⟨reason, hthrew⟩
  · refine Or.inl ⟨⟨rest, hhit⟩, ?_⟩
    rw [JsonObject.read, hhit]
  · have hno : ¬ Parses L text := by
      rintro ⟨rest, hhit⟩
      rw [hthrew] at hhit
      cases hhit
    rcases json_acts hno with ⟨hbegins, hfresh⟩ | ⟨hbegins, hacts⟩
    · refine Or.inr (Or.inr ⟨hno, hbegins, ?_, SemanticActions.run_fresh hfresh v⟩)
      rw [JsonObject.read, hthrew]
    · refine Or.inr (Or.inl ⟨hno, hbegins, ?_⟩)
      rw [JsonObject.read, hthrew, hacts]
      rfl

end JsonGrammar

end Skweltch
