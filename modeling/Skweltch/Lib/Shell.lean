import Mathlib.Data.List.TakeWhile
import Mathlib.Tactic

/-!
# Shell — how a POSIX shell reads a simple command

A command line is cut into words at blanks, quotes are removed, and every word is replaced by the
pathnames it matches as a pattern, if there are any; assignments stand in front of the program. A
line that makes the shell do anything else (an operator, an expansion of a parameter or a command, a
comment, a tilde, a line that goes on, an unterminated quote, a reserved word in front) is no simple
command here. Bracket expressions have ranges and negation, not character classes.

What a program is given behind other text depends on how the shell takes that text. `HandsOn` is the
text that leaves the rest of the line to be the arguments of a program, for any shell that splits
and expands them as above; `call_iff` says which arguments get through then.
-/

namespace Shell

/-- A character and whether it was quoted. -/
abbrev Mark := Char × Bool

abbrev Word := List Mark

def text (w : Word) : List Char := w.map Prod.fst

def unquoted (s : List Char) : Word := s.map fun c => (c, false)

def inQuotes (s : List Char) : Word := s.map fun c => (c, true)

@[simp] theorem text_unquoted (s : List Char) : text (unquoted s) = s := by
  simp [text, unquoted, Function.comp_def]

@[simp] theorem text_inQuotes (s : List Char) : text (inQuotes s) = s := by
  simp [text, inQuotes, Function.comp_def]

/-! ## Words

A line is cut into words at blanks outside of quotes. A mark is a character with whether it was
quoted, which patterns and reserved words depend on. -/

/-- Where in its quoting the shell is. -/
inductive Quote where
  | plain
  | single
  | double
  /-- behind a backslash -/
  | escape
  /-- behind a backslash in double quotes -/
  | doubleEscape
deriving DecidableEq, Repr

/-- What a character does: it stands for marks of the word and leads to a quoting, it cuts the
word, or the line is no simple command. -/
inductive Move where
  | put (ms : Word) (q : Quote)
  | cut
  | stop
deriving DecidableEq, Repr

def isBlank (c : Char) : Bool := c = ' ' || c = '\t'

def isOperator (c : Char) : Bool := c ∈ ['\n', '|', '&', ';', '<', '>', '(', ')', '$', '\x60']

def isLeader (c : Char) : Bool := c = '#' || c = '~'

def move : Quote → Bool → Char → Move
  | .plain, inWord, c =>
    if isBlank c then .cut
    else if c = '\'' then .put [] .single
    else if c = '"' then .put [] .double
    else if c = '\\' then .put [] .escape
    else if isOperator c || (!inWord && isLeader c) then .stop
    else .put [(c, false)] .plain
  | .single, _, c => if c = '\'' then .put [] .plain else .put [(c, true)] .single
  | .double, _, c =>
    if c = '"' then .put [] .plain
    else if c = '\\' then .put [] .doubleEscape
    else if c = '$' || c = '\x60' then .stop
    else .put [(c, true)] .double
  | .escape, _, c => if c = '\n' then .stop else .put [(c, true)] .plain
  | .doubleEscape, _, c =>
    if c ∈ ['$', '\x60', '"', '\\'] then .put [(c, true)] .double
    else if c = '\n' then .put [] .double
    else .put [('\\', true), (c, true)] .double

def push (ms : Word) : List Word → List Word
  | [] => [ms]
  | w :: ws => (ms ++ w) :: ws

/-- The words of the rest of a line; inside a word the first of them is the rest of that word. -/
def words : Quote → Bool → List Char → Option (List Word)
  | .plain, inWord, [] => some (if inWord then [[]] else [])
  | _, _, [] => none
  | q, inWord, c :: cs =>
    match move q inWord c with
    | .put ms q' => (words q' true cs).map (push ms)
    | .cut => (words .plain false cs).map fun ws => if inWord then [] :: ws else ws
    | .stop => none

theorem words_cons (q : Quote) (inWord : Bool) (c : Char) (cs : List Char) :
    words q inWord (c :: cs) =
      match move q inWord c with
      | .put ms q' => (words q' true cs).map (push ms)
      | .cut => (words .plain false cs).map fun ws => if inWord then [] :: ws else ws
      | .stop => none := by
  cases q <;> rfl

theorem push_push (ms ms' : Word) (ws : List Word) :
    push ms (push ms' ws) = push (ms ++ ms') ws := by
  cases ws with
  | nil => rfl
  | cons w ws => simp [push]

theorem push_ne_nil (ms : Word) (ws : List Word) : push ms ws ≠ [] := by
  cases ws <;> simp [push]

theorem push_append {ws : List Word} (h : ws ≠ []) (ms : Word) (ws' : List Word) :
    push ms (ws ++ ws') = push ms ws ++ ws' := by
  obtain ⟨w, ws, rfl⟩ := List.exists_cons_of_ne_nil h
  rfl

/-- Inside a word there is at least that one. -/
theorem words_ne_nil {q : Quote} {s : List Char} {ws : List Word} (h : words q true s = some ws) :
    ws ≠ [] := by
  cases s with
  | nil =>
    cases q with
    | plain =>
      obtain rfl := Option.some.inj h
      simp
    | _ => cases h
  | cons c cs =>
    rw [words_cons] at h
    split at h
    · obtain ⟨ws', -, rfl⟩ := Option.map_eq_some_iff.mp h
      exact push_ne_nil _ _
    · obtain ⟨ws', -, rfl⟩ := Option.map_eq_some_iff.mp h
      simp
    · cases h

theorem words_put {q q' : Quote} {inWord : Bool} {c : Char} {ms : Word}
    (h : move q inWord c = .put ms q') (cs : List Char) :
    words q inWord (c :: cs) = (words q' true cs).map (push ms) := by
  rw [words_cons, h]

theorem words_cut {q : Quote} {inWord : Bool} {c : Char} (h : move q inWord c = .cut)
    (cs : List Char) :
    words q inWord (c :: cs) =
      (words .plain false cs).map fun ws => if inWord then [] :: ws else ws := by
  rw [words_cons, h]

/-- The converse of `words_put` for the first word. -/
theorem of_words_put {q q' : Quote} {inWord : Bool} {c : Char} {cs : List Char} {ms u : Word}
    {ws : List Word} (hmove : move q inWord c = .put ms q')
    (h : words q inWord (c :: cs) = some (u :: ws)) :
    ∃ v, words q' true cs = some (v :: ws) ∧ u = ms ++ v := by
  rw [words_put hmove] at h
  obtain ⟨ws', hws', hpush⟩ := Option.map_eq_some_iff.mp h
  obtain ⟨v, vs, rfl⟩ := List.exists_cons_of_ne_nil (words_ne_nil hws')
  obtain ⟨rfl, rfl⟩ := List.cons.inj hpush
  exact ⟨v, hws', rfl⟩

theorem of_words_cut {q : Quote} {c : Char} {cs : List Char} {u : Word} {ws : List Word}
    (hmove : move q true c = .cut) (h : words q true (c :: cs) = some (u :: ws)) : u = [] := by
  rw [words_cut hmove] at h
  obtain ⟨ws', -, hws'⟩ := Option.map_eq_some_iff.mp h
  exact (List.cons.inj hws').1.symm

/-- A blank cuts what stands before it from what follows. -/
theorem words_append_blank {q : Quote} {inWord : Bool} {s : List Char} {ws : List Word}
    (h : words q inWord s = some ws) (rest : List Char) :
    words q inWord (s ++ ' ' :: rest) = (words .plain false rest).map (ws ++ ·) := by
  induction s generalizing q inWord ws with
  | nil =>
    cases q with
    | plain =>
      obtain rfl := Option.some.inj h
      cases inWord <;> rfl
    | _ => cases h
  | cons c cs ih =>
    rw [List.cons_append, words_cons]
    rw [words_cons] at h
    cases hmove : move q inWord c with
    -- a mark goes into the first word, in both lines
    | put ms q' =>
      rw [hmove] at h
      obtain ⟨ws', hws', rfl⟩ := Option.map_eq_some_iff.mp h
      simp only
      rw [ih hws', Option.map_map]
      congr 1
      funext x
      exact push_append (words_ne_nil hws') ms x
    | cut =>
      rw [hmove] at h
      obtain ⟨ws', hws', rfl⟩ := Option.map_eq_some_iff.mp h
      simp only
      rw [ih hws', Option.map_map]
      congr 1
      funext x
      cases inWord <;> rfl
    | stop =>
      rw [hmove] at h
      cases h

/-- Up to the closing quote nothing has a meaning of its own. -/
theorem words_single {s : List Char} (h : '\'' ∉ s) (rest : List Char) :
    words .single true (s ++ '\'' :: rest) =
      (words .plain true rest).map (push (inQuotes s)) := by
  induction s with
  | nil => rfl
  | cons c s ih =>
    have hc : '\'' ≠ c := fun heq => h (heq ▸ List.mem_cons_self ..)
    have hs : '\'' ∉ s := fun hmem => h (List.mem_cons_of_mem c hmem)
    have hmove : move .single true c = .put [(c, true)] .single := by
      rw [move, if_neg (Ne.symm hc)]
    rw [List.cons_append, words_put hmove, ih hs, Option.map_map]
    congr 1
    funext x
    exact push_push _ _ x

/-- What is put in single quotes and has none is read as it is. -/
theorem words_quoted {s : List Char} (h : '\'' ∉ s) (inWord : Bool) (rest : List Char) :
    words .plain inWord ('\'' :: (s ++ '\'' :: rest)) =
      (words .plain true rest).map (push (inQuotes s)) := by
  have hmove : move .plain inWord '\'' = .put [] .single := rfl
  rw [words_put hmove, words_single h, Option.map_map]
  congr 1
  funext x
  exact push_push _ _ x

/-- With a blank behind it, what is quoted is a word of its own. -/
theorem words_quoted_blank {s : List Char} (h : '\'' ∉ s) (rest : List Char) :
    words .plain false ('\'' :: (s ++ '\'' :: ' ' :: rest)) =
      (words .plain false rest).map (inQuotes s :: ·) := by
  have hmove : move .plain true ' ' = .cut := rfl
  rw [words_quoted h, words_cut hmove, Option.map_map]
  congr 1
  funext x
  show push (inQuotes s) ([] :: x) = _
  rw [push, List.append_nil]

/-! ## What reading a line costs

Quotes and blanks are lost. How many characters a line has beyond what its words keep bounds the
quoting it can have. -/

def isQuoting (c : Char) : Bool := c = '\'' || c = '"' || c = '\\'

/-- An open quote has to be closed. -/
def Quote.open : Quote → Nat
  | .single | .double => 1
  | _ => 0

theorem open_plain : Quote.plain.open = 0 := rfl

/-- With `n` characters to lose, what the words can have. -/
def Bounds (q : Quote) (n : Nat) (ws : List Word) : Prop :=
  match q with
  | .plain =>
    (n = 0 → ∀ m ∈ ws.flatten, m.2 = false ∧ isQuoting m.1 = false) ∧
      (n ≤ 1 → ws.flatten.countP (fun m => isQuoting m.1) ≤ 1)
  | .escape => n = 0 → ws.flatten.countP (fun m => isQuoting m.1) ≤ 1
  | .single => n = 0 → ∀ m ∈ ws.flatten, m.1 ≠ '\''
  | .double | .doubleEscape => n = 0 → ∀ m ∈ ws.flatten, m.1 ≠ '"'

theorem flatten_push (ms : Word) {ws : List Word} : (push ms ws).flatten = ms ++ ws.flatten := by
  cases ws with
  | nil => simp [push]
  | cons w ws => simp [push]

theorem length_push (ms : Word) {ws : List Word} (h : ws ≠ []) :
    (push ms ws).length = ws.length := by
  obtain ⟨w, ws, rfl⟩ := List.exists_cons_of_ne_nil h
  rfl

/-- How the cost of a line grows by one character, whatever quoting it stands in. -/
theorem cost_put {q q' : Quote} {ms : Word} {c : Char} {cs : List Char} {ws : List Word}
    {n n' : Nat} (hne : ws ≠ [])
    (hcost : ws.flatten.length + ws.length + q'.open + n' = cs.length + 1)
    (hn : n + ms.length + q.open = n' + 1 + q'.open) :
    (push ms ws).flatten.length + (push ms ws).length + q.open + n = (c :: cs).length + 1 := by
  rw [flatten_push, List.length_append, length_push ms hne, List.length_cons]
  omega

/-- A line with its words, and what they can have. -/
def Costs (q : Quote) (s : List Char) (ws : List Word) : Prop :=
  ∃ n, ws.flatten.length + ws.length + q.open + n = s.length + 1 ∧ Bounds q n ws

section

variable {c : Char} {cs : List Char} {ws : List Word}

/-- An ordinary character costs nothing. -/
theorem costs_plain_text (hne : ws ≠ []) (hc : isQuoting c = false) (h : Costs .plain cs ws) :
    Costs .plain (c :: cs) (push [(c, false)] ws) := by
  obtain ⟨n, hcost, hall, hcount⟩ := h
  refine ⟨n, cost_put hne hcost (by simp), fun hn => ?_, fun hn => ?_⟩
  · rw [flatten_push]
    intro m hm
    rcases List.mem_append.mp hm with hm | hm
    · rw [List.mem_singleton.mp hm]
      exact ⟨rfl, hc⟩
    · exact hall hn m hm
  · rw [flatten_push, List.countP_append]
    have := hcount hn
    simpa [hc] using this

theorem costs_plain_escape (hne : ws ≠ []) (h : Costs .escape cs ws) :
    Costs .plain (c :: cs) (push [] ws) := by
  obtain ⟨n, hcost, hcount⟩ := h
  refine ⟨n + 1, cost_put hne hcost (by simp [Quote.open]), fun hn => absurd hn (by omega),
    fun hn => ?_⟩
  rw [flatten_push]
  exact hcount (by omega)

/-- Opening a quote costs two characters, so that nothing is known. -/
theorem costs_plain_open {q : Quote} (hne : ws ≠ []) (hq : q.open = 1) (h : Costs q cs ws) :
    Costs .plain (c :: cs) (push [] ws) := by
  obtain ⟨n, hcost, -⟩ := h
  refine ⟨n + 2, cost_put hne hcost ?_, fun hn => absurd hn (by omega),
    fun hn => absurd hn (by omega)⟩
  rw [hq, open_plain]
  rfl

/-- A blank costs nothing behind a word, and one character elsewhere. -/
theorem costs_plain_cut (inWord : Bool) (h : Costs .plain cs ws) :
    Costs .plain (c :: cs) (if inWord then [] :: ws else ws) := by
  obtain ⟨n, hcost, hall, hcount⟩ := h
  cases inWord with
  | true => exact ⟨n, by simp [← hcost]; omega, by simpa using hall, by simpa using hcount⟩
  | false =>
    exact ⟨n + 1, by simp [← hcost]; omega, fun hn => absurd hn (by omega),
      fun hn => hcount (by omega)⟩

/-- What is escaped is paid for by its backslash. -/
theorem costs_escape (hne : ws ≠ []) (h : Costs .plain cs ws) :
    Costs .escape (c :: cs) (push [(c, true)] ws) := by
  obtain ⟨n, hcost, hall, -⟩ := h
  refine ⟨n, cost_put hne hcost (by simp [Quote.open]), fun hn => ?_⟩
  have hzero : ws.flatten.countP (fun m => isQuoting m.1) = 0 := by
    rw [List.countP_eq_zero]
    intro m hm
    simp [(hall hn m hm).2]
  rw [flatten_push, List.countP_append, hzero]
  exact List.countP_le_length

/-- What no character in a quote is, no character in its words is. -/
theorem costs_close {q : Quote} {d : Char} (hne : ws ≠ []) (hq : q.open = 1)
    (hd : isQuoting d = true)
    (hb : ∀ n, Bounds q n (push [] ws) ↔ (n = 0 → ∀ m ∈ (push [] ws).flatten, m.1 ≠ d))
    (h : Costs .plain cs ws) : Costs q (c :: cs) (push [] ws) := by
  obtain ⟨n, hcost, hall, -⟩ := h
  refine ⟨n, cost_put hne hcost (by rw [hq, open_plain]; rfl), (hb n).mpr fun hn m hm heq => ?_⟩
  rw [flatten_push] at hm
  have := (hall hn m hm).2
  rw [heq, hd] at this
  cases this

/-- A character in quotes costs nothing more, if it is not the quote. -/
theorem costs_quoted {q q' : Quote} {d : Char} {ms : Word} (hne : ws ≠ [])
    (hopen : ms.length + q.open = 1 + q'.open)
    (hb : ∀ n, Bounds q n (push ms ws) ↔ (n = 0 → ∀ m ∈ (push ms ws).flatten, m.1 ≠ d))
    (hb' : ∀ n, Bounds q' n ws ↔ (n = 0 → ∀ m ∈ ws.flatten, m.1 ≠ d))
    (hms : ∀ m ∈ ms, m.1 ≠ d) (h : Costs q' cs ws) : Costs q (c :: cs) (push ms ws) := by
  obtain ⟨n, hcost, hall⟩ := h
  refine ⟨n, cost_put hne hcost (by omega), (hb n).mpr fun hn m hm => ?_⟩
  rw [flatten_push] at hm
  rcases List.mem_append.mp hm with hm | hm
  · exact hms m hm
  · exact (hb' n).mp hall hn m hm

/-- What stands behind a backslash in double quotes costs at least one character, so that nothing is
known of the words. -/
theorem costs_doubleEscape {ms : Word} (hne : ws ≠ []) (hms : ms.length ≤ 1)
    (h : Costs .double cs ws) : Costs .doubleEscape (c :: cs) (push ms ws) := by
  obtain ⟨n, hcost, -⟩ := h
  refine ⟨n + 2 - ms.length, cost_put hne hcost ?_, fun hn => absurd hn (by omega)⟩
  simp only [Quote.open]
  omega

end

theorem plain_of_cut {q : Quote} {inWord : Bool} {c : Char} (h : move q inWord c = .cut) :
    q = .plain := by
  cases q with
  | plain => rfl
  | _ =>
    simp only [move] at h
    split_ifs at h

/-- One character costs what it does, whichever quoting it stands in. -/
theorem costs_put {q q' : Quote} {inWord : Bool} {c : Char} {cs : List Char} {ms : Word}
    {ws : List Word} (hmove : move q inWord c = .put ms q') (hne : ws ≠ []) (h : Costs q' cs ws) :
    Costs q (c :: cs) (push ms ws) := by
  cases q with
  | plain =>
    simp only [move] at hmove
    split_ifs at hmove with h₁ h₂ h₃ h₄ h₅
    -- an opening quote costs a mark, and so does the one that closes it
    · cases hmove
      exact costs_plain_open hne rfl h
    · cases hmove
      exact costs_plain_open hne rfl h
    · cases hmove
      exact costs_plain_escape hne h
    · cases hmove
      exact costs_plain_text hne (by simp [isQuoting, h₂, h₃, h₄]) h
  | single =>
    simp only [move] at hmove
    split_ifs at hmove with h₁
    · cases hmove
      exact costs_close hne rfl rfl (fun _ => Iff.rfl) h
    · cases hmove
      exact costs_quoted hne rfl (fun _ => Iff.rfl) (fun _ => Iff.rfl) (by simpa using h₁)
        h
  | double =>
    simp only [move] at hmove
    split_ifs at hmove with h₁ h₂ h₃
    · cases hmove
      exact costs_close hne rfl rfl (fun _ => Iff.rfl) h
    · cases hmove
      exact costs_quoted hne rfl (fun _ => Iff.rfl) (fun _ => Iff.rfl) (by simp) h
    · cases hmove
      exact costs_quoted hne rfl (fun _ => Iff.rfl) (fun _ => Iff.rfl) (by simpa using h₁)
        h
  | escape =>
    simp only [move] at hmove
    split_ifs at hmove with h₁
    cases hmove
    exact costs_escape hne h
  | doubleEscape =>
    simp only [move] at hmove
    split_ifs at hmove with h₁ h₂
    · cases hmove
      exact costs_doubleEscape hne (by simp) h
    · cases hmove
      exact costs_doubleEscape hne (by simp) h
    · cases hmove
      -- a backslash that escapes nothing stays in the word
      have hc : c ≠ '"' := by
        rintro rfl
        exact h₁ (by decide)
      exact costs_quoted hne rfl (fun _ => Iff.rfl) (fun _ => Iff.rfl) (by simpa using hc)
        h

/-- **What words can have is bounded by what the line loses**, by induction on the line. -/
theorem words_costs {q : Quote} {inWord : Bool} {s : List Char} {ws : List Word}
    (h : words q inWord s = some ws) : Costs q s ws := by
  induction s generalizing q inWord ws with
  | nil =>
    cases q with
    | plain =>
      obtain rfl := Option.some.inj h
      cases inWord with
      | true => exact ⟨0, rfl, by simp, by simp⟩
      | false => exact ⟨1, rfl, by simp, by simp⟩
    | _ => cases h
  | cons c cs ih =>
    rw [words_cons] at h
    cases hmove : move q inWord c with
    | stop =>
      rw [hmove] at h
      cases h
    | cut =>
      rw [hmove] at h
      obtain ⟨ws', hws', rfl⟩ := Option.map_eq_some_iff.mp h
      cases plain_of_cut hmove
      exact costs_plain_cut inWord (ih hws')
    -- the induction is on the line; what each move costs is said by its own lemma
    | put ms q' =>
      rw [hmove] at h
      obtain ⟨ws', hws', rfl⟩ := Option.map_eq_some_iff.mp h
      exact costs_put hmove (words_ne_nil hws') (ih hws')

/-! ## Patterns

A word with an unquoted `?`, `*` or bracket is a pattern. It is replaced by the files that match, or
stays if there are none. -/

inductive Glob where
  | lit (c : Char)
  | any
  | star
  | set (neg : Bool) (members : Word)
deriving DecidableEq, Repr

/-- Up to the next bracket that closes. -/
def closing : Word → Option (Word × Word)
  | [] => none
  | m :: ms =>
    if m = (']', false) then some ([], ms)
    -- a slash is never matched by a bracket expression
    else if m.1 = '/' then none
    else (closing ms).map fun p => (m :: p.1, p.2)

/-- A bracket expression, behind the bracket that opens it; its first member may be a `]`. -/
def bracket : Word → Option (Bool × Word × Word)
  | ('!', false) :: m :: ms =>
    if m.1 = '/' then none else (closing ms).map fun p => (true, m :: p.1, p.2)
  | m :: ms => if m.1 = '/' then none else (closing ms).map fun p => (false, m :: p.1, p.2)
  | [] => none

/-- The pattern of a word, with fuel for its length. -/
def globsFrom : Nat → Word → List Glob
  | 0, _ => []
  | _ + 1, [] => []
  | n + 1, (c, true) :: ms => .lit c :: globsFrom n ms
  | n + 1, (c, false) :: ms =>
    if c = '?' then .any :: globsFrom n ms
    else if c = '*' then .star :: globsFrom n ms
    else if c = '[' then
      match bracket ms with
      | some (neg, members, rest) => .set neg members :: globsFrom n rest
      | none => .lit c :: globsFrom n ms
    else .lit c :: globsFrom n ms

def globs (w : Word) : List Glob := globsFrom w.length w

/-- A member of a bracket expression: a character or a range. -/
def inSet : Word → Char → Bool
  | lo :: ('-', false) :: hi :: ms, c => (lo.1 ≤ c && c ≤ hi.1) || inSet ms c
  | m :: ms, c => m.1 = c || inSet ms c
  | [], _ => false

def hidden (start : Bool) (c : Char) : Bool := c = '/' || (start && c = '.')

/-- The rests a star leaves, with whether a component starts there. -/
def tails : Bool → List Char → List (Bool × List Char)
  | start, [] => [(start, [])]
  | start, c :: cs =>
    if start && c = '.' then []
    else (start, c :: cs) :: if c = '/' then [] else tails false cs

/-- A pathname against a pattern; `start` at the start of a component. -/
def matchesFrom : List Glob → Bool → List Char → Bool
  | [], _, s => s = []
  | .star :: gs, start, s => (tails start s).any fun t => matchesFrom gs t.1 t.2
  | .lit _ :: _, _, [] => false
  | .lit c :: gs, _, d :: s => c = d && matchesFrom gs (d = '/') s
  | .any :: _, _, [] => false
  | .any :: gs, start, d :: s => !hidden start d && matchesFrom gs false s
  | .set _ _ :: _, _, [] => false
  | .set neg ms :: gs, start, d :: s =>
    !hidden start d && (inSet ms d != neg) && matchesFrom gs false s

/-- `Matches w f`: the pathname is one of those the word stands for as a pattern. -/
def Matches (w : Word) (f : List Char) : Prop := matchesFrom (globs w) true f = true

instance (w : Word) (f : List Char) : Decidable (Matches w f) := by
  unfold Matches; infer_instance

/-- The pathnames that exist, in the order of the locale. -/
structure Directory where
  files : List (List Char)
  nodup : files.Nodup
  noNul : ∀ f ∈ files, '\x00' ∉ f

def Directory.empty : Directory := ⟨[], List.nodup_nil, fun _ hf => absurd hf List.not_mem_nil⟩

def Directory.single (f : List Char) (h : '\x00' ∉ f) : Directory :=
  ⟨[f], List.nodup_singleton f, List.forall_mem_singleton.mpr h⟩

def expand (dir : Directory) (w : Word) : List (List Char) :=
  if (dir.files.filter fun f => Matches w f) = [] then [text w]
  else dir.files.filter fun f => Matches w f

/-! ## Commands

The fields of a line that is one command. Lines with operators, expansions or reserved words are not
described, and have none here. -/

def reserved : List (List Char) :=
  ["!".toList, "\x7b".toList, "\x7d".toList, "case".toList, "do".toList, "done".toList, "elif".toList,
    "else".toList, "esac".toList, "fi".toList, "for".toList, "if".toList, "in".toList,
    "then".toList, "until".toList, "while".toList]

def isNameChar (c : Char) : Bool := c.isAlphanum || c = '_'

/-- `name=` in front, with nothing quoted. -/
def isAssignment (w : Word) : Bool :=
  let name := w.takeWhile fun m => m != ('=', false)
  name.length < w.length && name != [] && name.all (fun m => !m.2 && isNameChar m.1) &&
    !(name.head?.any fun m => m.1.isDigit)

/-- A reserved word is one where a command begins. -/
def isReserved (w : Word) : Bool := w ∈ reserved.map unquoted

/-- What the shell makes of the arguments of a program; nothing if they ask for more of it. -/
def arguments (dir : Directory) (line : List Char) : Option (List (List Char)) :=
  (words .plain false line).map fun ws => ws.flatMap (expand dir)

/-- The fields of a command line: the program and its arguments. -/
def fields (dir : Directory) (line : List Char) : Option (List (List Char)) :=
  match words .plain false line with
  | some ws =>
    if ws.head?.any isReserved then none
    else
      match ws.dropWhile isAssignment with
      | w :: args => some ((w :: args).flatMap (expand dir))
      -- assignments alone start no program
      | [] => none
  | none => none

/-! ## What is read literally

A text is literal if it comes back as one word whatever files there are. -/

/-- The word stands for itself whatever files there are. -/
def Fixed (w : Word) : Prop := ∀ f, '\x00' ∉ f → Matches w f → f = text w

/-- A text that is read as one word and stands for itself. -/
structure Literal (s : List Char) : Prop where
  noNul : '\x00' ∉ s
  word : words .plain false s = some [unquoted s]
  fixed : Fixed (unquoted s)

/-- A text that single quotes keep as it is. -/
def Quotable (s : List Char) : Prop := '\'' ∉ s ∧ '\x00' ∉ s

instance (s : List Char) : Decidable (Quotable s) := inferInstanceAs (Decidable (_ ∧ _))

theorem expand_empty (w : Word) : expand .empty w = [text w] := rfl

theorem expand_single {w : Word} {f : List Char} (hf : '\x00' ∉ f) (h : Matches w f) :
    expand (.single f hf) w = [f] := by
  have hfilter : [f].filter (fun f => Matches w f) = [f] := by simp [h]
  rw [expand, Directory.single, hfilter, if_neg (List.cons_ne_nil f [])]

/-- A fixed word stands for itself everywhere. -/
theorem Fixed.expand {w : Word} (h : Fixed w) (dir : Directory) : expand dir w = [text w] := by
  unfold Shell.expand
  split
  · rfl
  · next hne =>
    -- what matches is the text, and a directory has no name twice
    have hall : ∀ f ∈ dir.files.filter fun f => Matches w f, f = text w := by
      intro f hf
      obtain ⟨hmem, hmatch⟩ := List.mem_filter.mp hf
      exact h f (dir.noNul f hmem) (of_decide_eq_true hmatch)
    have hnodup := dir.nodup.filter fun f => decide (Matches w f)
    obtain ⟨f, fs, hfs⟩ := List.exists_cons_of_ne_nil hne
    rw [hfs] at hall hnodup ⊢
    obtain rfl := hall f (List.mem_cons_self ..)
    cases fs with
    | nil => rfl
    | cons g fs =>
      have hg := hall g (by simp)
      rw [hg] at hnodup
      exact absurd hnodup (by simp)

/-- What is quoted is no pattern. -/
theorem globsFrom_inQuotes (s : List Char) {n : Nat} (hn : s.length ≤ n) :
    globsFrom n (inQuotes s) = s.map Glob.lit := by
  induction s generalizing n with
  | nil => cases n <;> rfl
  | cons c s ih =>
    cases n with
    | zero => simp at hn
    | succ n =>
      have hn' : s.length ≤ n := by simpa using hn
      show Glob.lit c :: globsFrom n (inQuotes s) = _
      rw [ih hn']
      rfl

/-- A pattern of literal characters matches nothing else. -/
theorem matchesFrom_lit {s f : List Char} {start : Bool}
    (h : matchesFrom (s.map Glob.lit) start f = true) : f = s := by
  induction s generalizing f start with
  | nil => simpa [matchesFrom] using h
  | cons c s ih =>
    cases f with
    | nil => simp [matchesFrom] at h
    | cons d f =>
      simp only [List.map_cons, matchesFrom, Bool.and_eq_true, decide_eq_true_eq] at h
      obtain ⟨rfl, hrest⟩ := h
      rw [ih hrest]

theorem fixed_of_globs {w : Word} (h : globs w = (text w).map Glob.lit) : Fixed w := by
  intro f _ hf
  rw [Matches, h] at hf
  exact matchesFrom_lit hf

theorem fixed_inQuotes (s : List Char) : Fixed (inQuotes s) := by
  apply fixed_of_globs
  rw [globs, globsFrom_inQuotes s (by simp [inQuotes]), text_inQuotes]

/-! ## Digits in brackets

A name with digits in brackets behind it is a pattern that matches other names. -/

/-- The bracket that closes digits is the first one behind them. -/
theorem closing_digits {ds : List Char} (h : ∀ c ∈ ds, c.isDigit = true) (rest : Word) :
    closing (unquoted ds ++ (']', false) :: rest) = some (unquoted ds, rest) := by
  induction ds with
  | nil => rfl
  | cons d ds ih =>
    have hd : d.isDigit = true := h d (List.mem_cons_self ..)
    have hclose : (d, false) ≠ (']', false) := by
      intro heq
      rw [(Prod.mk.inj heq).1] at hd
      exact absurd hd (by decide)
    have hslash : d ≠ '/' := by
      rintro rfl
      exact absurd hd (by decide)
    show closing ((d, false) :: (unquoted ds ++ (']', false) :: rest)) = _
    rw [closing, if_neg hclose, if_neg hslash, ih fun c hc => h c (List.mem_cons_of_mem d hc)]
    rfl

/-- Digits in brackets are a bracket expression. -/
theorem bracket_digits {d : Char} {ds : List Char} (h : ∀ c ∈ d :: ds, c.isDigit = true)
    (rest : Word) :
    bracket (unquoted (d :: ds) ++ (']', false) :: rest) =
      some (false, unquoted (d :: ds), rest) := by
  have hd : d.isDigit = true := h d (List.mem_cons_self ..)
  have hbang : d ≠ '!' := by
    rintro rfl
    exact absurd hd (by decide)
  have hslash : d ≠ '/' := by
    rintro rfl
    exact absurd hd (by decide)
  have hclosing := closing_digits (fun c hc => h c (List.mem_cons_of_mem d hc)) rest
  show bracket ((d, false) :: (unquoted ds ++ (']', false) :: rest)) = _
  unfold bracket
  split
  · next heq =>
    exact absurd (Prod.mk.inj (List.cons.inj heq).1).1 hbang
  · next heq =>
    obtain ⟨rfl, rfl⟩ := List.cons.inj heq
    rw [if_neg hslash, hclosing]
    rfl
  · next heq => cases heq

/-- It matches its first digit. -/
theorem inSet_head {d : Char} {ds : List Char} (h : ∀ c ∈ ds, c.isDigit = true) :
    inSet (unquoted (d :: ds)) d = true := by
  show inSet ((d, false) :: unquoted ds) d = true
  unfold inSet
  split
  · next ms heq =>
    -- a digit is no hyphen
    have hmem : ('-', false) ∈ unquoted ds := by
      rw [(List.cons.inj heq).2]
      exact List.mem_cons_self ..
    obtain ⟨c, hc, hceq⟩ := List.mem_map.mp hmem
    have := h c hc
    rw [(Prod.mk.inj hceq).1] at this
    exact absurd this (by decide)
  · next heq =>
    obtain ⟨rfl, -⟩ := List.cons.inj heq
    simp
  · next heq => cases heq

/-- Text without pattern characters stands for itself in a pattern. -/
theorem globsFrom_plain {s : List Char} (h : ∀ c ∈ s, c ≠ '?' ∧ c ≠ '*' ∧ c ≠ '[') (n : Nat)
    (rest : Word) :
    globsFrom (s.length + n) (unquoted s ++ rest) = s.map Glob.lit ++ globsFrom n rest := by
  induction s with
  | nil =>
    rw [List.length_nil, Nat.zero_add]
    rfl
  | cons c s ih =>
    obtain ⟨h₁, h₂, h₃⟩ := h c (List.mem_cons_self ..)
    rw [List.length_cons, Nat.add_right_comm]
    show globsFrom (s.length + n + 1) ((c, false) :: (unquoted s ++ rest)) = _
    rw [globsFrom, if_neg h₁, if_neg h₂, if_neg h₃,
      ih fun x hx => h x (List.mem_cons_of_mem c hx)]
    rfl

/-- A pattern with literal text in front matches that text with what the pattern matches behind it.
-/
theorem matchesFrom_append {gs : List Glob} {f : List Char}
    (h : ∀ start, matchesFrom gs start f = true) (s : List Char) (start : Bool) :
    matchesFrom (s.map Glob.lit ++ gs) start (s ++ f) = true := by
  induction s generalizing start with
  | nil => exact h start
  | cons c s ih =>
    rw [List.map_cons, List.cons_append, List.cons_append, matchesFrom, ih]
    simp

/-- Digits in brackets stand for one of the digits. -/
theorem not_fixed_digits {s : List Char} (hnul : '\x00' ∉ s)
    (hs : ∀ c ∈ s, c ≠ '?' ∧ c ≠ '*' ∧ c ≠ '[')
    {ds : List Char} (hne : ds ≠ []) (hds : ∀ c ∈ ds, c.isDigit = true) :
    ¬ Fixed (unquoted (s ++ '[' :: (ds ++ [']']))) := by
  intro hfixed
  obtain ⟨d, ds, rfl⟩ := List.exists_cons_of_ne_nil hne
  have hd : d.isDigit = true := hds d (List.mem_cons_self ..)
  have hhidden : ∀ start, hidden start d = false := by
    intro start
    have h₁ : d ≠ '/' := by
      rintro rfl
      exact absurd hd (by decide)
    have h₂ : d ≠ '.' := by
      rintro rfl
      exact absurd hd (by decide)
    simp [hidden, h₁, h₂]
  have hword : unquoted (s ++ '[' :: (d :: ds ++ [']'])) =
      unquoted s ++ ('[', false) :: (unquoted (d :: ds) ++ [(']', false)]) := by
    simp [unquoted]
  -- the bracket is a set with the first digit in it
  have hglobs : globs (unquoted (s ++ '[' :: (d :: ds ++ [']']))) =
      s.map Glob.lit ++ [.set false (unquoted (d :: ds))] := by
    rw [globs, hword]
    rw [show (unquoted s ++ ('[', false) :: (unquoted (d :: ds) ++ [(']', false)])).length =
      s.length + (ds.length + 3) from by simp [unquoted]]
    rw [globsFrom_plain hs, globsFrom, if_neg (by decide), if_neg (by decide), if_pos rfl,
      bracket_digits hds]
    rfl
  -- so a file whose name ends in that digit matches, and is shorter
  have hmatch : Matches (unquoted (s ++ '[' :: (d :: ds ++ [']']))) (s ++ [d]) := by
    rw [Matches, hglobs]
    apply matchesFrom_append
    intro start
    rw [matchesFrom, hhidden, inSet_head fun c hc => hds c (List.mem_cons_of_mem d hc)]
    rfl
  have hf : '\x00' ∉ s ++ [d] := by
    rw [List.mem_append, List.mem_singleton]
    rintro (hmem | rfl)
    · exact hnul hmem
    · exact absurd hd (by decide)
  have := congrArg List.length (hfixed _ hf hmatch)
  rw [text_unquoted] at this
  simp at this

/-! ## A program with two quoted arguments and a third -/

/-- `program 'a' 'b' c` -/
def call (program a b c : List Char) : List Char :=
  program ++ ' ' :: '\'' :: (a ++ '\'' :: ' ' :: '\'' :: (b ++ '\'' :: ' ' :: c))

section

variable {s rest : List Char} {u : Word} {ws : List Word}

/-- Reading on in an open quote that must not lose anything, its own mark does not come back. -/
theorem not_mem_of_open {q : Quote} {d : Char}
    (hq : q.open = 1) (hb : Bounds q 0 (u :: ws) → ∀ m ∈ (u :: ws).flatten, m.1 ≠ d)
    (h : words q true s = some (u :: ws))
    (hcost : s.length ≤ u.length + ws.flatten.length + ws.length + 1) : d ∉ text u := by
  obtain ⟨n, hn, hbounds⟩ := words_costs h
  have hzero : n = 0 := by
    simp only [List.flatten_cons, List.length_append, List.length_cons, hq] at hn
    omega
  rw [hzero] at hbounds
  intro hmem
  obtain ⟨m, hm, heq⟩ := List.mem_map.mp hmem
  exact hb hbounds m (List.mem_append_left _ hm) heq

/-- With one character to lose only one mark that quotes comes back. -/
theorem count_le_one (h : words .plain true s = some (u :: ws))
    (hcost : s.length ≤ u.length + ws.flatten.length + ws.length + 1) :
    (text u).countP isQuoting ≤ 1 := by
  obtain ⟨n, hn, -, hcount⟩ := words_costs h
  have hle : n ≤ 1 := by
    simp only [List.flatten_cons, List.length_append, List.length_cons, open_plain] at hn
    omega
  have := hcount hle
  rw [List.flatten_cons, List.countP_append] at this
  have hmap : (text u).countP isQuoting = u.countP (fun m => isQuoting m.1) := by
    rw [text, List.countP_map]
    rfl
  omega

/-- Behind a backslash the mark that comes back first is quoted, and is no quote once more. -/
theorem not_of_escape {x : Char}
    (h : words .escape true (s ++ '\'' :: ' ' :: rest) = some (u :: ws))
    (hcost : (s ++ '\'' :: ' ' :: rest).length ≤ u.length + ws.flatten.length + ws.length + 1)
    (hx : x = '\\') : text u ≠ '\'' :: x :: s := by
  intro hu
  cases s with
  | nil =>
    -- the quote that closes comes back, and the blank cuts
    obtain ⟨w, hw, rfl⟩ :=
      of_words_put (show move .escape true '\'' = .put [('\'', true)] .plain from rfl) h
    rw [of_words_cut (show move .plain true ' ' = .cut from rfl) hw] at hu
    exact absurd hu (by simp [text])
  | cons y s =>
    rw [List.cons_append] at h hcost
    have hmove : move .escape true y = .put [(y, true)] .plain := by
      rw [move, if_neg]
      rintro rfl
      rw [words_cons] at h
      cases h
    obtain ⟨w, hw, rfl⟩ := of_words_put hmove h
    have hw' : text w = x :: y :: s := (List.cons.inj hu).2
    have hy : y = '\'' := (List.cons.inj hu).1
    have hcount := count_le_one hw (by
      simp only [List.cons_append, List.nil_append, List.length_cons] at hcost
      omega)
    rw [hw', hy, hx] at hcount
    simp [isQuoting] at hcount

/-- Past a quote that closes too early, getting the rest of the argument back would lose more
characters than there are. -/
theorem early_quote (h : words .plain true (s ++ '\'' :: ' ' :: rest) = some (u :: ws))
    (hu : text u = '\'' :: s) : ws.flatten.length + ws.length + 3 ≤ rest.length + 1 := by
  by_contra hlt
  have hlen : u.length = s.length + 1 := by
    have := congrArg List.length hu
    rwa [text, List.length_map, List.length_cons] at this
  cases s with
  | nil =>
    -- the blank is quoted now
    obtain ⟨v, hv, rfl⟩ := of_words_put (show move .plain true '\'' = .put [] .single from rfl) h
    obtain ⟨w, -, rfl⟩ :=
      of_words_put (show move .single true ' ' = .put [(' ', true)] .single from rfl) hv
    exact absurd hu (by simp [text])
  | cons x s =>
    rw [List.cons_append] at h
    rw [List.length_cons] at hlen
    have hrest : (s ++ '\'' :: ' ' :: rest).length ≤
        u.length + ws.flatten.length + ws.length + 1 := by
      rw [List.length_append, List.length_cons, List.length_cons]
      omega
    cases hmove : move .plain true x with
    | cut =>
      rw [of_words_cut hmove h] at hu
      cases hu
    | stop =>
      rw [words_cons, hmove] at h
      cases h
    | put ms q =>
      obtain ⟨v, hv, huv⟩ := of_words_put hmove h
      simp only [move] at hmove
      split_ifs at hmove with h₁ h₂ h₃ h₄ h₅
      · cases hmove
        obtain rfl : u = v := huv
        apply @not_mem_of_open _ _ _ .single '\'' rfl (fun hb => hb rfl) hv hrest
        rw [hu]
        exact List.mem_cons_self ..
      · cases hmove
        obtain rfl : u = v := huv
        apply @not_mem_of_open _ _ _ .double '"' rfl (fun hb => hb rfl) hv hrest
        rw [hu, h₃]
        exact List.mem_cons_of_mem _ (List.mem_cons_self ..)
      · cases hmove
        obtain rfl : u = v := huv
        exact absurd hu (not_of_escape hv hrest h₄)
      · cases hmove
        rw [huv] at hu
        exact h₂ (List.cons.inj hu).1

end

/-- An argument that comes back as it was given has no quote, whatever follows it. -/
theorem not_mem_of_argument {s rest : List Char} {w : Word} {ws : List Word}
    (h : words .plain false ('\'' :: (s ++ '\'' :: ' ' :: rest)) = some (w :: ws))
    (hw : text w = s) (hrest : rest.length < ws.flatten.length + ws.length + 2) : '\'' ∉ s := by
  intro hmem
  obtain ⟨s₁, s₂, rfl, hs₁⟩ := List.eq_append_cons_of_mem hmem
  rw [List.append_assoc, List.cons_append, words_quoted hs₁] at h
  obtain ⟨ws', hws', hpush⟩ := Option.map_eq_some_iff.mp h
  obtain ⟨v, vs, rfl⟩ := List.exists_cons_of_ne_nil (words_ne_nil hws')
  obtain ⟨rfl, rfl⟩ := List.cons.inj hpush
  have hv : text v = '\'' :: s₂ := by
    have : text (inQuotes s₁) ++ text v = s₁ ++ '\'' :: s₂ := by
      rw [← hw, text, text, text, List.map_append]
    rw [text_inQuotes] at this
    exact List.append_cancel_left this
  have := early_quote hws' hv
  omega

/-- What a shell makes of a command line: the program that it starts and its arguments, or nothing
if the line asks for more than the splitting and expanding of arguments. -/
abbrev Interpreter := Directory → List Char → Option (List (List Char))

/-- Whatever follows this text and a blank becomes the arguments of a program: the text is taken for
the program, with what may stand in front of it. -/
structure HandsOn (sh : Interpreter) (program : List Char) : Prop where
  noNul : '\x00' ∉ program
  given : ∀ {dir tail args}, '\x00' ∉ tail → arguments dir tail = some args →
    ∃ name, sh dir (program ++ ' ' :: tail) = some (name :: args)
  nothing : ∀ {dir tail}, '\x00' ∉ tail → arguments dir tail = none →
    sh dir (program ++ ' ' :: tail) = none

/-- Assignments and one word for the program, which stands for itself. -/
structure Program (s : List Char) : Prop where
  noNul : '\x00' ∉ s
  words : ∃ assigns w, words .plain false s = some (assigns ++ [w]) ∧
    (∀ a ∈ assigns, isAssignment a = true) ∧ isAssignment w = false ∧ Fixed w ∧
    (assigns ++ [w]).head?.any isReserved = false

/-- The shell of simple commands hands the rest of a line to a program in front. -/
theorem Program.handsOn {s : List Char} (h : Program s) : HandsOn fields s := by
  obtain ⟨assigns, w, hwords, hassigns, hw, hfixed, hreserved⟩ := h.words
  have hhead : ∀ ws, (assigns ++ [w] ++ ws).head?.any isReserved = false := by
    intro ws
    cases assigns with
    | nil => exact hreserved
    | cons a assigns => exact hreserved
  have hdrop : ∀ ws, (assigns ++ [w] ++ ws).dropWhile isAssignment = w :: ws := by
    intro ws
    rw [List.append_assoc, List.dropWhile_append_of_pos hassigns, List.singleton_append,
      List.dropWhile_cons_of_neg (by rw [hw]; exact Bool.false_ne_true)]
  refine ⟨h.noNul, fun {dir tail args} _ hargs => ⟨text w, ?_⟩, fun {dir tail} _ hargs => ?_⟩
  · obtain ⟨ws, hws, rfl⟩ := Option.map_eq_some_iff.mp hargs
    rw [fields, words_append_blank hwords, hws]
    simp only [Option.map_some, hhead, hdrop, Bool.false_eq_true, if_false, List.flatMap_cons,
      hfixed.expand, List.singleton_append]
  · have hnone := Option.map_eq_none_iff.mp hargs
    rw [fields, words_append_blank hwords, hnone]
    rfl

/-- The arguments of a call, behind the program. -/
def tail (a b c : List Char) : List Char :=
  '\'' :: (a ++ '\'' :: ' ' :: '\'' :: (b ++ '\'' :: ' ' :: c))

theorem call_eq (program a b c : List Char) : call program a b c = program ++ ' ' :: tail a b c :=
  rfl

theorem words_tail {a b : List Char} (ha : '\'' ∉ a) (hb : '\'' ∉ b) (c : List Char) :
    words .plain false (tail a b c) =
      (words .plain false c).map fun ws => inQuotes a :: inQuotes b :: ws := by
  rw [tail, words_quoted_blank ha, words_quoted_blank hb, Option.map_map]
  rfl

/-- In a directory without files the arguments are the words. -/
theorem words_of_arguments_empty {a b c : List Char}
    (h : arguments .empty (tail a b c) = some [a, b, c]) :
    ∃ wa wb wc, words .plain false (tail a b c) = some [wa, wb, wc] ∧
      text wa = a ∧ text wb = b ∧ text wc = c := by
  obtain ⟨ws, hws, hmap⟩ := Option.map_eq_some_iff.mp h
  rw [show expand .empty = fun w => [text w] from funext expand_empty] at hmap
  have hmap := (List.flatMap_pure_eq_map text ws).symm.trans hmap
  match ws, hmap with
  | [wa, wb, wc], hmap =>
    simp only [List.map_cons, List.map_nil, List.cons.injEq] at hmap
    exact ⟨wa, wb, wc, hws, hmap.1, hmap.2.1, hmap.2.2.1⟩

/-- A line that is one word of its own text loses nothing, so that nothing of it is quoted. -/
theorem eq_unquoted {c : List Char} {w : Word} (h : words .plain false c = some [w])
    (hw : text w = c) : w = unquoted c := by
  obtain ⟨n, hn, hzero, -⟩ := words_costs h
  have hlen : w.length = c.length := by rw [← hw, text, List.length_map]
  have hn0 : n = 0 := by
    simp [hlen, open_plain] at hn
    omega
  have hmarks := hzero hn0
  rw [← hw, unquoted, text, List.map_map]
  calc w = w.map id := (List.map_id w).symm
    _ = w.map ((fun c => (c, false)) ∘ Prod.fst) := by
      apply List.map_congr_left
      intro m hm
      exact Prod.ext rfl (hmarks m (by simpa using hm)).1

/-- Arguments that come back in a directory without files have no quotes. -/
theorem quotes_of_arguments_empty {a b c : List Char}
    (h : arguments .empty (tail a b c) = some [a, b, c]) :
    '\'' ∉ a ∧ '\'' ∉ b ∧ words .plain false c = some [unquoted c] := by
  obtain ⟨wa, wb, wc, hwords, hta, htb, htc⟩ := words_of_arguments_empty h
  rw [tail] at hwords
  have hlb : wb.length = b.length := by rw [← htb, text, List.length_map]
  have hlc : wc.length = c.length := by rw [← htc, text, List.length_map]
  have ha : '\'' ∉ a := by
    apply not_mem_of_argument hwords hta
    simp [hlb, hlc]
    omega
  rw [words_quoted_blank ha] at hwords
  obtain ⟨ws', hwords, hws'⟩ := Option.map_eq_some_iff.mp hwords
  obtain ⟨-, rfl⟩ := List.cons.inj hws'
  have hb : '\'' ∉ b := by
    apply not_mem_of_argument hwords htb
    simp [hlc]
    omega
  rw [words_quoted_blank hb] at hwords
  obtain ⟨ws', hwords, hws'⟩ := Option.map_eq_some_iff.mp hwords
  obtain ⟨-, rfl⟩ := List.cons.inj hws'
  exact ⟨ha, hb, eq_unquoted hwords htc ▸ hwords⟩

/-- A character stands for itself, or for itself behind a backslash that is kept. -/
theorem mem_of_move {q q' : Quote} {inWord : Bool} {c : Char} {ms : Word}
    (h : move q inWord c = .put ms q') {m : Mark} (hm : m ∈ ms) : m.1 = c ∨ m.1 = '\\' := by
  have hone : ∀ {b : Bool}, m ∈ [(c, b)] → m.1 = c ∨ m.1 = '\\' := by
    intro b hm
    rw [List.mem_singleton.mp hm]
    exact .inl rfl
  have hnone : m ∈ ([] : Word) → m.1 = c ∨ m.1 = '\\' := fun hm => absurd hm List.not_mem_nil
  cases q with
  | doubleEscape =>
    simp only [move] at h
    split_ifs at h
    · cases h
      exact hone hm
    · cases h
      exact hnone hm
    · -- the backslash is kept in front of what it does not quote
      cases h
      rcases List.mem_cons.mp hm with rfl | hm
      · exact .inr rfl
      · exact hone hm
  | _ =>
    simp only [move] at h
    split_ifs at h
    all_goals cases h
    all_goals first | exact hone hm | exact hnone hm

/-- What the words of a line are made of. -/
theorem mem_of_words {q : Quote} {inWord : Bool} {s : List Char} {ws : List Word}
    (h : words q inWord s = some ws) {m : Mark} (hm : m ∈ ws.flatten) : m.1 ∈ s ∨ m.1 = '\\' := by
  induction s generalizing q inWord ws with
  | nil =>
    cases q with
    | plain =>
      obtain rfl := Option.some.inj h
      cases inWord <;> simp at hm
    | _ => cases h
  | cons c cs ih =>
    rw [words_cons] at h
    cases hmove : move q inWord c with
    | stop =>
      rw [hmove] at h
      cases h
    | cut =>
      rw [hmove] at h
      obtain ⟨ws', hws', rfl⟩ := Option.map_eq_some_iff.mp h
      have hm : m ∈ ws'.flatten := by cases inWord <;> simpa using hm
      exact (ih hws' hm).imp_left (List.mem_cons_of_mem c)
    | put ms q' =>
      rw [hmove] at h
      obtain ⟨ws', hws', rfl⟩ := Option.map_eq_some_iff.mp h
      rw [flatten_push] at hm
      rcases List.mem_append.mp hm with hm | hm
      · exact (mem_of_move hmove hm).imp_left fun heq => List.mem_cons.mpr (.inl heq)
      · exact (ih hws' hm).imp_left (List.mem_cons_of_mem c)

/-- A line without NUL has none in its arguments. -/
theorem nul_not_mem_arguments {line : List Char} {args : List (List Char)} (hline : '\x00' ∉ line)
    (h : arguments .empty line = some args) : ∀ arg ∈ args, '\x00' ∉ arg := by
  obtain ⟨ws, hws, rfl⟩ := Option.map_eq_some_iff.mp h
  intro arg harg hnul
  obtain ⟨w, hw, harg⟩ := List.mem_flatMap.mp harg
  rw [expand_empty, List.mem_singleton] at harg
  subst harg
  obtain ⟨m, hm, hnul⟩ := List.mem_map.mp hnul
  rcases mem_of_words hws (List.mem_flatten.mpr ⟨w, hw, hm⟩) with hmem | hslash
  · exact hline (hnul ▸ hmem)
  · rw [hnul] at hslash
    exact absurd hslash (by decide)

/-- The arguments of the tail: the first two as they are, and what the third expands to. -/
theorem arguments_tail {a b c : List Char} (ha : '\'' ∉ a) (hb : '\'' ∉ b) (dir : Directory)
    (hc : words .plain false c = some [unquoted c]) :
    arguments dir (tail a b c) = some (a :: b :: expand dir (unquoted c)) := by
  rw [arguments, words_tail ha hb, hc]
  simp only [Option.map_some, List.flatMap_cons, List.flatMap_nil, (fixed_inQuotes _).expand,
    text_inQuotes, List.append_nil, List.singleton_append]

/-- The line up to its first NUL. -/
theorem takeWhile_noNul {s : List Char} (h : '\x00' ∉ s) (t : List Char) :
    (s ++ t).takeWhile (· ≠ '\x00') = s ++ t.takeWhile (· ≠ '\x00') := by
  refine List.takeWhile_append_of_pos fun c hc => decide_eq_true ?_
  rintro rfl
  exact h hc

theorem noNul_of_takeWhile (s : List Char) : '\x00' ∉ s.takeWhile (· ≠ '\x00') := by
  intro h
  have hne := List.mem_takeWhile_imp h
  simp at hne

theorem mem_tail {a b c : List Char} {x : Char} (h : x ∈ tail a b c) :
    x ∈ a ∨ x ∈ b ∨ x ∈ c ∨ x = '\'' ∨ x = ' ' := by
  simp only [tail, List.mem_cons, List.mem_append] at h
  tauto

theorem noNul_tail {a b c : List Char} (ha : '\x00' ∉ a) (hb : '\x00' ∉ b) (hc : '\x00' ∉ c) :
    '\x00' ∉ tail a b c := by
  intro h
  rcases mem_tail h with h | h | h | h | h
  · exact ha h
  · exact hb h
  · exact hc h
  · exact absurd h (by decide)
  · exact absurd h (by decide)

/-- Without a NUL the whole line is read. -/
theorem takeWhile_of_noNul {s : List Char} (h : '\x00' ∉ s) : s.takeWhile (· ≠ '\x00') = s :=
  List.takeWhile_eq_self_iff.mpr fun _ hc => decide_eq_true fun heq => h (heq ▸ hc)

/-- **What survives the shell.** Of a line that ends at its first NUL, a program that is handed the
rest of it is given its three arguments in every directory exactly if single quotes keep the first
two and the third is literal. -/
theorem call_iff {sh : Interpreter} {program a b c : List Char} (h : HandsOn sh program) :
    (∀ dir, ∃ name, sh dir ((call program a b c).takeWhile (· ≠ '\x00')) =
        some [name, a, b, c]) ↔ Quotable a ∧ Quotable b ∧ Literal c := by
  have hblank : '\x00' ∉ program ++ [' '] := by
    simp only [List.mem_append, List.mem_singleton, not_or]
    exact ⟨h.noNul, by decide⟩
  have hline : (call program a b c).takeWhile (· ≠ '\x00') =
      program ++ ' ' :: (tail a b c).takeWhile (· ≠ '\x00') := by
    rw [call_eq, List.append_cons, takeWhile_noNul hblank, ← List.append_cons]
  rw [hline]
  constructor
  · intro hall
    have hnul := noNul_of_takeWhile (tail a b c)
    -- what the program is given are the arguments of what is left of the line
    have hargs : ∀ dir, arguments dir ((tail a b c).takeWhile (· ≠ '\x00')) = some [a, b, c] := by
      intro dir
      obtain ⟨name, hname⟩ := hall dir
      cases hargs : arguments dir ((tail a b c).takeWhile (· ≠ '\x00')) with
      | none =>
        rw [h.nothing hnul hargs] at hname
        cases hname
      | some args =>
        obtain ⟨name', hgiven⟩ := h.given hnul hargs
        rw [hgiven] at hname
        exact congrArg some (List.cons.inj (Option.some.inj hname)).2
    obtain ⟨hna, hnb, hnc⟩ : '\x00' ∉ a ∧ '\x00' ∉ b ∧ '\x00' ∉ c := by
      simpa using nul_not_mem_arguments hnul (hargs .empty)
    -- so nothing was cut off
    rw [takeWhile_of_noNul (noNul_tail hna hnb hnc)] at hargs
    obtain ⟨ha, hb, hword⟩ := quotes_of_arguments_empty (hargs .empty)
    refine ⟨⟨ha, hna⟩, ⟨hb, hnb⟩, hnc, hword, fun f hf hmatch => ?_⟩
    -- a file of that name takes the place of the third argument
    have hsingle := hargs (.single f hf)
    rw [arguments_tail ha hb _ hword, expand_single hf hmatch] at hsingle
    rw [text_unquoted]
    simpa using hsingle
  · rintro ⟨⟨ha, hna⟩, ⟨hb, hnb⟩, hlit⟩ dir
    have hnul := noNul_tail hna hnb hlit.noNul
    have hargs : arguments dir (tail a b c) = some [a, b, c] := by
      rw [arguments_tail ha hb dir hlit.word, hlit.fixed.expand, text_unquoted]
    rw [takeWhile_of_noNul hnul]
    exact h.given hnul hargs

end Shell
