import Skweltch.Config.JsonReader

/-!
# Skweltch — the primitives of the JSON grammar

`Scanner.Spirit` is what is relied on of the primitives that read white space, strings and numbers.
`plainScanner` does that; it knows no comments and no exponents.
-/

namespace Skweltch

open NumText

/-- `isspace`, in the C locale. -/
def isBlank (c : Char) : Bool := decide (c = ' ' ∨ ('\t' ≤ c ∧ c ≤ '\r'))

def startsNumber (c : Char) : Bool := c.isDigit || decide (c = '-' ∨ c = '+' ∨ c = '.')

/-- What may stand behind a value. -/
def Delimited (rest : Str) : Prop :=
  ∀ c ∈ rest.head?, isBlank c = true ∨ c = ',' ∨ c = '}' ∨ c = ']'

/-- What stands between the quotes of a string. -/
inductive Lexeme : Str → Prop where
  | nil : Lexeme []
  | plain {s : Str} (c : Char) (hc : c ≠ '"' ∧ c ≠ '\\') (hs : Lexeme s) : Lexeme (c :: s)
  | escaped {s : Str} (c : Char)
      (hc : c ∈ ['"', '\\', '/', 'b', 'f', 'n', 'r', 't', 'u']) (hs : Lexeme s) :
      Lexeme ('\\' :: c :: s)

/-- What the primitives do on the texts that are written. -/
structure Scanner.Spirit (L : Scanner) : Prop where
  skip_blank : ∀ c s, isBlank c = true → L.skip (c :: s) = L.skip s
  skip_mark : ∀ c s, isBlank c = false → c ≠ '/' → L.skip (c :: s) = c :: s
  string_lexeme : ∀ body rest, Lexeme body →
    L.string ('"' :: (body ++ '"' :: rest)) = some ('"' :: (body ++ ['"']), rest)
  string_none : ∀ c s, c ≠ '"' → L.string (c :: s) = none
  real_none : ∀ c s, startsNumber c = false → L.real (c :: s) = none
  int64_none : ∀ c s, startsNumber c = false → L.int64 (c :: s) = none
  uint64_none : ∀ c s, startsNumber c = false → L.uint64 (c :: s) = none
  /-- a real has a point or an exponent -/
  real_decText : ∀ n rest, Delimited rest → L.real (decText n ++ rest) = none
  int64_decText : ∀ n rest, -2 ^ 63 ≤ n → n < 2 ^ 63 → Delimited rest →
    L.int64 (decText n ++ rest) = some (n, rest)
  /-- it does not match a number that it cannot hold -/
  int64_large : ∀ n rest, 2 ^ 63 ≤ n → Delimited rest → L.int64 (decText n ++ rest) = none
  uint64_decText : ∀ n rest, 0 ≤ n → n < 2 ^ 64 → Delimited rest →
    L.uint64 (decText n ++ rest) = some (n, rest)

/-! ## A scanner

A scanner of one's own, so that the assumptions on the parser's scanner are seen to be met. It reads
white space, strings and numbers as the grammar of JSON has them. -/

namespace PlainScanner

/-- The rest of a string with the quote that ends it, and what is behind it. -/
def body : Str → Option (Str × Str)
  | '"' :: rest => some (['"'], rest)
  | '\\' :: c :: rest => (body rest).map fun p => ('\\' :: c :: p.1, p.2)
  | c :: rest => (body rest).map fun p => (c :: p.1, p.2)
  | [] => none

def string : Str → Option (Str × Str)
  | '"' :: s => (body s).map fun p => ('"' :: p.1, p.2)
  | _ => none

def digits (s : Str) : Option (ℕ × Str) :=
  if s.takeWhile Char.isDigit = [] then none
  else some (Nat.ofDigitChars 10 (s.takeWhile Char.isDigit) 0, s.dropWhile Char.isDigit)

def integer : Str → Option (ℤ × Str)
  | '-' :: s => (digits s).map fun p => (-(p.1 : ℤ), p.2)
  | '+' :: s => (digits s).map fun p => ((p.1 : ℤ), p.2)
  | s => (digits s).map fun p => ((p.1 : ℤ), p.2)

/-- A number with a point and digits on both sides of it. -/
def decimals (s : Str) : Option (ℚ × Str) :=
  match digits s with
  | some (whole, '.' :: s') =>
    (digits s').map fun p =>
      ((whole : ℚ) + (p.1 : ℚ) / 10 ^ (s'.takeWhile Char.isDigit).length, p.2)
  | _ => none

def real : Str → Option (ℚ × Str)
  | '-' :: s => (decimals s).map fun p => (-p.1, p.2)
  | '+' :: s => decimals s
  | s => decimals s

def int64 (s : Str) : Option (ℤ × Str) :=
  (integer s).filter fun p => decide (-2 ^ 63 ≤ p.1 ∧ p.1 < 2 ^ 63)

def uint64 (s : Str) : Option (ℤ × Str) :=
  ((digits s).map fun p => ((p.1 : ℤ), p.2)).filter fun p => decide (p.1 < 2 ^ 64)

/-- What is read of a string is not there any more. -/
theorem body_lt {s t rest : Str} (h : body s = some (t, rest)) : rest.length < s.length := by
  induction s using body.induct generalizing t with
  | case1 rest' =>
    obtain ⟨-, rfl⟩ := Prod.mk.inj (Option.some.inj h)
    exact Nat.lt_succ_self _
  | case2 c s ih =>
    rw [body] at h
    obtain ⟨⟨t', rest'⟩, hbody, heq⟩ := Option.map_eq_some_iff.mp h
    obtain rfl : rest' = rest := (Prod.mk.inj heq).2
    have := ih hbody
    simp only [List.length_cons]
    omega
  | case3 c s hquote hback ih =>
    rw [body] at h
    · obtain ⟨⟨t', rest'⟩, hbody, heq⟩ := Option.map_eq_some_iff.mp h
      obtain rfl : rest' = rest := (Prod.mk.inj heq).2
      have := ih hbody
      simp only [List.length_cons]
      omega
    · exact hquote
    · exact hback
  | case4 => cases h

/-- What is read of a string with its quotes is not there any more. -/
theorem string_lt {s t rest : Str} (h : string s = some (t, rest)) : rest.length < s.length := by
  unfold string at h
  split at h
  · obtain ⟨⟨t', rest'⟩, hbody, heq⟩ := Option.map_eq_some_iff.mp h
    obtain rfl : rest' = rest := (Prod.mk.inj heq).2
    have := body_lt hbody
    simp only [List.length_cons]
    omega
  · cases h

/-- Digits are some characters. -/
theorem digits_lt {s rest : Str} {n : ℕ} (h : digits s = some (n, rest)) :
    rest.length < s.length := by
  unfold digits at h
  split at h
  · cases h
  · rename_i hne
    obtain ⟨-, rfl⟩ := Prod.mk.inj (Option.some.inj h)
    have hlen := congrArg List.length (List.takeWhile_append_dropWhile (p := Char.isDigit) (l := s))
    have hpos := List.length_pos_iff.mpr hne
    rw [List.length_append] at hlen
    omega

/-- An integer is some characters. -/
theorem integer_lt {s rest : Str} {n : ℤ} (h : integer s = some (n, rest)) :
    rest.length < s.length := by
  have hmap : ∀ {s : Str} {f : ℕ × Str → ℤ × Str}, (∀ p, (f p).2 = p.2) →
      (digits s).map f = some (n, rest) → rest.length < s.length := by
    intro s f hf hs
    obtain ⟨⟨m, rest'⟩, hdigits, heq⟩ := Option.map_eq_some_iff.mp hs
    obtain rfl : rest' = rest := (hf (m, rest')).symm.trans (congrArg Prod.snd heq)
    exact digits_lt hdigits
  unfold integer at h
  split at h
  · exact (hmap (fun _ => rfl) h).trans (Nat.lt_succ_self _)
  · exact (hmap (fun _ => rfl) h).trans (Nat.lt_succ_self _)
  · exact hmap (fun _ => rfl) h

/-- A number with a point is some characters. -/
theorem decimals_lt {s rest : Str} {q : ℚ} (h : decimals s = some (q, rest)) :
    rest.length < s.length := by
  unfold decimals at h
  split at h
  · rename_i whole s' hwhole
    obtain ⟨⟨m, rest'⟩, hdigits, heq⟩ := Option.map_eq_some_iff.mp h
    obtain rfl : rest' = rest := congrArg Prod.snd heq
    have hfirst := digits_lt hwhole
    have hsecond := digits_lt hdigits
    rw [List.length_cons] at hfirst
    omega
  · cases h

/-- A number with a point and a sign is some characters. -/
theorem real_lt {s rest : Str} {q : ℚ} (h : real s = some (q, rest)) :
    rest.length < s.length := by
  unfold real at h
  split at h
  · obtain ⟨⟨m, rest'⟩, hdecimals, heq⟩ := Option.map_eq_some_iff.mp h
    obtain rfl : rest' = rest := congrArg Prod.snd heq
    exact (decimals_lt hdecimals).trans (Nat.lt_succ_self _)
  · exact (decimals_lt h).trans (Nat.lt_succ_self _)
  · exact decimals_lt h

theorem uint64_lt {s rest : Str} {n : ℤ} (h : uint64 s = some (n, rest)) :
    rest.length < s.length := by
  obtain ⟨⟨m, rest'⟩, hdigits, heq⟩ := Option.map_eq_some_iff.mp (Option.filter_eq_some_iff.mp h).1
  obtain rfl : rest' = rest := congrArg Prod.snd heq
  exact digits_lt hdigits

end PlainScanner

def plainScanner : Scanner where
  skip s := s.dropWhile isBlank
  string := PlainScanner.string
  real := PlainScanner.real
  int64 := PlainScanner.int64
  uint64 := PlainScanner.uint64
  skip_le _ := (List.dropWhile_sublist isBlank).length_le
  string_lt _ _ _ h := PlainScanner.string_lt h
  real_lt _ _ _ h := PlainScanner.real_lt h
  int64_lt _ _ _ h := PlainScanner.integer_lt (Option.filter_eq_some_iff.mp h).1
  uint64_lt _ _ _ h := PlainScanner.uint64_lt h

namespace PlainScanner

/-! ## It does what is relied on

What the reader relies on is asked of each kind of lexeme: that it is read with anything behind it
that ends it, and that nothing else is taken for it. -/

/-- A lexeme is read up to the quote behind it, and no further. -/
theorem body_lexeme {b : Str} (hb : Lexeme b) (rest : Str) :
    body (b ++ '"' :: rest) = some (b ++ ['"'], rest) := by
  induction hb with
  | nil => rfl
  | plain c hc hs ih =>
    rw [List.cons_append, body, ih]
    · rfl
    · exact hc.1
    · rintro c' rest' rfl
      exact absurd rfl hc.2
  | escaped c hc hs ih =>
    rw [List.cons_append, List.cons_append, body, ih]
    rfl

/-- Behind a number there is no digit and no point. -/
theorem not_digit_of_delimited {rest : Str} (h : Delimited rest) :
    rest.takeWhile Char.isDigit = [] ∧ rest.dropWhile Char.isDigit = rest ∧
      ∀ s, rest ≠ '.' :: s := by
  cases rest with
  | nil => exact ⟨rfl, rfl, fun s hs => by cases hs⟩
  | cons c rest =>
    have hc : c.isDigit = false ∧ c ≠ '.' := by
      rcases h c rfl with hblank | rfl | rfl | rfl
      · rcases of_decide_eq_true hblank with rfl | ⟨hle, hle'⟩
        · decide
        · have hrange : 9 ≤ c.toNat ∧ c.toNat ≤ 13 := ⟨hle, hle'⟩
          refine ⟨?_, ?_⟩
          · rw [Bool.eq_false_iff]
            intro hdigit
            have : 48 ≤ c.toNat := by
              have := hdigit
              simp only [Char.isDigit, Bool.and_eq_true, decide_eq_true_eq,
                UInt32.le_iff_toNat_le] at this
              exact this.1
            omega
          · rintro rfl
            exact absurd hrange (by decide)
      · decide
      · decide
      · decide
    refine ⟨by simp [hc.1], by simp [hc.1], fun s hs => hc.2 (List.cons.inj hs).1⟩

/-- The digits of a number are read back up to the delimiter. -/
theorem digits_toDigits (n : ℕ) {rest : Str} (h : Delimited rest) :
    digits (Nat.toDigits 10 n ++ rest) = some (n, rest) := by
  obtain ⟨htake, hdrop, -⟩ := not_digit_of_delimited h
  have hall : ∀ c ∈ Nat.toDigits 10 n, c.isDigit = true := fun c hc =>
    isDigit_of_mem_toDigits_ten hc
  have hdigits : (Nat.toDigits 10 n ++ rest).takeWhile Char.isDigit = Nat.toDigits 10 n := by
    rw [List.takeWhile_append_of_pos hall, htake, List.append_nil]
  rw [digits, hdigits, if_neg Nat.toDigits_ne_nil, List.dropWhile_append_of_pos hall, hdrop,
    Nat.ofDigitChars_ten_toDigits]

/-- A text that begins with digits begins with no sign. -/
theorem toDigits_no_sign (n : ℕ) (rest : Str) :
    ∃ c s, Nat.toDigits 10 n ++ rest = c :: s ∧ c ≠ '-' ∧ c ≠ '+' := by
  obtain ⟨c, s, hcons⟩ := List.exists_cons_of_ne_nil (Nat.toDigits_ne_nil (b := 10) (n := n))
  have hdigit : c.isDigit = true :=
    isDigit_of_mem_toDigits_ten (n := n) (hcons ▸ List.mem_cons_self)
  refine ⟨c, s ++ rest, by rw [hcons]; rfl, ?_, ?_⟩
  · rintro rfl
    cases hdigit
  · rintro rfl
    cases hdigit

/-- An integer is read back with its sign, up to the delimiter. -/
theorem integer_decText (n : ℤ) {rest : Str} (h : Delimited rest) :
    integer (decText n ++ rest) = some (n, rest) := by
  unfold decText
  split
  · rename_i hneg
    rw [List.cons_append, integer, digits_toDigits _ h, Option.map_some]
    have habs : -(n.natAbs : ℤ) = n := by omega
    rw [habs]
  · rename_i hpos
    have habs : (n.natAbs : ℤ) = n := by omega
    obtain ⟨c, s, hcons, hminus, hplus⟩ := toDigits_no_sign n.natAbs rest
    have hdigits := digits_toDigits n.natAbs h
    rw [hcons] at hdigits ⊢
    rw [integer, hdigits, Option.map_some, habs]
    · exact fun s' hs => hminus (List.cons.inj hs).1
    · exact fun s' hs => hplus (List.cons.inj hs).1

/-- The digits of a number are no number with a point. -/
theorem decimals_toDigits (n : ℕ) {rest : Str} (h : Delimited rest) :
    decimals (Nat.toDigits 10 n ++ rest) = none := by
  have hpoint := (not_digit_of_delimited h).2.2
  rw [decimals, digits_toDigits n h]
  split
  · rename_i whole s' heq
    exact absurd (Prod.mk.inj (Option.some.inj heq)).2 (hpoint s')
  · rfl

/-- The text of an integer is no number with a point. -/
theorem real_decText (n : ℤ) {rest : Str} (h : Delimited rest) :
    real (decText n ++ rest) = none := by
  unfold decText
  split
  · rw [List.cons_append, real, decimals_toDigits _ h]
    rfl
  · obtain ⟨c, s, hcons, hminus, hplus⟩ := toDigits_no_sign n.natAbs rest
    have hnone := decimals_toDigits n.natAbs h
    rw [hcons] at hnone ⊢
    rw [real, hnone]
    · exact fun s' hs => hminus (List.cons.inj hs).1
    · exact fun s' hs => hplus (List.cons.inj hs).1

theorem digits_none {c : Char} (hc : startsNumber c = false) (s : Str) : digits (c :: s) = none := by
  have hdigit : c.isDigit = false := (Bool.or_eq_false_iff.mp hc).1
  rw [digits, List.takeWhile_cons, hdigit]
  rfl

theorem signs_none {c : Char} (hc : startsNumber c = false) : c ≠ '-' ∧ c ≠ '+' := by
  constructor
  · rintro rfl
    exact absurd hc (by decide)
  · rintro rfl
    exact absurd hc (by decide)

theorem integer_none {c : Char} (hc : startsNumber c = false) (s : Str) :
    integer (c :: s) = none := by
  rw [integer, digits_none hc]
  · rfl
  · exact fun s' hs => (signs_none hc).1 (List.cons.inj hs).1
  · exact fun s' hs => (signs_none hc).2 (List.cons.inj hs).1

theorem real_none {c : Char} (hc : startsNumber c = false) (s : Str) : real (c :: s) = none := by
  rw [real, decimals, digits_none hc]
  · exact fun s' hs => (signs_none hc).1 (List.cons.inj hs).1
  · exact fun s' hs => (signs_none hc).2 (List.cons.inj hs).1

end PlainScanner

open PlainScanner in
/-- The plain scanner is one of those that the reader's results are about. -/
theorem spirit_plainScanner : plainScanner.Spirit where
  skip_blank c s hc := by
    show (c :: s).dropWhile isBlank = s.dropWhile isBlank
    rw [List.dropWhile_cons, if_pos hc]
  skip_mark c s hc _ := by
    show (c :: s).dropWhile isBlank = c :: s
    rw [List.dropWhile_cons, hc]
    rfl
  string_lexeme b rest hb := by
    show (body (b ++ '"' :: rest)).map _ = _
    rw [body_lexeme hb]
    rfl
  string_none c s hc := by
    show string (c :: s) = none
    rw [string]
    exact fun s' hs => hc (List.cons.inj hs).1
  real_none c s hc := real_none hc s
  int64_none c s hc := by
    show (integer (c :: s)).filter _ = none
    rw [integer_none hc]
    rfl
  uint64_none c s hc := by
    show ((digits (c :: s)).map _).filter _ = none
    rw [digits_none hc]
    rfl
  real_decText n rest h := real_decText n h
  int64_decText n rest hlow hhigh h := by
    show (integer (decText n ++ rest)).filter _ = _
    rw [integer_decText n h, Option.filter_some, if_pos (decide_eq_true ⟨hlow, hhigh⟩)]
  -- an integer that is too large is left to the unsigned ones
  int64_large n rest hlarge h := by
    show (integer (decText n ++ rest)).filter _ = _
    rw [integer_decText n h, Option.filter_some, if_neg]
    exact fun hdec => absurd (of_decide_eq_true hdec).2 (not_lt.mpr hlarge)
  uint64_decText n rest hlow hhigh h := by
    have htext : decText n = Nat.toDigits 10 n.natAbs := if_neg (not_lt.mpr hlow)
    have habs : (n.natAbs : ℤ) = n := by omega
    show ((digits (decText n ++ rest)).map _).filter _ = _
    rw [htext, digits_toDigits _ h, Option.map_some, Option.filter_some, habs,
      if_pos (decide_eq_true hhigh)]

end Skweltch
