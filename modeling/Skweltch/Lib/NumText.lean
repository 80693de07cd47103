import Skweltch.Lib.FixedWidth

/-!
# Numbers as text — the conversions of a C program

`hexVal` is what `sscanf("%x")` reads from a one-character string, `hexText` what `sprintf("%x")`
writes, and `readInt` what a strict text-to-`int` conversion reads: the whole text has to be a
decimal number in range.
-/

namespace NumText

open FixedWidth

/-! ## Hexadecimal digits -/

/-- The value of a hexadecimal digit, in either case. -/
def hexVal (c : Char) : Option Nat :=
  if '0' ≤ c ∧ c ≤ '9' then some (c.toNat - '0'.toNat)
  else if 'a' ≤ c ∧ c ≤ 'f' then some (c.toNat - 'a'.toNat + 10)
  else if 'A' ≤ c ∧ c ≤ 'F' then some (c.toNat - 'A'.toNat + 10)
  else none

def hexText (n : Nat) : List Char := Nat.toDigits 16 n

theorem hexText_digit {n : Nat} (h : n < 16) : hexText n = [Nat.digitChar n] :=
  Nat.toDigits_of_lt_base h

theorem hexVal_digitChar {n : Nat} (h : n < 16) : hexVal (Nat.digitChar n) = some n := by
  have all : ∀ m : Fin 16, hexVal (Nat.digitChar m) = some m.val := by decide
  exact all ⟨n, h⟩

/-! ## Decimal `int`s -/

def digitVal (c : Char) : Option Nat :=
  if '0' ≤ c ∧ c ≤ '9' then some (c.toNat - '0'.toNat) else none

/-- A non-empty string of decimal digits. -/
def readNat : List Char → Option Nat
  | [] => none
  | c :: cs => (c :: cs).foldlM (fun n d => (digitVal d).map (10 * n + ·)) 0

/-- An optional sign and decimal digits whose value an `int` can hold. -/
def readInt (cs : List Char) : Option Int :=
  let value : Option Int :=
    match cs with
    | '-' :: ds => (readNat ds).map fun n => -(n : Int)
    | '+' :: ds => (readNat ds).map fun n => (n : Int)
    | ds => (readNat ds).map fun n => (n : Int)
  value.filter fun x => decide (IsInt x)

/-- The number that a decimal text stands for, in range or not. -/
def decimal (cs : List Char) : Option Int :=
  match cs with
  | '-' :: ds => (readNat ds).map fun n => -(n : Int)
  | '+' :: ds => (readNat ds).map fun n => (n : Int)
  | ds => (readNat ds).map fun n => (n : Int)

theorem decimal_of_readInt {cs : List Char} {n : Int} (h : readInt cs = some n) :
    decimal cs = some n := by
  have hread : readInt cs = (decimal cs).filter fun x => decide (IsInt x) := rfl
  rw [hread] at h
  exact (Option.filter_eq_some_iff.mp h).1

example : readInt ['-', '1', '2'] = some (-12) := by decide

/-! ## Writing decimal integers -/

def decText (n : Int) : List Char :=
  if n < 0 then '-' :: Nat.toDigits 10 n.natAbs else Nat.toDigits 10 n.natAbs

theorem toDigits_ten_injective {m n : Nat} (h : Nat.toDigits 10 m = Nat.toDigits 10 n) : m = n := by
  rw [← Nat.ofDigitChars_ten_toDigits (n := m), h, Nat.ofDigitChars_ten_toDigits]

theorem isDigit_of_mem_toDigits_ten {c : Char} {n : Nat} (h : c ∈ Nat.toDigits 10 n) :
    c.isDigit = true :=
  Nat.isDigit_of_mem_toDigits (by decide) le_rfl h

theorem decText_ne_nil (n : Int) : decText n ≠ [] := by
  unfold decText
  split
  · exact List.cons_ne_nil _ _
  · exact Nat.toDigits_ne_nil

/-- The text of a number is made of digits, behind a sign at most. -/
theorem mem_decText {c : Char} {n : Int} (h : c ∈ decText n) : c = '-' ∨ c.isDigit = true := by
  unfold decText at h
  split at h
  · rcases List.mem_cons.mp h with rfl | h
    · exact Or.inl rfl
    · exact Or.inr (isDigit_of_mem_toDigits_ten h)
  · exact Or.inr (isDigit_of_mem_toDigits_ten h)

/-- Digits are read from left to right, each ten times what came before. -/
theorem foldlM_digitVal {cs : List Char} (h : ∀ c ∈ cs, c.isDigit = true) (n : Nat) :
    cs.foldlM (fun n d => (digitVal d).map (10 * n + ·)) n = some (Nat.ofDigitChars 10 cs n) := by
  induction cs generalizing n with
  | nil => rfl
  | cons c cs ih =>
    have hc : '0' ≤ c ∧ c ≤ '9' := by
      have hdigit := h c (List.mem_cons_self ..)
      simp only [Char.isDigit, Bool.and_eq_true, decide_eq_true_eq] at hdigit
      exact hdigit
    have hval : digitVal c = some (c.toNat - '0'.toNat) := if_pos hc
    rw [List.foldlM_cons, hval, Nat.ofDigitChars_cons]
    exact ih (fun d hd => h d (List.mem_cons_of_mem _ hd)) _

/-- What is written for a natural number is read as it. -/
theorem readNat_toDigits (n : Nat) : readNat (Nat.toDigits 10 n) = some n := by
  obtain ⟨c, cs, hcons⟩ := List.exists_cons_of_ne_nil (Nat.toDigits_ne_nil (b := 10) (n := n))
  have hfold := foldlM_digitVal (fun c hc => isDigit_of_mem_toDigits_ten (n := n) hc) 0
  rw [Nat.ofDigitChars_ten_toDigits] at hfold
  rw [hcons] at hfold ⊢
  exact hfold

/-- An `int` is read back as it was written. -/
theorem readInt_decText {n : Int} (h : IsInt n) : readInt (decText n) = some n := by
  unfold decText
  split
  · have habs : -(n.natAbs : Int) = n := by omega
    rw [readInt, readNat_toDigits]
    show Option.filter _ (some (-(n.natAbs : Int))) = some n
    rw [habs]
    exact Option.filter_eq_some_iff.mpr ⟨rfl, decide_eq_true h⟩
  · have habs : (n.natAbs : Int) = n := by omega
    obtain ⟨c, cs, hcons⟩ :=
      List.exists_cons_of_ne_nil (Nat.toDigits_ne_nil (b := 10) (n := n.natAbs))
    have hdigit : c.isDigit = true :=
      isDigit_of_mem_toDigits_ten (n := n.natAbs) (hcons ▸ List.mem_cons_self)
    have hread := readNat_toDigits n.natAbs
    rw [hcons] at hread ⊢
    have hminus : c ≠ '-' := by
      rintro rfl
      cases hdigit
    have hplus : c ≠ '+' := by
      rintro rfl
      cases hdigit
    rw [readInt, hread]
    · show Option.filter _ (some (n.natAbs : Int)) = some n
      rw [habs]
      exact Option.filter_eq_some_iff.mpr ⟨rfl, decide_eq_true h⟩
    · exact fun ds hds => hminus (List.cons.inj hds).1
    · exact fun ds hds => hplus (List.cons.inj hds).1

/-- The text of a number tells which one it is. -/
theorem decText_injective : Function.Injective decText := by
  have hsign : ∀ m n : Nat, '-' :: Nat.toDigits 10 m ≠ Nat.toDigits 10 n := by
    intro m n h
    have hdigit : ('-' : Char).isDigit = true :=
      isDigit_of_mem_toDigits_ten (n := n) (h ▸ List.mem_cons_self)
    cases hdigit
  intro m n h
  unfold decText at h
  split at h
  · split at h
    · have := toDigits_ten_injective (List.cons.inj h).2
      omega
    · exact absurd h (hsign _ _)
  · split at h
    · exact absurd h.symm (hsign _ _)
    · have := toDigits_ten_injective h
      omega

end NumText
