import Skweltch.Core.SinkWorker
import Skweltch.Lib.NumText

/-!
# Skweltch — workcharfreq

`WWorker::processMsg` (`work/workcharfreq.cpp`) writes for each of the 26 letters one hexadecimal
digit: the digit is read from the result string, incremented and written back with `sprintf` into
a buffer of two bytes. The guard lets sixteen through, whose text `10` needs three bytes with the
zero behind it: there the buffer is overrun, and the language does not define what happens.
-/

namespace Skweltch

open NumText

namespace WorkCharFreq

/-- The body of the loop over the word: count one more `ch` in the result string. -/
def countLetter (result : Str) (ch : Char) : Except Fault Str :=
  let index : Int := (ch.toNat : Int) - ('a'.toNat : Int)
  if index < 0 ∨ index > 25 then .error (.threw "letter not in range.")
  else
    match hexVal (result.getD index.toNat '\x00') with
    -- `c` is still uninitialised
    | none => .error .undefined
    | some d =>
      let c := d + 1
      if c > 16 then .error (.threw "ony handle up to 16 of each letter.")
      -- `ss` has room for one digit and the zero that `sprintf` puts behind it
      else if (hexText c).length > 1 then .error .undefined
      else .ok (result.set index.toNat ((hexText c).headD '\x00'))

def encode (word : Str) : Except Fault Str :=
  word.foldlM countLetter (List.replicate 26 '0')

/-- The message for the sink that `processMsg` hands to `sendSinkMsg`. -/
def processMsg (msg : DataMsg Str) : Except Fault SinkMsg :=
  (encode msg.payload).map fun result => .dataMsg msg.id [result]

/-! ## What the digits say -/

def letter (i : Fin 26) : Char := Char.ofNat ('a'.toNat + i)

/-- A word over `'a'..'z'`. -/
def Lower (word : Str) : Prop := ∀ ch ∈ word, 'a' ≤ ch ∧ ch ≤ 'z'

instance (word : Str) : Decidable (Lower word) :=
  List.decidableBAll (fun ch => 'a' ≤ ch ∧ ch ≤ 'z') word

/-- No letter more often than one hexadecimal digit can say. -/
def Few (word : Str) : Prop := ∀ i, word.count (letter i) ≤ 15

instance (word : Str) : Decidable (Few word) := by
  unfold Few
  infer_instance

/-- The result string when letter `i` has occurred `f i` times, which is at most fifteen. -/
def tally (f : Fin 26 → Nat) : Str := List.ofFn fun i => Nat.digitChar (f i)

theorem tally_zero : tally (fun _ => 0) = List.replicate 26 '0' := by decide

/-- The digit of a letter. -/
theorem tally_getD (f : Fin 26 → Nat) (i : Fin 26) (d : Char) :
    (tally f).getD i d = Nat.digitChar (f i) := by
  have hi : i.val < (tally f).length := by simp [tally]
  rw [List.getD_eq_getElem?_getD, List.getElem?_eq_getElem hi, Option.getD_some]
  simp only [tally, List.getElem_ofFn]

/-- Writing the next digit of one letter leaves the others as they are. -/
theorem tally_set (f : Fin 26 → Nat) (i : Fin 26) :
    (tally f).set i (Nat.digitChar (f i + 1)) = tally (Function.update f i (f i + 1)) := by
  apply List.ext_getElem
  · simp [tally]
  · intro j h₁ h₂
    have hj : j < 26 := by simpa [tally] using h₂
    simp only [tally, List.getElem_set, List.getElem_ofFn, Function.update_apply, Fin.ext_iff]
    by_cases h : i.val = j
    · rw [if_pos h, if_pos h.symm]
    · rw [if_neg h, if_neg (Ne.symm h)]

/-- The small letters are the twenty-six. -/
theorem exists_letter {ch : Char} (h : 'a' ≤ ch ∧ ch ≤ 'z') : ∃ i, letter i = ch := by
  have h1 : 97 ≤ ch.toNat := h.1
  have h2 : ch.toNat ≤ 122 := h.2
  refine ⟨⟨ch.toNat - 97, by omega⟩, ?_⟩
  unfold letter
  rw [show 'a'.toNat + (ch.toNat - 97) = ch.toNat from by
    show 97 + (ch.toNat - 97) = ch.toNat
    omega]
  exact Char.ofNat_toNat ch

theorem letter_toNat (i : Fin 26) : (letter i).toNat = 97 + i := by
  have all : ∀ j : Fin 26, (letter j).toNat = 97 + j := by decide
  exact all i

theorem letter_injective {i j : Fin 26} (h : letter i = letter j) : i = j := by
  have := letter_toNat i
  rw [h, letter_toNat j] at this
  exact Fin.ext (by omega)

/-- The index that the loop computes for a letter. -/
theorem letter_index (i : Fin 26) :
    ((letter i).toNat : Int) - ('a'.toNat : Int) = ((i.val : Nat) : Int) := by
  rw [letter_toNat]
  show ((97 + i.val : Nat) : Int) - 97 = (i : Int)
  omega

/-- Up to fifteen a letter is counted. -/
theorem countLetter_tally {f : Fin 26 → Nat} {i : Fin 26} (h : f i < 15) :
    countLetter (tally f) (letter i) = .ok (tally (Function.update f i (f i + 1))) := by
  have hi := i.isLt
  have hd : hexVal (Nat.digitChar (f i)) = some (f i) := hexVal_digitChar (by omega)
  have htext : hexText (f i + 1) = [Nat.digitChar (f i + 1)] := hexText_digit (by omega)
  simp only [countLetter, letter_index, Int.toNat_natCast, tally_getD, hd, htext,
    List.length_singleton, List.headD_cons, tally_set]
  rw [if_neg (by omega), if_neg (by omega), if_neg (lt_irrefl 1)]

/-- At the sixteenth the buffer is overrun: the guard is one too late. -/
theorem countLetter_full {f : Fin 26 → Nat} {i : Fin 26} (h : f i = 15) :
    countLetter (tally f) (letter i) = .error .undefined := by
  have hi := i.isLt
  have hd : hexVal (Nat.digitChar 15) = some 15 := hexVal_digitChar (by decide)
  have htext : (hexText (15 + 1)).length > 1 := by decide
  simp only [countLetter, letter_index, Int.toNat_natCast, tally_getD, h, hd]
  rw [if_neg (by omega), if_neg (by omega), if_pos htext]

/-- The loop over a word, from any counts: it comes to its end exactly if no count gets past
fifteen. -/
theorem foldlM_countLetter {word : Str} (h : Lower word) {f : Fin 26 → Nat} (hf : ∀ i, f i ≤ 15) :
    word.foldlM countLetter (tally f) =
      if ∀ i, f i + word.count (letter i) ≤ 15
      then .ok (tally fun i => f i + word.count (letter i)) else .error .undefined := by
  induction word generalizing f with
  | nil => simp [hf, pure, Except.pure]
  | cons ch word ih =>
    obtain ⟨hch, hword⟩ := List.forall_mem_cons.mp h
    obtain ⟨i, rfl⟩ := exists_letter hch
    rw [List.foldlM_cons]
    rcases Nat.lt_or_ge (f i) 15 with hlt | hge
    -- there is room for one more of this letter
    · have hcount : ∀ j, Function.update f i (f i + 1) j + word.count (letter j) =
          f j + (letter i :: word).count (letter j) := by
        intro j
        rw [Function.update_apply, List.count_cons]
        by_cases hj : j = i
        · subst hj
          simp
          omega
        · have hne : letter i ≠ letter j := fun hl => hj (letter_injective hl).symm
          simp [hj, hne]
      have hupdate : ∀ j, Function.update f i (f i + 1) j ≤ 15 := by
        intro j
        rw [Function.update_apply]
        split
        · omega
        · exact hf j
      rw [countLetter_tally hlt]
      refine (ih hword hupdate).trans ?_
      simp only [hcount]
    -- the sixteenth occurrence is written over the end of `ss`
    · have hfull : f i = 15 := le_antisymm (hf i) hge
      have hmany : ¬ ∀ j, f j + (letter i :: word).count (letter j) ≤ 15 := by
        intro hall
        have hi := hall i
        rw [List.count_cons_self] at hi
        omega
      rw [countLetter_full hfull, if_neg hmany]
      rfl

/-- The string for a word over `'a'..'z'`: every letter's digit, if each has one. -/
theorem encode_eq {word : Str} (h : Lower word) :
    encode word =
      if Few word then .ok (tally fun i => word.count (letter i)) else .error .undefined := by
  have hrun := foldlM_countLetter h (f := fun _ => 0) fun _ => Nat.zero_le _
  rw [tally_zero] at hrun
  simpa [encode, Few] using hrun

/-- What is sent for a word that each letter has a digit for. -/
theorem processMsg_eq {msg : DataMsg Str} (h : Lower msg.payload) (hfew : Few msg.payload) :
    processMsg msg = .ok (.dataMsg msg.id [tally fun i => msg.payload.count (letter i)]) := by
  rw [processMsg, encode_eq h, if_pos hfew]
  rfl

/-- What happens at a word with one letter too often. -/
theorem processMsg_of_many {msg : DataMsg Str} (h : Lower msg.payload) (hmany : ¬ Few msg.payload) :
    processMsg msg = .error .undefined := by
  rw [processMsg, encode_eq h, if_neg hmany]
  rfl

end WorkCharFreq

end Skweltch
