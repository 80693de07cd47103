import Mathlib.Tactic

/-!
# FIFO connections — messages in flight, in order on each connection only

The messages in flight on any number of connections are one list, each with the key of its
connection, oldest first. Taking a message takes the oldest of its connection; messages of other
connections may be older. So connections are FIFO and lossless, and nothing is promised between
them.
-/

namespace Fifo

variable {κ μ : Type}

/-- Taking `m`, the oldest message of connection `k`, from the messages in flight. -/
def Takes (c : List (κ × μ)) (k : κ) (m : μ) (c' : List (κ × μ)) : Prop :=
  ∃ pre post, c = pre ++ (k, m) :: post ∧ (∀ p ∈ pre, p.1 ≠ k) ∧ c' = pre ++ post

def queue [DecidableEq κ] (k : κ) (c : List (κ × μ)) : List μ :=
  c.filterMap fun p => if p.1 = k then some p.2 else none

theorem Takes.perm {c c' : List (κ × μ)} {k : κ} {m : μ} (h : Takes c k m c') :
    c.Perm ((k, m) :: c') := by
  obtain ⟨pre, post, rfl, -, rfl⟩ := h
  exact List.perm_middle

theorem exists_takes {c : List (κ × μ)} (h : c ≠ []) : ∃ k m c', Takes c k m c' := by
  cases c with
  | nil => exact absurd rfl h
  | cons p c => exact ⟨p.1, p.2, c, [], c, rfl, by simp, rfl⟩

/-- What is sent later is not in the way. -/
theorem Takes.append {c c' : List (κ × μ)} {k : κ} {m : μ} (h : Takes c k m c')
    (late : List (κ × μ)) : Takes (c ++ late) k m (c' ++ late) := by
  obtain ⟨pre, post, rfl, hpre, rfl⟩ := h
  exact ⟨pre, post ++ late, by simp, hpre, by simp⟩

variable [DecidableEq κ]

@[simp] theorem queue_nil (k : κ) : queue k ([] : List (κ × μ)) = [] := rfl

@[simp] theorem queue_append (k : κ) (c d : List (κ × μ)) :
    queue k (c ++ d) = queue k c ++ queue k d := List.filterMap_append

theorem queue_cons_self (k : κ) (m : μ) (c : List (κ × μ)) :
    queue k ((k, m) :: c) = m :: queue k c := by
  simp [queue]

theorem queue_cons_ne {j k : κ} (h : j ≠ k) (m : μ) (c : List (κ × μ)) :
    queue k ((j, m) :: c) = queue k c := by
  simp [queue, h]

theorem queue_eq_nil {k : κ} {c : List (κ × μ)} (h : ∀ p ∈ c, p.1 ≠ k) : queue k c = [] := by
  induction c with
  | nil => rfl
  | cons p c ih =>
    rw [queue_cons_ne (h p (List.mem_cons_self ..)), ih fun q hq => h q (List.mem_cons_of_mem _ hq)]

/-- On its own connection the message taken is the first. -/
theorem Takes.queue_self {c c' : List (κ × μ)} {k : κ} {m : μ} (h : Takes c k m c') :
    queue k c = m :: queue k c' := by
  obtain ⟨pre, post, rfl, hpre, rfl⟩ := h
  rw [queue_append, queue_append, queue_eq_nil hpre, queue_cons_self]
  rfl

theorem Takes.queue_ne {c c' : List (κ × μ)} {j k : κ} {m : μ} (h : Takes c j m c')
    (hne : j ≠ k) : queue k c = queue k c' := by
  obtain ⟨pre, post, rfl, -, rfl⟩ := h
  rw [queue_append, queue_append, queue_cons_ne hne]

end Fifo
