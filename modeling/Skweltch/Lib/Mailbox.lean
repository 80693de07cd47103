import Skweltch.Lib.EventLoop

/-!
# Mailboxes — an event loop fed from two FIFO queues

Items arrive on two queues, in any order and at any time. Before each iteration of a loop a
selection looks at which queues hold something and the oldest item of the queue it names is taken.
What arrives between two selections is one `Arrivals`, so a list of `Arrivals` is an order and
timing of everything that arrives.

`accounting` is the balance along a run: handled plus queued is arrived. `drained` is what it
yields for a selection that prefers the first queue: when the loop is left because of an item of
the second queue, everything that had arrived on the first one is handled.
-/

namespace Mailbox

open EventLoop

variable {α β ε σ ω ρ γ : Type}

inductive Choice where
  | first
  | second
  | neither
deriving DecidableEq, Repr

/-- The items waiting, oldest first. -/
structure Queues (α β : Type) where
  first : List α
  second : List β
deriving DecidableEq, Repr

/-- The items that arrive between two selections, oldest first. -/
abbrev Arrivals (α β : Type) := Queues α β

/-- The item an iteration gets. -/
inductive Taken (α β : Type) where
  | first (a : α)
  | second (b : β)
  | nothing
deriving DecidableEq, Repr

def Queues.arrive (q : Queues α β) (new : Arrivals α β) : Queues α β :=
  { first := q.first ++ new.first, second := q.second ++ new.second }

/-- The item taken for what a selection answers, and what stays. -/
def take (choose : Bool → Bool → Choice) (q : Queues α β) : Taken α β × Queues α β :=
  match choose (!q.first.isEmpty) (!q.second.isEmpty), q with
  | .first, ⟨a :: as, bs⟩ => (.first a, ⟨as, bs⟩)
  | .second, ⟨as, b :: bs⟩ => (.second b, ⟨as, bs⟩)
  | _, q => (.nothing, q)

/-- What the loop is told in each iteration. -/
def events (choose : Bool → Bool → Choice) (event : Taken α β → ε) :
    Queues α β → List (Arrivals α β) → List ε
  | _, [] => []
  | q, new :: news =>
    event (take choose (q.arrive new)).1 ::
      events choose event (take choose (q.arrive new)).2 news

/-- Everything that arrives on the first queue. -/
def arrived (news : List (Arrivals α β)) : List α := news.flatMap fun new => new.first

/-- A selection that never passes over the first queue. -/
def PrefersFirst (choose : Bool → Bool → Choice) : Prop := ∀ second, choose true second = .first

/-- What a loop has to do with the items for `accounting`: an item of the first queue is handled
by one call and is no reason to leave with `kill`; nothing else is handled; an iteration without
an item does not leave with `kill` either. -/
structure Handles (body : Body σ ε ω ρ) (event : Taken α β → ε) (handled : ω → Option γ)
    (result : α → Option γ) (kill : ρ) : Prop where
  stays : ∀ s a, (body s (event (.first a))).2 ≠ .exit kill
  first : ∀ s a s', (body s (event (.first a))).2 = .next s' →
    (((body s (event (.first a))).1.filterMap handled).map some) = [result a]
  second : ∀ s b, (body s (event (.second b))).1.filterMap handled = []
  nothing : ∀ s, (body s (event .nothing)).1.filterMap handled = []
  waits : ∀ s, (body s (event .nothing)).2 ≠ .exit kill

/-- **What one turn takes**: the oldest item of the queue that is named, or nothing. -/
theorem take_cases (choose : Bool → Bool → Choice) (q : Queues α β) :
    (∃ a as, q.first = a :: as ∧ take choose q = (.first a, { q with first := as })) ∨
      (∃ b bs, q.second = b :: bs ∧ choose (!q.first.isEmpty) true = .second ∧
        take choose q = (.second b, { q with second := bs })) ∨
      take choose q = (.nothing, q) := by
  obtain ⟨as, bs⟩ := q
  unfold take
  cases hc : choose (!as.isEmpty) (!bs.isEmpty) with
  | first =>
    cases as with
    | nil => exact Or.inr (Or.inr (by simp))
    | cons a as => exact Or.inl ⟨a, as, rfl, rfl⟩
  | second =>
    cases bs with
    | nil => exact Or.inr (Or.inr (by simp))
    | cons b bs => exact Or.inr (Or.inl ⟨b, bs, rfl, hc, rfl⟩)
  | neither => exact Or.inr (Or.inr (by simp))

variable {choose : Bool → Bool → Choice} {event : Taken α β → ε} {body : Body σ ε ω ρ}
  {handled : ω → Option γ} {result : α → Option γ} {kill : ρ}

/-- The balance of a run that left with `kill`, and what the last selection found: an item of the
second queue, with nothing on the first if that is preferred. -/
theorem accounting (h : Handles body event handled result kill)
    (hchoose : PrefersFirst choose) (news : List (Arrivals α β)) {q : Queues α β} {s : σ}
    {outs : List (List ω)}
    (hrun : run body s (events choose event q news) = (outs, .exit kill)) :
    (outs.flatten.filterMap handled).map some =
      (q.first ++ arrived (news.take outs.length)).map result := by
  induction news generalizing q s outs with
  | nil => exact absurd (congrArg Prod.snd hrun) (by simp [events])
  | cons new news ih =>
    rw [events] at hrun
    rcases htake : take choose (q.arrive new) with ⟨t, q'⟩
    rw [htake] at hrun
    rcases hbody : body s (event t) with ⟨out, s' | r⟩
    · -- the loop goes on: what this iteration handles has left the queue
      rw [run_cons_next hbody, Prod.mk.injEq] at hrun
      obtain ⟨rfl, hflow⟩ := hrun
      have hrest := ih (Prod.ext rfl hflow)
      have hstep : (out.filterMap handled).map some ++ q'.first.map result =
          (q.first ++ new.first).map result := by
        -- only an item of the first queue is handled
        rcases take_cases choose (q.arrive new) with ⟨a, as, hq, ht⟩ | ⟨b, bs, -, -, ht⟩ | ht
        · rw [htake, Prod.mk.injEq] at ht
          obtain ⟨rfl, rfl⟩ := ht
          have := h.first s a s' (by rw [hbody])
          rw [hbody] at this
          rw [this, show q.first ++ new.first = a :: as from hq]
          rfl
        · rw [htake, Prod.mk.injEq] at ht
          obtain ⟨rfl, rfl⟩ := ht
          have := h.second s b
          rw [hbody] at this
          rw [this]
          rfl
        · rw [htake, Prod.mk.injEq] at ht
          obtain ⟨rfl, rfl⟩ := ht
          have := h.nothing s
          rw [hbody] at this
          rw [this]
          rfl
      rw [List.flatten_cons, List.filterMap_append, List.map_append, hrest, List.map_append,
        ← List.append_assoc, hstep, List.length_cons, List.take_succ_cons, arrived, arrived,
        List.flatMap_cons]
      simp
    · -- the loop is left: not because of the first queue, so that one is empty
      rw [run_cons_exit hbody, Prod.mk.injEq] at hrun
      obtain ⟨rfl, hr⟩ := hrun
      have hkill : (body s (event t)).2 = .exit kill := by rw [hbody, ← hr]
      rcases take_cases choose (q.arrive new) with ⟨a, as, -, ht⟩ | ⟨b, bs, -, hc, ht⟩ | ht
      · rw [htake, Prod.mk.injEq] at ht
        obtain ⟨rfl, -⟩ := ht
        exact absurd hkill (h.stays s a)
      · rw [htake, Prod.mk.injEq] at ht
        obtain ⟨rfl, -⟩ := ht
        have hempty : q.first ++ new.first = [] := by
          by_contra hne
          have hfull : (!(q.arrive new).first.isEmpty) = true := by
            simpa [Queues.arrive] using hne
          rw [hfull, hchoose] at hc
          cases hc
        have := h.second s b
        rw [hbody] at this
        simpa [arrived, this] using hempty
      · rw [htake, Prod.mk.injEq] at ht
        obtain ⟨rfl, -⟩ := ht
        exact absurd hkill (h.waits s)

/-- **Graceful drain.** A loop that prefers the first queue has handled everything that had arrived
there when an item of the second queue makes it leave. -/
theorem drained (h : Handles body event handled result kill) (hchoose : PrefersFirst choose)
    {news : List (Arrivals α β)} {s : σ} {outs : List (List ω)}
    (hrun : run body s (events choose event ⟨[], []⟩ news) = (outs, .exit kill)) :
    (outs.flatten.filterMap handled).map some =
      (arrived (news.take outs.length)).map result := by
  have := accounting h hchoose news hrun
  rwa [List.nil_append] at this

end Mailbox
