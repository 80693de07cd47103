import Mathlib.Logic.Relation
import Skweltch.Build.PollDir
import Skweltch.Build.WorkBash

/-!
# Skweltch — the build loop

`build/build.json`: polldir watches a directory, workbash builds it and tells sinkbuild how that went.
The directory changes at any time, and each party acts when it likes; `crc` is the digest of every
version of the directory. Any `send` can throw, which is logged, and the message is lost: polldir
then remembers a digest that it has told no one of. polldir can end at any time, by an interrupt or
because a scan throws, and so can workbash, by an interrupt or a kill. What is taken for granted is
that messages that were sent arrive, that workbash can receive them, and that a build runs to its
end.

A change that polldir has seen and sent is on its way to workbash, is waited with, or has been built
(`Watching`); so when everything is quiet and the last message was not lost, the last build was one
of the last version.
-/

namespace Skweltch

open EventLoop FixedWidth Relation

/-- The parties and the messages in flight. -/
structure BuildNet where
  /-- how often the directory has changed -/
  version : Nat
  poll : Flow (PollState Int) Bool
  /-- the last message of polldir was lost -/
  missed : Bool
  toWork : List (DataMsg Str)
  bash : Flow BashState WorkExit
  /-- the versions that were built, each as it was when the build began -/
  built : List Nat
  toSink : List (DataMsg Str)

namespace BuildNet

/-! ## The loop

`polldir` looks at the directory, `workbash` builds and tells `sinkbuild`. Both may end at any time,
and each of their sends may fail. -/

/-- The messages that arrive. -/
def sent (acts : List PollAct) : List (DataMsg Str) :=
  acts.filterMap fun
    | .send m false => some m
    | _ => none

/-- Whether the last message is lost, as it was before if none is sent. -/
def missedBy (acts : List PollAct) (missed : Bool) : Bool :=
  acts.foldl (fun missed act =>
    match act with
    | .send _ throws => throws
    | .sleep _ => missed) missed

def replies (acts : List BashAct) : List (DataMsg Str) :=
  acts.filterMap fun
    | .replied m => some m
    | _ => none

def builds (acts : List BashAct) : Nat := acts.count .built

/-- polldir has taken the digest of the directory and waits until it changes. -/
def start (crc : Nat → Int) : BuildNet :=
  { version := 0, poll := .next (Poll.init (int32 (crc 0))), missed := false, toWork := []
    bash := .next WorkBash.init, built := [], toSink := [] }

inductive Step (dir : Str) (sleeptime : Int) (crc : Nat → Int) (env : BashEnv) :
    BuildNet → BuildNet → Prop where
  | edit {n : BuildNet} : Step dir sleeptime crc env n { n with version := n.version + 1 }
  | look {n : BuildNet} {s : PollState Int} {acts : List PollAct}
      {flow : Flow (PollState Int) Bool} (sendFails quitInSend quitAfterSend : Bool)
      (hs : n.poll = .next s)
      (hb : Poll.body (PollDir.worker dir sleeptime) s
        { seen := crc n.version, sendFails := sendFails, quitInSend := quitInSend,
          quitAfterSend := quitAfterSend } = (acts, flow)) :
      Step dir sleeptime crc env n { n with
        poll := flow
        missed := missedBy acts n.missed
        toWork := n.toWork ++ sent acts }
  /-- polldir ends -/
  | stop {n : BuildNet} (b : Bool) : Step dir sleeptime crc env n { n with poll := .exit b }
  /-- one iteration of `Work::process`, in which a message or nothing has come -/
  | work {n : BuildNet} {a : Option (DataMsg Str)} {rest : List (DataMsg Str)}
      {out : List (WorkCall (DataMsg Str))} {b s : BashState} {acts : List BashAct}
      (hn : n.bash = .next b) (ha : n.toWork = a.toList ++ rest)
      (hb : Work.body () (WorkBash.event a) = (out, .next ()))
      (hh : WorkBash.handleAll env b out = .ok (s, acts)) :
      Step dir sleeptime crc env n { n with
        toWork := rest
        bash := .next s
        built := n.built ++ List.replicate (builds acts) n.version
        toSink := n.toSink ++ replies acts }
  /-- workbash ends -/
  | kill {n : BuildNet} (e : WorkExit) : Step dir sleeptime crc env n { n with bash := .exit e }

/-- The digests tell the versions apart, and none of them is what the constructor of polldir makes
of the first. -/
structure TellsApart (crc : Nat → Int) : Prop where
  injective : Function.Injective crc
  kept : ∀ v, 0 < v → crc v ≠ int32 (crc 0)

/-- Both parties run, nothing is on its way, nothing is waited with, and polldir has seen the
directory as it is. -/
structure Quiet (crc : Nat → Int) (n : BuildNet) : Prop where
  seen : ∃ s, n.poll = .next s ∧ s.worker = crc n.version
  delivered : n.toWork = []
  idle : ∃ b, n.bash = .next b ∧ b.msgid < 0

/-- How the `i`-th build went, if sinkbuild was told. -/
def toldOf (env : BashEnv) (i : Nat) : Option Str :=
  if env.senderFails i then none else some (WorkBash.reply (env.log i))

/-! ## The invariant

What `polldir` has seen last is built, is on its way or is waited with, unless its message was lost.
-/

/-- What polldir remembers: the version it has seen last, and of how many messages the number is. -/
def Remembers (crc : Nat → Int) (s : PollState Int) (w : Nat) : Prop :=
  (s.worker = crc w ∧ 0 ≤ s.msgNum ∧ s.msgNum ≤ w + 1) ∨
    (w = 0 ∧ s.worker = int32 (crc 0) ∧ s.msgNum = 0)

/-- As long as workbash runs, version `w` or a later one is built, or will be. -/
def Built (n : BuildNet) (w : Nat) : Prop :=
  ∀ b, n.bash = .next b →
    n.toWork ≠ [] ∨ 0 ≤ b.msgid ∨ ∃ v, n.built.getLast? = some v ∧ w ≤ v

/-- What polldir has seen last is built, unless the message was lost. -/
def Watching (crc : Nat → Int) (n : BuildNet) : Prop :=
  ∀ s, n.poll = .next s →
    ∃ w ≤ n.version, Remembers crc s w ∧ (w = 0 ∨ n.missed = true ∨ n.Built w)

/-- What holds in every state of a run. The numbers of the messages are good for as many versions as
an `int` counts. -/
structure Inv (crc : Nat → Int) (env : BashEnv) (n : BuildNet) : Prop where
  counted : ∀ b, n.bash = .next b → b.builds = n.built.length
  old : ∀ v ∈ n.built, v ≤ n.version
  told : n.toSink.map DataMsg.payload = (List.range n.built.length).filterMap (toldOf env)
  ids : n.version ≤ 2147483645 → ∀ m ∈ n.toWork, 0 ≤ m.id
  watching : n.version ≤ 2147483645 → n.Watching crc

variable {dir : Str} {sleeptime : Int} {crc : Nat → Int} {env : BashEnv} {n n' : BuildNet}

/-- Before the first step nothing is on its way. -/
theorem inv_start : Inv crc env (start crc) where
  counted := by
    intro b hb
    obtain rfl := Flow.next.inj hb
    rfl
  old := fun v hv => absurd hv List.not_mem_nil
  told := rfl
  ids := fun _ m hm => absurd hm List.not_mem_nil
  watching := by
    intro _ s hs
    obtain rfl := Flow.next.inj hs
    exact ⟨0, le_rfl, .inr ⟨rfl, rfl, rfl⟩, .inl rfl⟩

/-! ## One act of a party -/

/-- A change of the directory leaves everything else as it is. -/
theorem Inv.edit (h : Inv crc env n) : Inv crc env { n with version := n.version + 1 } where
  counted := h.counted
  old := fun v hv => Nat.le_succ_of_le (h.old v hv)
  told := h.told
  ids := fun hfew => h.ids (Nat.le_of_succ_le hfew)
  watching := by
    intro hfew s hs
    obtain ⟨w, hw, hseen, hbuilt⟩ := h.watching (Nat.le_of_succ_le hfew) s hs
    exact ⟨w, Nat.le_succ_of_le hw, hseen, hbuilt⟩

/-- When `polldir` ends, what is known of the others stays. -/
theorem Inv.stop (h : Inv crc env n) (b : Bool) : Inv crc env { n with poll := .exit b } where
  counted := h.counted
  old := h.old
  told := h.told
  ids := h.ids
  watching := fun _ s hs => by cases hs

/-- When `workbash` ends, what is known of the others stays. -/
theorem Inv.kill (h : Inv crc env n) (e : WorkExit) : Inv crc env { n with bash := .exit e } where
  counted := fun b hb => by cases hb
  old := h.old
  told := h.told
  ids := h.ids
  watching := by
    intro hfew s hs
    obtain ⟨w, hw, hseen, hbuilt⟩ := h.watching hfew s hs
    exact ⟨w, hw, hseen, hbuilt.imp_right (Or.imp_right fun _ b hb => by cases hb)⟩

theorem mem_sent_single {m m' : DataMsg Str} {fails : Bool} (h : m' ∈ sent [.send m fails]) :
    m' = m := by
  cases fails with
  | true => cases h
  | false => exact List.mem_singleton.mp h

/-- What a look of `polldir` preserves, whether it fires or not and whether its send fails or not.
-/
theorem Inv.look (h : Inv crc env n) (dir : Str) (sleeptime : Int) {s : PollState Int}
    (e : PollEvent Int) (hs : n.poll = .next s) (he : e.seen = crc n.version) :
    Inv crc env { n with
      poll := (Poll.body (PollDir.worker dir sleeptime) s e).2
      missed := missedBy (Poll.body (PollDir.worker dir sleeptime) s e).1 n.missed
      toWork := n.toWork ++ sent (Poll.body (PollDir.worker dir sleeptime) s e).1 } := by
  by_cases hsame : e.seen = s.worker
  · rw [PollDir.body_same hsame]
    have hnothing : n.toWork ++ sent [.sleep sleeptime] = n.toWork := List.append_nil _
    rw [hnothing, ← hs]
    exact h
  · obtain ⟨flow, hbody, hends⟩ := @PollDir.body_changed dir sleeptime s e hsame
    rw [hbody]
    refine ⟨h.counted, h.old, h.told, fun (hfew : n.version ≤ 2147483645) m hm => ?_,
      fun (hfew : n.version ≤ 2147483645) t ht => ?_⟩
    · obtain ⟨w, hw, hseen, -⟩ := h.watching hfew s hs
      rcases List.mem_append.mp hm with hm | hm
      · exact h.ids hfew m hm
      · rw [mem_sent_single hm]
        rcases hseen with ⟨-, hnum, -⟩ | ⟨-, -, hnum⟩
        · exact hnum
        · exact hnum.ge
    · obtain ⟨w, hw, hseen, -⟩ := h.watching hfew s hs
      obtain ⟨hworker, hnum⟩ : t.worker = e.seen ∧ t.msgNum = int32 (s.msgNum + 1) := by
        rcases hends with ⟨-, rfl⟩ | ⟨t', rfl, hnext⟩
        · cases ht
        · obtain rfl := Flow.next.inj ht
          exact hnext
      have hon : e.sendFails = true ∨
          n.toWork ++ sent [.send { id := s.msgNum, payload := dir } e.sendFails] ≠ [] := by
        cases e.sendFails with
        | true => exact .inl rfl
        | false => exact .inr (List.append_ne_nil_of_right_ne_nil _ (List.cons_ne_nil _ _))
      -- the version that has been seen now is on its way, or lost
      refine ⟨n.version, le_rfl, .inl ⟨hworker.trans he, ?_⟩,
        .inr (hon.imp_right fun hon _ _ => .inl hon)⟩
      rw [hnum]
      rcases hseen with ⟨hkept, hlow, hhigh⟩ | ⟨-, -, hzero⟩
      · have hlater : w < n.version := by
          rcases lt_or_eq_of_le hw with hlt | heq
          · exact hlt
          · rw [he, hkept, heq] at hsame
            exact absurd rfl hsame
        rw [int32_of_nonneg (by omega) (by omega)]
        omega
      · rw [hzero, int32_of_nonneg (by omega) (by omega)]
        omega

/-- workbash remembers the message that has come. -/
theorem Inv.receive (h : Inv crc env n) {b : BashState} {m : DataMsg Str}
    {rest : List (DataMsg Str)} (hb : n.bash = .next b) (hm : n.toWork = m :: rest) :
    Inv crc env { n with toWork := rest, bash := .next { b with msgid := m.id } } where
  counted := by
    intro b' hb'
    obtain rfl := Flow.next.inj hb'
    exact h.counted b hb
  old := h.old
  told := h.told
  ids := fun hfew x hx => h.ids hfew x (hm ▸ List.mem_cons_of_mem _ hx)
  watching := by
    intro hfew s hs
    obtain ⟨w, hw, hseen, hbuilt⟩ := h.watching hfew s hs
    have hid : 0 ≤ m.id := h.ids hfew m (hm ▸ List.mem_cons_self ..)
    refine ⟨w, hw, hseen, hbuilt.imp_right (Or.imp_right fun _ b' hb' => ?_)⟩
    obtain rfl := Flow.next.inj hb'
    exact .inr (.inl hid)

/-- workbash builds the directory as it is, and tells sinkbuild if it can. -/
theorem Inv.timeout (h : Inv crc env n) {b : BashState} (hb : n.bash = .next b)
    {replies : List (DataMsg Str)}
    (hreplies : replies.map DataMsg.payload = (toldOf env b.builds).toList) :
    Inv crc env { n with
      bash := .next { msgid := -1, builds := b.builds + 1 }
      built := n.built ++ [n.version]
      toSink := n.toSink ++ replies } where
  counted := by
    intro b' hb'
    obtain rfl := Flow.next.inj hb'
    rw [List.length_append, h.counted b hb, List.length_singleton]
  old := by
    intro v hv
    rcases List.mem_append.mp hv with hv | hv
    · exact h.old v hv
    · exact (List.mem_singleton.mp hv).le
  told := by
    rw [List.map_append, h.told, hreplies, List.length_append, List.length_singleton,
      List.range_succ, List.filterMap_append, h.counted b hb]
    cases htold : toldOf env n.built.length <;> simp [htold]
  ids := h.ids
  -- what is built now is the directory as it is
  watching := by
    intro hfew s hs
    obtain ⟨w, hw, hseen, -⟩ := h.watching hfew s hs
    exact ⟨w, hw, hseen, .inr (.inr fun _ _ => .inr (.inr ⟨n.version, List.getLast?_concat, hw⟩))⟩

/-- What one iteration of workbash does: a message is remembered, or there is a build if one is, or
nothing. -/
theorem handleAll_cases {b s : BashState} {a : Option (DataMsg Str)} {acts : List BashAct}
    (h : WorkBash.handleAll env b [WorkBash.callOf a] = .ok (s, acts)) :
    (∃ m, a = some m ∧ s = { b with msgid := m.id } ∧ builds acts = 0 ∧ replies acts = []) ∨
    (a = none ∧ s = { msgid := -1, builds := b.builds + 1 } ∧ builds acts = 1 ∧
      (replies acts).map DataMsg.payload = (toldOf env b.builds).toList) ∨
    (a = none ∧ b.msgid < 0 ∧ s = b ∧ builds acts = 0 ∧ replies acts = []) := by
  cases a with
  | some m =>
    obtain ⟨rfl, rfl⟩ := Prod.mk.inj (Except.ok.inj h)
    exact .inl ⟨m, rfl, rfl, rfl, rfl⟩
  | none =>
    by_cases hmsg : b.msgid ≥ 0
    · simp only [WorkBash.handleAll, WorkBash.callOf, WorkBash.handle, if_pos hmsg] at h
      obtain ⟨rfl, rfl⟩ := Prod.mk.inj (Except.ok.inj h)
      refine .inr (.inl ⟨rfl, rfl, ?_, ?_⟩)
      · cases hfails : env.senderFails b.builds <;> simp [builds]
      · cases hfails : env.senderFails b.builds <;> simp [replies, toldOf, hfails]
    · simp only [WorkBash.handleAll, WorkBash.callOf, WorkBash.handle, if_neg hmsg] at h
      obtain ⟨rfl, rfl⟩ := Prod.mk.inj (Except.ok.inj h)
      exact .inr (.inr ⟨rfl, not_le.mp hmsg, rfl, rfl, rfl⟩)

/-- What one step of any party preserves. -/
theorem Inv.step (h : Inv crc env n) (hstep : Step dir sleeptime crc env n n') :
    Inv crc env n' := by
  cases hstep with
  | edit => exact h.edit
  | look sendFails quitInSend quitAfterSend hs hb =>
    have hlook := h.look dir sleeptime
      { seen := crc n.version, sendFails := sendFails, quitInSend := quitInSend,
        quitAfterSend := quitAfterSend } hs rfl
    rw [hb] at hlook
    exact hlook
  | stop b => exact h.stop b
  | kill e => exact h.kill e
  | @work a rest out b s acts hn ha hb hh =>
    -- an iteration of `Work` makes one call
    have hout : out = [WorkBash.callOf a] := by
      cases a <;> exact (congrArg Prod.fst hb).symm
    rw [hout] at hh
    rcases handleAll_cases hh with ⟨m, rfl, rfl, hbuilds, hreplies⟩ |
      ⟨rfl, rfl, hbuilds, hreplies⟩ | ⟨rfl, -, rfl, hbuilds, hreplies⟩
    · have hreceive := h.receive hn (show n.toWork = m :: rest from ha)
      simpa [hbuilds, hreplies] using hreceive
    · have hrest : n.toWork = rest := ha
      rw [← hrest, hbuilds]
      exact h.timeout hn hreplies
    · have hrest : n.toWork = rest := ha
      rw [← hrest, ← hn]
      simpa [hbuilds, hreplies] using h

theorem inv_run (hrun : ReflTransGen (Step dir sleeptime crc env) (start crc) n) :
    Inv crc env n := by
  induction hrun with
  | refl => exact inv_start
  | tail _ hstep ih => exact ih.step hstep

/-! ## When everything is quiet

Nothing is on its way and nothing is waited with, so that what was seen last is what was built last.
-/

/-- What polldir remembers when it has seen the directory as it is. -/
theorem Remembers.eq_version (hcrc : TellsApart crc) {s : PollState Int} {w v : Nat}
    (h : Remembers crc s w) (hv : 0 < v) (hs : s.worker = crc v) : w = v := by
  rcases h with ⟨hw, -⟩ | ⟨-, hw, -⟩
  · exact hcrc.injective (hw.symm.trans hs)
  · exact absurd (hs.symm.trans hw) (hcrc.kept v hv)

/-- When everything is quiet and no send has failed, the last version is the last that was built. -/
theorem Inv.upToDate (h : Inv crc env n) (hcrc : TellsApart crc) (hq : n.Quiet crc)
    (hmissed : n.missed = false) (hchanged : 0 < n.version) (hfew : n.version ≤ 2147483645) :
    n.built.getLast? = some n.version := by
  obtain ⟨s, hs, hseen⟩ := hq.seen
  obtain ⟨b, hb, hidle⟩ := hq.idle
  obtain ⟨w, -, hremembers, hbuilt⟩ := h.watching hfew s hs
  have hw : w = n.version := hremembers.eq_version hcrc hchanged hseen
  have hlast : ∃ v, n.built.getLast? = some v ∧ w ≤ v := by
    rcases hbuilt with hzero | hlost | hbuilt
    · omega
    · rw [hmissed] at hlost
      cases hlost
    · rcases hbuilt b hb with hon | hwaits | hbuilt
      · exact absurd hq.delivered hon
      · omega
      · exact hbuilt
  obtain ⟨v, hv, hwv⟩ := hlast
  have hle := h.old v (List.mem_of_getLast? hv)
  have hversion : v = n.version := by omega
  rw [hv, hversion]

/-- sinkbuild was last told of the last build, if it was told of that. -/
theorem Inv.lastTold (h : Inv crc env n) (hne : n.built ≠ [])
    (hsend : env.senderFails (n.built.length - 1) = false) :
    n.toSink.getLast?.map DataMsg.payload =
      some (WorkBash.reply (env.log (n.built.length - 1))) := by
  obtain ⟨k, hk⟩ : ∃ k, n.built.length = k + 1 :=
    Nat.exists_eq_succ_of_ne_zero (mt List.length_eq_zero_iff.mp hne)
  rw [hk, Nat.add_sub_cancel] at hsend ⊢
  have htold : toldOf env k = some (WorkBash.reply (env.log k)) :=
    if_neg (by rw [hsend]; decide)
  rw [← List.getLast?_map, h.told, hk, List.range_succ, List.filterMap_append,
    List.filterMap_cons, htold]
  exact List.getLast?_concat

section Continuing

variable (dir sleeptime crc)

/-- One iteration of workbash. -/
theorem work_step (env : BashEnv) {n : BuildNet} {b : BashState} (hb : n.bash = .next b)
    (a : Option (DataMsg Str)) {rest : List (DataMsg Str)} (ha : n.toWork = a.toList ++ rest) :
    ∃ n' s, Step dir sleeptime crc env n n' ∧ n'.version = n.version ∧ n'.poll = n.poll ∧
      n'.missed = n.missed ∧ n'.toWork = rest ∧ n'.bash = .next s ∧ (a = none → s.msgid < 0) := by
  have hbody : Work.body () (WorkBash.event a) = ([WorkBash.callOf a], .next ()) := by
    cases a <;> rfl
  obtain ⟨⟨s, acts⟩, hh⟩ : ∃ r, WorkBash.handleAll env b [WorkBash.callOf a] = .ok r := by
    cases a with
    | some m => exact ⟨_, rfl⟩
    | none =>
      simp only [WorkBash.handleAll, WorkBash.callOf, WorkBash.handle]
      split
      · exact ⟨_, rfl⟩
      · exact ⟨_, rfl⟩
  refine ⟨_, s, .work hb ha hbody hh, rfl, rfl, rfl, rfl, rfl, fun hnone => ?_⟩
  rcases handleAll_cases hh with ⟨m, hm, -⟩ | ⟨-, rfl, -⟩ | ⟨-, hidle, rfl, -⟩
  · rw [hnone] at hm
    cases hm
  · exact (by decide : (-1 : Int) < 0)
  · exact hidle

/-- Everything that is on its way can be delivered. -/
theorem exists_delivered (env : BashEnv) {n : BuildNet} {b : BashState} (hb : n.bash = .next b) :
    ∃ n' s, ReflTransGen (Step dir sleeptime crc env) n n' ∧ n'.version = n.version ∧
      n'.poll = n.poll ∧ n'.missed = n.missed ∧ n'.toWork = [] ∧ n'.bash = .next s := by
  induction hms : n.toWork generalizing n b with
  | nil => exact ⟨n, b, .refl, rfl, rfl, rfl, hms, hb⟩
  | cons m ms ih =>
    obtain ⟨n₁, s₁, hstep, hversion, hpoll, hmissed, hwork, hbash, -⟩ :=
      work_step dir sleeptime crc env hb (some m) hms
    obtain ⟨n₂, s₂, hrun, hversion₂, hpoll₂, hmissed₂, hwork₂, hbash₂⟩ := ih hbash hwork
    exact ⟨n₂, s₂, .head hstep hrun, hversion₂.trans hversion, hpoll₂.trans hpoll,
      hmissed₂.trans hmissed, hwork₂, hbash₂⟩

/-- polldir can look at the directory, and lose no message by it. -/
theorem look_step (env : BashEnv) {n : BuildNet} {s : PollState Int} (hs : n.poll = .next s) :
    ∃ n' t, Step dir sleeptime crc env n n' ∧ n'.version = n.version ∧ n'.poll = .next t ∧
      t.worker = crc n.version ∧ n'.bash = n.bash ∧ (n'.missed = true → n.missed = true) := by
  let e : PollEvent Int :=
    { seen := crc n.version, sendFails := false, quitInSend := false, quitAfterSend := false }
  by_cases hsame : e.seen = s.worker
  · exact ⟨_, s, .look false false false hs (PollDir.body_same hsame), rfl, rfl, hsame.symm, rfl, id⟩
  · obtain ⟨flow, hbody, hquit | ⟨t, rfl, ht, -⟩⟩ := @PollDir.body_changed dir sleeptime s e hsame
    · cases hquit.1
    · refine ⟨_, t, .look false false false hs hbody, rfl, rfl, ht, rfl, fun hlost => ?_⟩
      cases hlost

/-- While both run, everything can become quiet without another change. -/
theorem exists_quiet (env : BashEnv) {n : BuildNet} {s : PollState Int} {b : BashState}
    (hs : n.poll = .next s) (hb : n.bash = .next b) :
    ∃ n', ReflTransGen (Step dir sleeptime crc env) n n' ∧ n'.version = n.version ∧
      n'.Quiet crc ∧ (n'.missed = true → n.missed = true) := by
  obtain ⟨n₁, t, hlook, hversion₁, hpoll₁, ht, hbash₁, hmissed₁⟩ :=
    look_step dir sleeptime crc env hs
  obtain ⟨n₂, b₂, hrun, hversion₂, hpoll₂, hmissed₂, hwork₂, hbash₂⟩ :=
    exists_delivered dir sleeptime crc env (hbash₁.trans hb)
  obtain ⟨n₃, b₃, hlast, hversion₃, hpoll₃, hmissed₃, hwork₃, hbash₃, hidle⟩ :=
    work_step dir sleeptime crc env hbash₂ none hwork₂
  have hall := (ReflTransGen.head hlook hrun).tail hlast
  have hversion : n₃.version = n.version := hversion₃.trans (hversion₂.trans hversion₁)
  refine ⟨n₃, hall, hversion, ?_, ?_⟩
  · exact
      { seen := ⟨t, hpoll₃.trans (hpoll₂.trans hpoll₁), by rw [hversion, ht]⟩
        delivered := hwork₃
        idle := ⟨b₃, hbash₃, hidle rfl⟩ }
  · rw [hmissed₃, hmissed₂]
    exact hmissed₁

end Continuing

/-- **No change is left unbuilt** unless the message of it is lost. In every run of the loop: when
everything is quiet after a change and polldir's last message was not lost, the last build was one of
the directory as it is, and the last thing sinkbuild was told is how that build went, unless that
message was lost; and as long as both parties run, such a point can be reached without another
change. -/
theorem build_follows (hcrc : TellsApart crc)
    (hrun : ReflTransGen (Step dir sleeptime crc env) (start crc) n) (hchanged : 0 < n.version)
    (hfew : n.version ≤ 2147483645) :
    (n.Quiet crc → n.missed = false →
      n.built.getLast? = some n.version ∧
        (env.senderFails (n.built.length - 1) = false →
          n.toSink.getLast?.map DataMsg.payload =
            some (WorkBash.reply (env.log (n.built.length - 1))))) ∧
      ((∃ s, n.poll = .next s) → (∃ b, n.bash = .next b) →
        ∃ n', ReflTransGen (Step dir sleeptime crc env) n n' ∧ n'.version = n.version ∧
          n'.Quiet crc ∧ (n'.missed = true → n.missed = true)) := by
  have hinv := inv_run hrun
  constructor
  · intro hq hmissed
    have hlast := hinv.upToDate hcrc hq hmissed hchanged hfew
    refine ⟨hlast, hinv.lastTold ?_⟩
    rintro hnil
    rw [hnil] at hlast
    cases hlast
  · rintro ⟨s, hs⟩ ⟨b, hb⟩
    exact exists_quiet dir sleeptime crc env hs hb

/-- Digests that count the changes. -/
def counting (v : Nat) : Int := v

theorem tellsApart_counting : TellsApart counting where
  injective := fun v w h => Int.ofNat_inj.mp h
  kept := by
    intro v hv h
    have hzero : int32 (counting 0) = 0 := int32_of_nonneg le_rfl (by decide)
    rw [hzero] at h
    have hv0 : (v : Int) = 0 := h
    omega

/-- A directory that has changed once, and sockets that work. -/
theorem build_follows_once : ∃ n : BuildNet, n.version = 1 ∧ n.built.getLast? = some 1 ∧
    n.toSink.getLast?.map DataMsg.payload = some (WorkBash.reply []) := by
  let env : BashEnv := { log := fun _ => [], senderFails := fun _ => false }
  have hedit : Step "src".toList 500 counting env (start counting)
      { start counting with version := 1 } := .edit
  have hone := ReflTransGen.single hedit
  obtain ⟨n, hrun, hversion, hq, hmissed⟩ :=
    (build_follows tellsApart_counting hone (by decide) (by decide)).2 ⟨_, rfl⟩ ⟨_, rfl⟩
  have hkept : n.missed = false := by
    cases hn : n.missed with
    | false => rfl
    | true => cases hmissed hn
  have hall := (build_follows tellsApart_counting (hone.trans hrun) (by rw [hversion]; decide)
    (by rw [hversion]; decide)).1 hq hkept
  refine ⟨n, hversion, hall.1.trans ?_, hall.2 rfl⟩
  rw [hversion]

/-- A change whose message is lost is left unbuilt, and everything is quiet. -/
theorem missed_unbuilt (dir : Str) (sleeptime : Int) (env : BashEnv) :
    ∃ n, ReflTransGen (Step dir sleeptime counting env) (start counting) n ∧ n.version = 1 ∧
      n.Quiet counting ∧ n.built = [] := by
  have hedit : Step dir sleeptime counting env (start counting)
      { start counting with version := 1 } := .edit
  let e : PollEvent Int :=
    { seen := counting 1, sendFails := true, quitInSend := false, quitAfterSend := false }
  have hchanged : e.seen ≠ (Poll.init (int32 (counting 0))).worker :=
    tellsApart_counting.kept 1 (by decide)
  obtain ⟨flow, hbody, hquit | ⟨t, rfl, ht, -⟩⟩ :=
    @PollDir.body_changed dir sleeptime _ e hchanged
  · cases hquit.1
  · have hlook : Step dir sleeptime counting env { start counting with version := 1 } _ :=
      .look true false false rfl hbody
    refine ⟨_, (ReflTransGen.single hedit).tail hlook, rfl, ?_, rfl⟩
    exact { seen := ⟨t, rfl, ht⟩, delivered := rfl, idle := ⟨WorkBash.init, rfl, by decide⟩ }

end BuildNet

end Skweltch
