import Skweltch.Config.Json
import Skweltch.Core.Poll

/-!
# Skweltch — polling a repository

`Git::poll` and `Git::shellPull` (`build/Git.cpp`), and `PWorker` of `build/pollgit.cpp`, which
sends a message whenever `poll` returns true. That is to say that something has changed, but
the error codes of libgit2 are returned as they are, how `git pull` ends is not asked for, and what
it prints is compared with one text (`poll_right_iff`).
-/

namespace Skweltch

open EventLoop Json JsonObject

/-- A run of `git pull`. -/
structure Pull where
  /-- what it prints -/
  text : Str
  /-- what `pclose` returns: zero if it succeeds -/
  status : Int
  /-- it reports that it is up to date, in whatever words -/
  upToDate : Bool
deriving DecidableEq, Repr

/-- What is answered in one `Git::poll`. A call of libgit2 returns zero or an error code. -/
structure GitAnswers where
  /-- the folder is there -/
  folderExists : Bool
  repositoryOpen : Int
  repositoryConfig : Int
  configGetString : Int
  remoteurl : Str
  /-- the `git pull` behind `popen`, or `none` if that fails -/
  popen : Option Pull
  clone : Int
deriving DecidableEq, Repr

namespace Git

/-- The text that the pull is compared with. -/
def alreadyUpToDate : Str := "Already up-to-date.\n".toList

/-- An `int` as the value of a `bool` function. -/
def toBool (ret : Int) : Bool := ret ≠ 0

/-- `Git::shellPull`. -/
def shellPull (o : GitAnswers) : Bool :=
  match o.popen with
  | none => toBool 1
  -- `pclose` is called for the effect
  | some pull => pull.text ≠ alreadyUpToDate

/-- `Git::poll`. -/
def poll (repos : Str) (o : GitAnswers) : Bool :=
  if o.folderExists then
    if o.repositoryOpen ≠ 0 then toBool o.repositoryOpen
    else if o.repositoryConfig ≠ 0 then toBool o.repositoryConfig
    else if o.configGetString ≠ 0 then toBool o.configGetString
    -- the last call has returned zero
    else if repos ≠ o.remoteurl then toBool o.configGetString
    else shellPull o
  -- an error of the clone is logged
  else true

/-- The calls on a repository that is there all succeed, up to the pull. -/
def Opened (o : GitAnswers) : Prop :=
  o.folderExists = true ∧ o.repositoryOpen = 0 ∧ o.repositoryConfig = 0 ∧ o.configGetString = 0

/-- The repository was cloned, or a pull succeeded and reported something else than that it is up to
date. -/
def Changed (repos : Str) (o : GitAnswers) : Prop :=
  (o.folderExists = false ∧ o.clone = 0) ∨
    Opened o ∧ repos = o.remoteurl ∧
      ∃ pull, o.popen = some pull ∧ pull.status = 0 ∧ pull.upToDate = false

/-- A step fails, or the repository is another one. -/
def Failed (repos : Str) (o : GitAnswers) : Prop :=
  (o.folderExists = false ∧ o.clone ≠ 0) ∨
    o.folderExists = true ∧ ¬ (o.repositoryOpen = 0 ∧ o.repositoryConfig = 0 ∧ o.configGetString = 0) ∨
    Opened o ∧ (repos ≠ o.remoteurl ∨ ∀ pull, o.popen = some pull → pull.status ≠ 0)

/-- What `poll` returns says whether something has changed. -/
def Right (repos : Str) (o : GitAnswers) : Prop :=
  (poll repos o = true → Changed repos o) ∧ (Failed repos o → poll repos o = false)

/-- The pull is taken for a change and is none: it cannot be run, or it prints another text than the
one it is compared with and has failed or is up to date. -/
def PullMisread (o : GitAnswers) : Prop :=
  ∀ pull, o.popen = some pull →
    pull.text ≠ alreadyUpToDate ∧ (pull.status ≠ 0 ∨ pull.upToDate = true)

/-- A call that is made fails, or the pull of the repository is misread. -/
def Misread (repos : Str) (o : GitAnswers) : Prop :=
  (o.folderExists = false ∧ o.clone ≠ 0) ∨
    o.folderExists = true ∧ ¬ (o.repositoryOpen = 0 ∧ o.repositoryConfig = 0 ∧ o.configGetString = 0) ∨
    Opened o ∧ repos = o.remoteurl ∧ PullMisread o

/-- The answer of a poll that gets as far as the pull. -/
theorem poll_opened {repos : Str} {o : GitAnswers} (h : Opened o) :
    poll repos o = if repos = o.remoteurl then shellPull o else false := by
  obtain ⟨hthere, hopen, hconfig, hget⟩ := h
  rw [poll, if_pos hthere, if_neg (not_not.mpr hopen), if_neg (not_not.mpr hconfig),
    if_neg (not_not.mpr hget), hget]
  by_cases hurl : repos = o.remoteurl
  · rw [if_neg (not_not.mpr hurl), if_pos hurl]
  · rw [if_pos hurl, if_neg hurl]
    rfl

theorem toBool_of_ne {ret : Int} (h : ret ≠ 0) : toBool ret = true := decide_eq_true h

/-- **An error is a change**: the code of the first call that fails is returned. -/
theorem poll_of_call_fails {repos : Str} {o : GitAnswers} (hthere : o.folderExists = true)
    (h : ¬ (o.repositoryOpen = 0 ∧ o.repositoryConfig = 0 ∧ o.configGetString = 0)) :
    poll repos o = true := by
  rw [poll, if_pos hthere]
  by_cases hopen : o.repositoryOpen = 0
  · by_cases hconfig : o.repositoryConfig = 0
    · have hget : o.configGetString ≠ 0 := fun hget => h ⟨hopen, hconfig, hget⟩
      rw [if_neg (not_not.mpr hopen), if_neg (not_not.mpr hconfig), if_pos hget,
        toBool_of_ne hget]
    · rw [if_neg (not_not.mpr hopen), if_pos hconfig, toBool_of_ne hconfig]
  · rw [if_pos hopen, toBool_of_ne hopen]

/-- A folder that is not there is cloned, and the answer is true. -/
theorem right_clone {repos : Str} {o : GitAnswers} (hthere : o.folderExists = false) :
    Right repos o ↔ o.clone = 0 := by
  have hpoll : poll repos o = true := by
    rw [poll, hthere]
    rfl
  rw [Right, hpoll]
  simp [Changed, Failed, Opened, hthere]

/-- The pull's answer is right unless it is misread. -/
theorem right_pull {repos : Str} {o : GitAnswers} (h : Opened o) (hurl : repos = o.remoteurl) :
    Right repos o ↔ ¬ PullMisread o := by
  have hpoll : poll repos o = shellPull o := (poll_opened h).trans (if_pos hurl)
  have hchanged : Changed repos o ↔
      ∃ pull, o.popen = some pull ∧ pull.status = 0 ∧ pull.upToDate = false := by
    simp [Changed, h, h.1, hurl]
  have hfailed : Failed repos o ↔ ∀ pull, o.popen = some pull → pull.status ≠ 0 := by
    simp [Failed, h, h.1, h.2.1, h.2.2.1, h.2.2.2, hurl]
  rw [Right, hpoll, hchanged, hfailed, shellPull, PullMisread]
  cases o.popen with
  | none => simp [toBool]
  | some pull =>
    by_cases htext : pull.text = alreadyUpToDate
    · simp [htext]
    · by_cases hstatus : pull.status = 0
      · simp [htext, hstatus]
      · simp [htext, hstatus]

/-- **When `poll` is right**: exactly if it misreads nothing. -/
theorem right_iff_not_misread (repos : Str) (o : GitAnswers) :
    Right repos o ↔ ¬ Misread repos o := by
  cases hthere : o.folderExists with
  | false =>
    rw [right_clone hthere]
    simp [Misread, Opened, hthere]
  | true =>
    by_cases hcalls : o.repositoryOpen = 0 ∧ o.repositoryConfig = 0 ∧ o.configGetString = 0
    · have hopened : Opened o := ⟨hthere, hcalls⟩
      by_cases hurl : repos = o.remoteurl
      · rw [right_pull hopened hurl]
        simp [Misread, hopened, hthere, hcalls, hurl]
      · -- a repository with another url is answered false
        have hpoll : poll repos o = false := (poll_opened hopened).trans (if_neg hurl)
        rw [Right, hpoll]
        simp [Misread, hthere, hcalls, hurl]
    · -- a call fails, and its code is taken for a change
      have hfailed : Failed repos o := Or.inr (Or.inl ⟨hthere, hcalls⟩)
      have hmisread : Misread repos o := Or.inr (Or.inl ⟨hthere, hcalls⟩)
      refine iff_of_false (fun hright => ?_) (not_not.mpr hmisread)
      have hfalse := hright.2 hfailed
      rw [poll_of_call_fails hthere hcalls] at hfalse
      cases hfalse

end Git

namespace PollGit

/-- `PWorker`: at each look `shouldQuit` is true, or the repository is polled. -/
def worker (folder repos : Str) (sleeptime : Int) : IPollWorker Unit (Option GitAnswers) where
  check := fun _ seen =>
    match seen with
    | none => ((), some false)
    | some o => if Git.poll repos o then ((), some true) else ((), none)
  payload := folder
  sleeptime := sleeptime

def main (root : Object) (es : List (PollEvent (Option GitAnswers))) :
    Except JsonFault (List (List PollAct) × Flow (PollState Unit) Bool) := do
  let folder ← getString (.obj root) "folder".toList
  let repos ← getString (.obj root) "repos".toList
  let sleeptime := intAt root "sleeptime".toList 1000
  .ok (Poll.process (worker folder repos sleeptime) () es)

/-- What is done at a look: a message is sent for a change only, and after a failure the worker
sleeps and looks again. -/
def Handled (repos : Str) (sleeptime : Int) (e : PollEvent (Option GitAnswers))
    (out : List PollAct) : Prop :=
  ∀ o, e.seen = some o →
    (0 < Poll.sends out → Git.Changed repos o) ∧ (Git.Failed repos o → out = [.sleep sleeptime])

/-- A look sends exactly when the poll says so. -/
theorem body_acts {folder repos : Str} {sleeptime : Int} {s : PollState Unit}
    {e : PollEvent (Option GitAnswers)} {o : GitAnswers} (h : e.seen = some o) :
    (Poll.body (worker folder repos sleeptime) s e).1 =
      if Git.poll repos o then [.send { id := s.msgNum, payload := folder } e.sendFails]
      else [.sleep sleeptime] := by
  cases hpoll : Git.poll repos o with
  | true =>
    have hcheck : (worker folder repos sleeptime).check s.worker e.seen = ((), some true) := by
      rw [h]
      exact if_pos hpoll
    obtain ⟨flow, hbody, -⟩ := Poll.body_fires hcheck
    rw [hbody]
    rfl
  | false =>
    have hcheck : (worker folder repos sleeptime).check s.worker e.seen = ((), none) := by
      rw [h]
      exact if_neg (by rw [hpoll]; decide)
    rw [Poll.body_sleeps hcheck]
    rfl

/-- **One look** is handled exactly if `poll` is right. -/
theorem handled_body_iff (folder repos : Str) (sleeptime : Int) (s : PollState Unit)
    (e : PollEvent (Option GitAnswers)) :
    Handled repos sleeptime e (Poll.body (worker folder repos sleeptime) s e).1 ↔
      ∀ o, e.seen = some o → ¬ Git.Misread repos o := by
  refine forall₂_congr fun o ho => ?_
  rw [body_acts ho, ← Git.right_iff_not_misread, Git.Right]
  cases hpoll : Git.poll repos o with
  | true => simp [Poll.sends, Poll.isSend]
  | false => simp [Poll.sends, Poll.isSend]

/-- **When errors are no changes.** `Git::poll` says whether something has changed exactly if it
misreads nothing: no call fails that it makes, and the pull prints the one text if it fails or is up
to date. A run of pollgit sends messages for changes only, and sleeps after every failure, exactly if
that is so at every look. -/
theorem poll_right_iff {root : Object} {folder repos : Str}
    (hfolder : getString (.obj root) "folder".toList = .ok folder)
    (hrepos : getString (.obj root) "repos".toList = .ok repos)
    (es : List (PollEvent (Option GitAnswers))) :
    (∀ o, Git.Right repos o ↔ ¬ Git.Misread repos o) ∧
    ∃ r, main root es = .ok r ∧
      ((∀ p ∈ es.zip r.1, Handled repos (intAt root "sleeptime".toList 1000) p.1 p.2) ↔
        ∀ p ∈ es.zip r.1, ∀ o, p.1.seen = some o → ¬ Git.Misread repos o) := by
  refine ⟨Git.right_iff_not_misread repos,
    Poll.process (worker folder repos (intAt root "sleeptime".toList 1000)) () es, ?_, ?_⟩
  · rw [main, hfolder, hrepos]
    rfl
  · have hlooks : ∀ p ∈ es.zip
        (Poll.process (worker folder repos (intAt root "sleeptime".toList 1000)) () es).1,
        Handled repos (intAt root "sleeptime".toList 1000) p.1 p.2 ↔
          ∀ o, p.1.seen = some o → ¬ Git.Misread repos o :=
      forall_mem_zip_run (P := fun e out =>
          Handled repos (intAt root "sleeptime".toList 1000) e out ↔
            ∀ o, e.seen = some o → ¬ Git.Misread repos o)
        (handled_body_iff folder repos _) (Poll.init ()) es
    exact forall₂_congr hlooks

/-- A folder that holds no repository. -/
def noRepository : GitAnswers :=
  { folderExists := true, repositoryOpen := -3, repositoryConfig := 0, configGetString := 0,
    remoteurl := [], popen := none, clone := 0 }

/-- A pull with something to report. -/
def pulled : GitAnswers :=
  { noRepository with
    repositoryOpen := 0
    remoteurl := "git".toList
    popen := some { text := "Fast-forward\n".toList, status := 0, upToDate := false } }

/-- A pull without, in the words it is compared with. -/
def upToDate : GitAnswers :=
  { pulled with popen := some { text := Git.alreadyUpToDate, status := 0, upToDate := true } }

/-- A pull that fails: what it says goes to the other stream. -/
def pullFails : GitAnswers :=
  { pulled with popen := some { text := [], status := 256, upToDate := false } }

def exampleRoot : Object :=
  [("folder".toList, .str "src".toList), ("repos".toList, .str "git".toList)]

/-- A look that answers so, with nothing to stop for. -/
def sees (o : GitAnswers) : PollEvent (Option GitAnswers) :=
  { seen := some o, sendFails := false, quitInSend := false, quitAfterSend := false }

/-- A change, and then none: both looks are handled. -/
theorem poll_right_pulled :
    ∃ r, main exampleRoot [sees pulled, sees upToDate] = .ok r ∧
      ∀ p ∈ [sees pulled, sees upToDate].zip r.1,
        Handled "git".toList (intAt exampleRoot "sleeptime".toList 1000) p.1 p.2 := by
  have hfolder : getString (.obj exampleRoot) "folder".toList = .ok "src".toList := rfl
  obtain ⟨-, r, hr, hiff⟩ := poll_right_iff hfolder rfl [sees pulled, sees upToDate]
  refine ⟨r, hr, hiff.mpr fun p hp o ho => ?_⟩
  obtain ⟨hlook, -⟩ := List.of_mem_zip hp
  rcases List.mem_pair.mp hlook with hlook | hlook
  · rw [hlook] at ho
    obtain rfl := Option.some.inj ho
    simp [Git.Misread, Git.PullMisread, pulled, noRepository]
  · rw [hlook] at ho
    obtain rfl := Option.some.inj ho
    simp [Git.Misread, Git.PullMisread, upToDate, pulled, noRepository]

/-- An error at every look, of libgit2 or of the pull: a message at every look, and no sleep. -/
theorem failures_fire :
    ¬ Git.Right "git".toList noRepository ∧ ¬ Git.Right "git".toList pullFails ∧
      ∃ r, main exampleRoot [sees noRepository, sees pullFails] = .ok r ∧
        r.1 = [[.send ⟨0, "src".toList⟩ false], [.send ⟨1, "src".toList⟩ false]] := by
  refine ⟨?_, ?_, _, rfl, by decide +kernel⟩
  · rw [Git.right_iff_not_misread, not_not]
    exact Or.inr (Or.inl ⟨rfl, by decide⟩)
  · rw [Git.right_iff_not_misread, not_not]
    refine Or.inr (Or.inr ⟨⟨rfl, rfl, rfl, rfl⟩, rfl, fun pull hpull => ?_⟩)
    obtain rfl := Option.some.inj hpull
    exact ⟨by decide, Or.inl (by decide)⟩

end PollGit

end Skweltch
