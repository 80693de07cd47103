import Skweltch.Lib.Shell
import Skweltch.Machine.TaskMonitor

/-!
# Skweltch — the arguments of a process

`ExeRunner::run` gives the command of a block to `/bin/sh -c`, as a C string. The monitor puts the
pipes and the configuration in single quotes as they are, and the name of the instance behind them
with no quotes. The result is when the process gets what was meant for it.

What stands for the program is text of the machine file, and it is up to the shell what it makes of
that. The result is for any text that hands the rest of the line on (`Shell.HandsOn`), such as a
program with assignments in front (`Shell.Program.handsOn`).
-/

namespace Skweltch

open Json JsonObject NumText

/-- What `/bin/sh -c` gets from `ExeRunner::run`: `exe.c_str()`. -/
def ExeRunner.line (exe : Str) : Str := cStr exe

namespace TaskMonitor

/-- A command that the monitor builds for a block, with the program and what is meant to be its
three arguments. -/
inductive Built (env : TaskEnv) (root block : Json) (cmd exe pipes config inst : Str) : Prop where
  | start (name : Str) (count : Int) (pj : Json) (cmds : List Str) (i : Nat)
      (hname : JsonArray.getString block "name".toList = .ok name)
      (hcount : JsonArray.getInt block "count".toList = .ok count)
      (hexe : JsonArray.getString block "exe".toList = .ok exe)
      (hpipes : PipeBuilder.collect root block env.control = .ok pj)
      (htext : pipes = write env.real pj)
      (hconfig : childText env block "config".toList = .ok config)
      (hinst : inst = if count > 0 then instanceName name i else name)
      (hcmds : commands env root block = .ok cmds) (hcmd : cmds[i]? = some cmd)
  | runOne (pj : Json)
      (hname : getString block "name".toList = .ok inst)
      (hexe : getString block "exe".toList = .ok exe)
      (hpipes : PipeBuilder.collect root block env.control = .ok pj)
      (htext : pipes = write env.real pj)
      (hconfig : childText env block "config".toList = .ok config)
      (hcmd : oneCommand env root block = .ok cmd)

variable {env : TaskEnv} {root block : Json} {cmd exe pipes config inst : Str}

theorem command_eq_call (exe pipes config name : Str) :
    command exe pipes config name = Shell.call exe pipes config name := by
  simp [command, Shell.call]

/-- A command that is built is a call with its three arguments. -/
theorem Built.eq_call (h : Built env root block cmd exe pipes config inst) :
    cmd = Shell.call exe pipes config inst := by
  rw [← command_eq_call]
  cases h with
  | start name count pj cmds i hname hcount hexe hpipes htext hconfig hinst hcmds hcmd =>
    simp only [commands, hname, hcount, hexe, hpipes, hconfig, bind, Except.bind] at hcmds
    have hnil : ([] : List Str) ≠ cmds := by
      rintro rfl
      cases hcmd
    -- down the branches of `doBlock`: the others have no command
    split at hcmds
    · cases hcmds
    · split at hcmds
      · exact absurd (Except.ok.inj hcmds) hnil
      · split at hcmds
        · cases hcmds
        · split at hcmds
          · split at hcmds
            · next hpos =>
              obtain rfl := Except.ok.inj hcmds
              obtain ⟨j, hj, rfl⟩ := List.getElem?_eq_some_iff.mp hcmd
              rw [htext, hinst, if_pos hpos]
              simp
            · next hpos =>
              obtain rfl := Except.ok.inj hcmds
              rw [List.getElem?_singleton] at hcmd
              split at hcmd
              · rw [htext, hinst, if_neg hpos]
                exact (Option.some.inj hcmd).symm
              · cases hcmd
          · exact absurd (Except.ok.inj hcmds) hnil
  | runOne pj hname hexe hpipes htext hconfig hcmd =>
    simp only [oneCommand, hname, hexe, hpipes, hconfig, bind, Except.bind] at hcmd
    rw [htext]
    exact (Except.ok.inj hcmd).symm

/-- The child that a shell starts for a command has exactly the pipes, the configuration and the name
for its arguments, in a directory with any contents. -/
def Delivered (sh : Shell.Interpreter) (cmd pipes config inst : Str) : Prop :=
  ∀ dir, ∃ program, sh dir (ExeRunner.line cmd) = some [program, pipes, config, inst]

def loneBlock (exe : Str) (config : Json) : Json :=
  .obj [("name".toList, .str "work".toList), ("exe".toList, .str exe),
    ("connections".toList, .obj []), ("config".toList, config)]

def loneEnv : TaskEnv :=
  { real := fun _ => []
    control := 0
    run := fun n => n + 1 }

theorem collect_loneBlock (root : Json) (exe : Str) (config : Json) :
    PipeBuilder.collect root (loneBlock exe config) 0 = .ok .null :=
  PipeBuilder.collect_unconnected root rfl 0

/-- Its command. -/
theorem built_loneBlock (root : Json) (exe : Str) (config : Json) :
    Built loneEnv root (loneBlock exe config)
      (command exe "{}".toList (write loneEnv.real config) "work".toList)
      exe "{}".toList (write loneEnv.real config) "work".toList := by
  refine .runOne .null rfl rfl (collect_loneBlock root exe config) rfl rfl ?_
  have hpipes : PipeBuilder.collect root (loneBlock exe config) loneEnv.control = .ok .null :=
    collect_loneBlock root exe config
  simp only [oneCommand, hpipes, bind, Except.bind]
  rfl

/-- A program with an assignment in front. -/
theorem program_assigned : Shell.Program "FOO=1 ./work".toList := by
  refine ⟨by decide, [Shell.unquoted "FOO=1".toList], Shell.unquoted "./work".toList, rfl, ?_, rfl,
    Shell.fixed_of_globs rfl, rfl⟩
  exact List.forall_mem_singleton.mpr rfl

theorem literal_work : Shell.Literal "work".toList :=
  ⟨by decide, rfl, Shell.fixed_of_globs rfl⟩

/-- The name of an instance is a pattern, so that it is never literal behind a name that is none. -/
theorem instanceName_not_literal {name : Str} (h : ∀ c ∈ name, c ≠ '?' ∧ c ≠ '*' ∧ c ≠ '[')
    (i : Nat) : ¬ Shell.Literal (instanceName name i) := by
  intro hlit
  have hdigits : decText (i : Int) = Nat.toDigits 10 i := by
    rw [decText, if_neg (by omega)]
    rfl
  have hname : instanceName name i = name ++ '[' :: (Nat.toDigits 10 i ++ [']']) := by
    rw [instanceName, hdigits]
    simp
  have hall : ∀ c ∈ Nat.toDigits 10 i, c.isDigit = true := fun c hc =>
    isDigit_of_mem_toDigits_ten hc
  rw [hname] at hlit
  exact Shell.not_fixed_digits (fun hnul => hlit.noNul (List.mem_append_left _ hnul)) h
    Nat.toDigits_ne_nil hall hlit.fixed

end TaskMonitor

end Skweltch
