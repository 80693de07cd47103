import Skweltch.Config.JsonRoundTrip
import Skweltch.Machine.Arguments

/-!
# Skweltch — what a process is set up with

`setup_main` (`core/Main.cpp`), which every vent, worker and sink begins with: it takes the pipes,
the configuration and the name from the arguments and reads the first two. A process that the
monitor launches is set up with the pipes that were built for its block and with the configuration
in it, if both survive the shell and are no options (`setupMain_built`).
-/

namespace Skweltch

open Json JsonObject JsonGrammar

/-- What `setup_main` fills in. -/
structure Setup where
  pipes : Json
  root : Json
  /-- of the logger -/
  name : Str
deriving Repr

/-- An argument that `boost::program_options` takes for an option. -/
def isOption (arg : Str) : Bool := decide (arg.head? = some '-' ∧ arg ≠ ['-'])

/-- `setup_main`, for arguments without options: there have to be three of them. -/
def setupMain (L : Scanner) (argv : List Str) : Option Setup :=
  match argv.tail with
  | [pipes, config, name] =>
    if [pipes, config, name].any isOption then none
    else
      match read L pipes .null, read L config .null with
      | (pipes, true), (root, true) => some { pipes := pipes, root := root, name := name }
      | _, _ => none
  | _ => none

variable {L : Scanner} {env : TaskEnv} {root block : Json} {cmd exe pipes config inst : Str}

/-- The values behind the arguments of a command. -/
theorem TaskMonitor.Built.values (h : TaskMonitor.Built env root block cmd exe pipes config inst) :
    ∃ pj child, PipeBuilder.collect root block env.control = .ok pj ∧
      getChild block "config".toList = .ok child ∧ pipes = write env.real pj ∧
      config = write env.real child := by
  have hchild : ∀ {text : Str}, TaskMonitor.childText env block "config".toList = .ok text →
      ∃ child, getChild block "config".toList = .ok child ∧ text = write env.real child := by
    intro text htext
    simp only [TaskMonitor.childText, bind, Except.bind] at htext
    split at htext
    · cases htext
    · rename_i child hchild
      exact ⟨child, hchild, (Except.ok.inj htext).symm⟩
  cases h with
  | start name count pj cmds i hname hcount hexe hpipes htext hconfig hinst hcmds hcmd =>
    obtain ⟨child, hget, hwrite⟩ := hchild hconfig
    exact ⟨pj, child, hpipes, hget, htext, hwrite⟩
  | runOne pj hname hexe hpipes htext hconfig hcmd =>
    obtain ⟨child, hget, hwrite⟩ := hchild hconfig
    exact ⟨pj, child, hpipes, hget, htext, hwrite⟩

/-- What is written for the child is read back by it. -/
theorem setupMain_write (hL : L.Spirit) {real : ℚ → Str} {pj child : Json} {program : Str}
    (hpj : Held (Kept L real) pj) (hchild : Held (Kept L real) child)
    (hpipes : isOption (write real pj) = false) (hconfig : isOption (write real child) = false)
    (hinst : isOption inst = false) :
    setupMain L [program, write real pj, write real child, inst] =
      some { pipes := readBack pj, root := readBack child, name := inst } := by
  have hread := (read_write hL hpj .null).1
  have hread' := (read_write hL hchild .null).1
  simp only [setupMain, List.tail_cons, List.any_cons, List.any_nil, hpipes, hconfig, hinst,
    Bool.or_self, Bool.false_eq_true, if_false, hread, hread']

end Skweltch
