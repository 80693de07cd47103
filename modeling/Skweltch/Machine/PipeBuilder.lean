import Skweltch.Config.JsonPath

/-!
# Skweltch — the pipes of a block

`PipeBuilder::collect` (`machine/PipeBuilder.cpp`) turns the connections of a block into the pipes
its process is given. A connection that connects takes the node of the block it names and the port
of that block's connection; one that binds takes its own address and port.
-/

namespace Skweltch

open Json JsonObject

/-- What `collect` comes to. -/
inductive Collected where
  /-- a syntax error is logged and this is returned instead of pipes -/
  | syntaxError (v : Json)
  | pipes (v : Json)
deriving Repr

namespace PipeBuilder

/-- The pipe for one connection, with the mode it is entered under. -/
def pipe (config val : Json) : Except JsonFault Collected := do
  let mode ← getString val "mode".toList
  if mode = "connect".toList then do
    let block ← getString val "block".toList
    let b ← findObj config (JsonNamePredicate.matches block)
    if b.isObj then do
      let conn ← getString val "connection".toList
      let c ← JsonPath.getPath b ("connections.".toList ++ conn)
      if c.isObj then do
        let node ← getString b "node".toList
        let port ← getInt c "port".toList (-1)
        .ok (.pipes (add (add (add .null "node".toList (.str node))
          "port".toList (.int port)) "mode".toList (.str mode)))
      else .ok (.syntaxError c)
    else .ok (.syntaxError b)
  else if mode = "bind".toList then do
    let address ← getString val "address".toList
    let port ← getInt val "port".toList (-1)
    .ok (.pipes (add (add (add .null "address".toList (.str address))
      "port".toList (.int port)) "mode".toList (.str mode)))
  else .ok (.syntaxError .null)

/-- The loop over the connections. -/
def pipesFrom (config : Json) : Json → Object → Except JsonFault Collected
  | pipes, [] => .ok (.pipes pipes)
  | pipes, (name, val) :: rest => do
    match ← pipe config val with
    | .syntaxError v => .ok (.syntaxError v)
    | .pipes p => pipesFrom config (add pipes name p) rest

def withControl (pipes : Json) (control : Int) : Json :=
  if control > 0 then
    add pipes "control".toList (add (add (add .null "mode".toList (.str "connect".toList))
      "node".toList (.str "localhost".toList)) "port".toList (.int control))
  else pipes

def collected (config block : Json) (control : Int) : Except JsonFault Collected := do
  let connections ← JsonPath.getPath block "connections".toList
  let conns ← connections.getObj
  match ← pipesFrom config .null conns with
  | .syntaxError v => .ok (.syntaxError v)
  | .pipes pipes => .ok (.pipes (withControl pipes control))

/-- `PipeBuilder::collect`: the caller cannot tell a syntax error from pipes. -/
def collect (config block : Json) (control : Int) : Except JsonFault Json := do
  match ← collected config block control with
  | .syntaxError v => .ok v
  | .pipes v => .ok v

/-- A block without connections has the pipe for the control port at most. -/
theorem collect_unconnected (config : Json) {block : Object}
    (h : get block "connections".toList = .obj []) (control : Int) :
    collect config (.obj block) control = .ok (withControl .null control) := by
  have hpath : JsonPath.getPath (.obj block) "connections".toList = .ok (.obj []) :=
    JsonPath.getPath_name JsonPath.plain_connections (by decide) h (by simp)
  rw [collect, collected, hpath]
  rfl

end PipeBuilder

end Skweltch
