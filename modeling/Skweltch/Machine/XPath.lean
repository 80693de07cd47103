import Skweltch.Vent.SentItems

/-!
# Skweltch — the xpath and rdf machines

`machineconf/xpath.json` and `machineconf/rdf.json`: ventxml cuts a document into chunks, any number
of workxpath (`work/workxpath.cpp`) select strings from a chunk, and sinkstrings
(`sink/sinkstrings.cpp`) writes them to a file. The XPath evaluation itself is a library's: `select` is
what `load_buffer` and `select_nodes` yield for a chunk and a query.
-/

namespace Skweltch

open EventLoop Relation Vent

/-- An `xpath_node`: the value of its node, if it is not empty, and that of its attribute. -/
structure XPathNode where
  node : Option Str
  attr : Str
deriving DecidableEq, Repr

namespace WorkXPath

variable (select : Str → Str → Except Fault (List XPathNode))

def value (n : XPathNode) : Str :=
  match n.node with
  | none => n.attr
  | some v => v

/-- `WWorker::processMsg`. -/
def processMsg (xpath : Str) (msg : DataMsg Str) : Except Fault SinkMsg :=
  (select msg.payload xpath).map fun nodes => .dataMsg msg.id (nodes.map value)

end WorkXPath

namespace SinkStrings

/-- `SWorker::process` on what has been written to `results.dat`. -/
def process (dat : Str) (data : List Str) : Str :=
  data.foldl (fun dat s => dat ++ s ++ ['\n']) dat

/-- The calls the sink makes: `results` reports where the results are. -/
def worker : ISinkWorker Str Str
  | dat, .first _ => .ok (dat, [])
  | dat, .last _ => .ok (dat, [])
  | dat, .process _ data => .ok (process dat data, [])
  | dat, .results => .ok (dat, ["results.dat".toList])

theorem skipsEnds : ISinkWorker.SkipsEnds worker := fun _ _ => ⟨rfl, rfl⟩

/-- The strings of a message, one to a line. -/
def textLines (data : List Str) : Str := data.flatMap fun s => s ++ ['\n']

theorem process_eq (dat : Str) (data : List Str) : process dat data = dat ++ textLines data := by
  induction data generalizing dat with
  | nil => exact (List.append_nil dat).symm
  | cons s data ih =>
    show process (dat ++ s ++ ['\n']) data = _
    rw [ih, textLines, textLines, List.flatMap_cons, List.append_assoc, List.append_assoc,
      List.append_assoc]

/-- The lines of messages, in the order of the calls. -/
theorem run_batch {α : Type} (job : DataMsg α → List Str) (ms : List (DataMsg α)) (dat : Str) :
    worker.run dat (batchCalls job ms) =
      .ok (dat ++ ms.flatMap fun m => textLines (job m), ["results.dat".toList]) := by
  have hmsgs : ∀ dat, worker.run dat (ms.map fun m => .process m.id (job m)) =
      .ok (dat ++ ms.flatMap fun m => textLines (job m), []) := by
    induction ms with
    | nil =>
      intro dat
      rw [List.flatMap_nil, List.append_nil]
      rfl
    | cons m ms ih =>
      intro dat
      have hstep : worker dat (.process m.id (job m)) =
          .ok (dat ++ textLines (job m), []) := by
        show Except.ok (process dat (job m), []) = _
        rw [process_eq]
      rw [List.map_cons, ISinkWorker.run_cons hstep (ih _), List.flatMap_cons, List.append_assoc]
      rfl
  exact ISinkWorker.run_append (hmsgs dat) rfl

/-- **The file after rounds**: nothing is overwritten. -/
theorem run_batches {α : Type} (job : DataMsg α → List Str) (mss : List (List (DataMsg α)))
    (dat : Str) :
    worker.run dat (mss.flatMap (batchCalls job)) =
      .ok (dat ++ mss.flatten.flatMap fun m => textLines (job m),
        List.replicate mss.length "results.dat".toList) := by
  induction mss generalizing dat with
  | nil =>
    show Except.ok (dat, []) = Except.ok (dat ++ [], [])
    rw [List.append_nil]
  | cons ms mss ih =>
    rw [List.flatMap_cons, ISinkWorker.run_append (run_batch job ms dat) (ih _),
      List.flatten_cons, List.flatMap_append, List.append_assoc]
    rfl

end SinkStrings

namespace XPathMachine

open WorkXPath SinkStrings

/-- What stands on the left has a partner. -/
theorem exists_of_forall₂ {α β : Type} {r : α → β → Prop} {as : List α} {bs : List β}
    (h : List.Forall₂ r as bs) {a : α} (ha : a ∈ as) : ∃ b ∈ bs, r a b := by
  induction h with
  | nil => cases ha
  | cons hr _ ih =>
    rcases List.mem_cons.mp ha with rfl | ha
    · exact ⟨_, List.mem_cons_self .., hr⟩
    · obtain ⟨b, hb, hab⟩ := ih ha
      exact ⟨b, List.mem_cons_of_mem _ hb, hab⟩

/-- The strings that workxpath finds in a chunk, one to a line. -/
def foundLines (found : Str → List XPathNode) (chunk : Str) : Str :=
  textLines ((found chunk).map value)

theorem textLines_jobOf {select : Str → Str → Except Fault (List XPathNode)} {xpath : Str}
    {found : Str → List XPathNode} {m : DataMsg Str}
    (h : select m.payload xpath = .ok (found m.payload)) :
    textLines (jobOf (processMsg select xpath) m) = foundLines found m.payload := by
  rw [jobOf, processMsg, h]
  rfl

/-- The text of an element without children, as `a/text()` selects it. -/
def textOf (chunk : Str) : List XPathNode :=
  [{ node := some (((chunk.dropWhile (· ≠ '>')).drop 1).takeWhile (· ≠ '<')), attr := [] }]

end XPathMachine

end Skweltch
