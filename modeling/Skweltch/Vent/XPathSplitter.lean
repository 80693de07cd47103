import Skweltch.Vent.XmlParser

/-!
# Skweltch — the XPath splitter

`XPathSplitterElem` (`vent/XPathSplitter.cpp`) listens to the XML parser, keeps how many names of
the path it has matched and rebuilds the text since the last match; at the end tag of the last name
it hands the text to an `IChunk`. `next` is one callback with the chunk it leads to, `onCall` the
callback with the answer of the `IChunk`.
-/

namespace Skweltch

open Callbacks

abbrev IChunk (κ : Type) := Handler κ Str

/-- The members of `XPathSplitterElem`, less the logger and the `IChunk`. -/
structure XPathSplitterElem where
  stack : List Str
  spos : Nat
  chunk : Str
deriving DecidableEq, Repr

namespace XPathSplitterElem

/-- The constructor: `split(stack, xpath, is_any_of("/"))`. -/
def init (xpath : Str) : XPathSplitterElem :=
  { stack := xpath.splitOn '/', spos := 0, chunk := [] }

def startTag (e : XPathSplitterElem) (s : Str) : XPathSplitterElem :=
  if e.stack[e.spos]? = some s then { e with spos := e.spos + 1, chunk := '<' :: s }
  else { e with chunk := e.chunk ++ '<' :: s }

def attr (e : XPathSplitterElem) (s : Str) : XPathSplitterElem :=
  { e with chunk := e.chunk ++ ' ' :: s }

def endAttr (e : XPathSplitterElem) : XPathSplitterElem := { e with chunk := e.chunk ++ ['>'] }

def content (e : XPathSplitterElem) (s : Str) : XPathSplitterElem :=
  { e with chunk := e.chunk ++ s }

def closing (s : Str) : Str := '<' :: '/' :: (s ++ ['>'])

def Closes (e : XPathSplitterElem) (s : Str) : Prop := 0 < e.spos ∧ e.stack[e.spos - 1]? = some s

instance (e : XPathSplitterElem) (s : Str) : Decidable (e.Closes s) := by
  unfold Closes; infer_instance

def endTag {κ : Type} (ch : IChunk κ) (e : XPathSplitterElem) (k : κ) (s : Str) :
    (XPathSplitterElem × κ) × Bool :=
  let e := { e with chunk := e.chunk ++ closing s }
  if e.Closes s then
    if e.spos = e.stack.length then
      -- finished the chunk
      if (ch k e.chunk).2 then (({ e with spos := e.spos - 1 }, (ch k e.chunk).1), true)
      else ((e, (ch k e.chunk).1), false)
    else (({ e with spos := e.spos - 1 }, k), true)
  else ((e, k), true)

/-- The element as the parser sees it. -/
def onCall {κ : Type} (ch : IChunk κ) : IXmlElement (XPathSplitterElem × κ)
  | (e, k), .pi _ => ((e, k), true)
  | (e, k), .startTag s => ((e.startTag s, k), true)
  | (e, k), .attr s => ((e.attr s, k), true)
  | (e, k), .endAttr => ((e.endAttr, k), true)
  | (e, k), .endTag s => e.endTag ch k s
  | (e, k), .content s => ((e.content s, k), true)

/-- One callback when the `IChunk` does not stop the parse: the next state and the chunk, if this
call finishes one. -/
def next (e : XPathSplitterElem) : XmlCall → XPathSplitterElem × List Str
  | .pi _ => (e, [])
  | .startTag s => (e.startTag s, [])
  | .attr s => (e.attr s, [])
  | .endAttr => (e.endAttr, [])
  | .content s => (e.content s, [])
  | .endTag s =>
    if e.Closes s then
      ({ e with spos := e.spos - 1, chunk := e.chunk ++ closing s },
        if e.spos = e.stack.length then [e.chunk ++ closing s] else [])
    else ({ e with chunk := e.chunk ++ closing s }, [])

/-- The element hands on the chunks of `next` and nothing else. -/
theorem relays {κ : Type} (ch : IChunk κ) : Relays (onCall ch) next ch := by
  have hclose : ∀ (e : XPathSplitterElem) (s : Str),
      Closes { e with chunk := e.chunk ++ closing s } s = e.Closes s := fun _ _ => rfl
  refine ⟨fun e k c => ?_, fun e k c => ?_, fun e k c h => ?_⟩
  all_goals cases c with
  | endTag s =>
    simp only [onCall, endTag, next, hclose] at *
    by_cases hc : e.Closes s
    · by_cases hn : e.spos = e.stack.length
      · cases ha : (ch k (e.chunk ++ closing s)).2 <;> simp_all [feed]
      · simp_all
    · simp_all
  | _ => rfl

end XPathSplitterElem

namespace XPathSplitter

open XPathSplitterElem

/-- `XPathSplitter::process`: the state of the `IChunk` afterwards and the value returned. -/
def process {κ : Type} (ch : IChunk κ) (k : κ) (xpath input : Str) : κ × Bool :=
  let r := XmlParser.process (onCall ch) input (XPathSplitterElem.init xpath, k)
  (r.1.2, r.2)

def chunks (xpath input : Str) : List Str :=
  emitted next (XPathSplitterElem.init xpath) (XmlParser.calls input)

def delivered {κ : Type} (ch : IChunk κ) (k : κ) (xpath input : Str) : List Str :=
  (process (recorded ch) (k, []) xpath input).1.2

/-- **The splitter feeds its chunks to the `IChunk`.** It returns `true` when all are taken and the
parser accepts the input. -/
theorem process_eq_feed {κ : Type} (ch : IChunk κ) (k : κ) (xpath input : Str) :
    process ch k xpath input =
      ((feed ch k (chunks xpath input)).1,
        (feed ch k (chunks xpath input)).2 && XmlParser.accepts input) := by
  have h := (relays ch).feed_eq (XPathSplitterElem.init xpath) k (XmlParser.calls input)
  simp only [process, XmlParser.process_eq_feed, h.1, h.2]
  rfl

theorem delivered_eq {κ : Type} (ch : IChunk κ) (k : κ) (xpath input : Str) :
    delivered ch k xpath input = given ch k (chunks xpath input) := by
  rw [delivered, process_eq_feed, feed_recorded]
  rfl

theorem delivered_prefix {κ : Type} (ch : IChunk κ) (k : κ) (xpath input : Str) :
    delivered ch k xpath input <+: chunks xpath input := by
  rw [delivered_eq]
  exact given_prefix k _

end XPathSplitter

end Skweltch
