import Skweltch.Config.Lookups
import Skweltch.Lib.NumText
import Skweltch.Ui.Load

/-!
# Skweltch — requests

`request_handler::handle_request` (`ui/request_handler.cpp`) decodes the URI of a request, checks
that it is a path, completes it if it is a directory, and either hands it to a `RestHandler`
(`ui/RestHandler.cpp`) or sends back a file. `RestHandler::call` splits the arguments off, so that
what is done to the path before is done to them as well (`handleRequest_calls_iff`).
-/

namespace Skweltch

open NumText

/-- The handlers there are: three of `RestHandler` itself, and two that `handle_request` adds. -/
inductive HandlerPointer where
  | success
  | badRequest
  | hello
  | nodes
  | load
deriving DecidableEq, Repr

inductive Response where
  /-- a stock reply -/
  | badRequest
  | notFound
  /-- the status is what the handler returns -/
  | called (handler : HandlerPointer) (args : Str)
  /-- `RestHandler::call` has no handler for the path, and returns `bad_request` -/
  | noHandler
  | file (headers : List (Str × Str)) (content : Str)
deriving DecidableEq, Repr

/-- The calls of handlers. -/
def Response.calls : Response → List (HandlerPointer × Str)
  | .called handler args => [(handler, args)]
  | _ => []

/-- `std::map<std::string, handlerPointer>`: the last one for a path stands first. -/
abbrev RestHandler := List (Str × HandlerPointer)

namespace RestHandler

def add (handlers : RestHandler) (path : Str) (func : HandlerPointer) : RestHandler :=
  (path, func) :: handlers

def new : RestHandler :=
  add (add (add [] "/rest/success".toList .success) "/rest/badRequest".toList .badRequest)
    "/rest/hello".toList .hello

def isRest (path : Str) : Bool := "/rest/".toList.isPrefixOf path

/-- `handlers[p]` -/
def find (handlers : RestHandler) (p : Str) : Option HandlerPointer :=
  (handlers.find? fun h => p = h.1).map Prod.snd

def call (handlers : RestHandler) (path : Str) : Response :=
  let p := path.takeWhile (· ≠ '?')
  let args := (path.dropWhile (· ≠ '?')).tail
  match find handlers p with
  | some handler => .called handler args
  | none => .noHandler

end RestHandler

namespace RequestHandler

/-! ## Decoding

`%` and two hexadecimal digits stand for a character, and `+` for a blank. -/

def isSpace (c : Char) : Bool := c = ' ' ∨ ('\t' ≤ c ∧ c ≤ '\r')

def isHex (c : Char) : Bool := (hexVal c).isSome

/-- `0x` in front of a hexadecimal number. -/
def dropBase : Str → Str
  | '0' :: 'x' :: s => s
  | '0' :: 'X' :: s => s
  | s => s

def magnitude (s : Str) : Option Nat :=
  let ds := (dropBase s).takeWhile isHex
  if ds = [] then none else some (ds.foldl (fun n c => 16 * n + (hexVal c).getD 0) 0)

/-- `is >> std::hex >> value`: the number that a text begins with. -/
def readHex (s : Str) : Option Int :=
  match s.dropWhile isSpace with
  | '-' :: s => (magnitude s).map fun n => -(n : Int)
  | '+' :: s => (magnitude s).map fun n => (n : Int)
  | s => (magnitude s).map fun n => (n : Int)

/-- `static_cast<char>(value)` -/
def toChar (value : Int) : Char := Char.ofNat (value % 256).toNat

/-- `url_decode` -/
def urlDecode : Str → Option Str
  | [] => some []
  | c :: s =>
    if c = '%' then
      match s with
      -- both characters are used up, even if the number is only one of them
      | a :: b :: s' =>
        match readHex [a, b] with
        | some value => (urlDecode s').map (toChar value :: ·)
        | none => none
      | _ => none
    else if c = '+' then (urlDecode s).map (' ' :: ·)
    else (urlDecode s).map (c :: ·)

/-! ## Files -/

/-- `mime_types::extension_to_type` -/
def extensionToType (extension : Str) : Str :=
  if extension = "gif".toList then "image/gif".toList
  else if extension = "htm".toList then "text/html".toList
  else if extension = "html".toList then "text/html".toList
  else if extension = "jpg".toList then "image/jpeg".toList
  else if extension = "png".toList then "image/png".toList
  else "text/plain".toList

def behindLast (c : Char) (s : Str) : Str := (s.reverse.takeWhile (· ≠ c)).reverse

/-- What is behind the last dot, if that is behind the last slash. -/
def extension (path : Str) : Str :=
  let name := behindLast '/' path
  if '.' ∈ name then behindLast '.' name else []

/-- The handlers of a request. -/
def handlers : RestHandler :=
  (RestHandler.new.add "/rest/nodes".toList .nodes).add "/rest/load".toList .load

/-- `handle_request`, for the files there are under `doc_root_`. -/
def handleRequest (docRoot : Str) (files : Str → Option Str) (uri : Str) : Response :=
  match urlDecode uri with
  | none => .badRequest
  | some path =>
    if path.head? ≠ some '/' ∨ "..".toList <:+: path then .badRequest
    else
      -- a directory, of which the index is asked for
      let path := if path.getLast? = some '/' then path ++ "index.html".toList else path
      if RestHandler.isRest path then handlers.call path
      else
        -- anything else is a file
        match files (docRoot ++ path) with
        | none => .notFound
        | some content =>
          .file (RestContext.makeHeaders content.length (extensionToType (extension path))) content

/-- What arguments are made of: letters, digits, and a few signs. -/
def isArgChar (c : Char) : Bool :=
  c.isAlpha || c.isDigit || ['/', '.', '=', '&', '-', '_'].contains c

/-! ## What is done to a path with arguments

A URI is decoded and completed as a whole, arguments included, before a handler is looked up by what
stands before the `?`. -/

theorem urlDecode_cons {c : Char} (hpercent : c ≠ '%') (hplus : c ≠ '+') (s : Str) :
    urlDecode (c :: s) = (urlDecode s).map (c :: ·) := by
  rw [urlDecode.eq_def]
  simp only [hpercent, hplus, if_false]

theorem urlDecode_eq_self {s : Str} (h : ∀ c ∈ s, c ≠ '%' ∧ c ≠ '+') : urlDecode s = some s := by
  induction s with
  | nil => rfl
  | cons c s ih =>
    obtain ⟨hc, hs⟩ := List.forall_mem_cons.mp h
    rw [urlDecode_cons hc.1 hc.2, ih hs, Option.map_some]

/-- A text without some character is in front of it or behind it. -/
theorem infix_append_cons_iff {w p a : Str} {c : Char} (h : c ∉ w) :
    w <:+: p ++ c :: a ↔ w <:+: p ∨ w <:+: a := by
  constructor
  · rintro ⟨s, t, hst⟩
    -- `c` is behind the text, or in it, or before it
    rcases List.append_eq_append_iff.mp hst with ⟨as, hp, -⟩ | ⟨bs, hsw, hrest⟩
    · exact Or.inl ⟨s, as, hp.symm⟩
    · cases bs with
      | nil =>
        rw [List.append_nil] at hsw
        exact Or.inl ⟨s, [], by rw [List.append_nil, hsw]⟩
      | cons b bs =>
        obtain ⟨rfl, ha⟩ := List.cons.inj hrest
        rcases List.append_eq_append_iff.mp hsw with ⟨as, -, hw⟩ | ⟨cs, -, hcs⟩
        · exact absurd (hw ▸ List.mem_append_right _ List.mem_cons_self) h
        · cases cs with
          | nil => exact absurd (List.nil_append w ▸ hcs ▸ List.mem_cons_self) h
          | cons b' cs =>
            have hbs : bs = cs ++ w := (List.cons.inj hcs).2
            exact Or.inr ⟨cs, t, by rw [← hbs]; exact ha.symm⟩
  · rintro (⟨s, t, rfl⟩ | ⟨s, t, rfl⟩)
    · exact ⟨s, t ++ c :: a, by simp⟩
    · exact ⟨p ++ c :: s, t, by simp⟩

theorem getLast?_append_cons_eq_iff {p a : Str} {c c' : Char} (h : c ≠ c') :
    (p ++ c :: a).getLast? = some c' ↔ a.getLast? = some c' := by
  rw [List.getLast?_append, List.getLast?_cons]
  cases a.getLast? with
  | none => simp [h]
  | some d => simp

/-- `RestHandler::call` splits the arguments off at the first question mark. -/
theorem call_append {handlers : RestHandler} {p : Str} (hp : '?' ∉ p) {handler : HandlerPointer}
    (hfind : handlers.find p = some handler) (a : Str) :
    handlers.call (p ++ '?' :: a) = .called handler a := by
  obtain ⟨hpath, hargs⟩ := JsonPath.takeWhile_ne hp a
  rw [RestHandler.call, hpath, hargs]
  simp only [hfind]
  rfl

/-- A path that is handed to a `RestHandler` as it is. -/
def isPlain (p : Str) : Bool :=
  RestHandler.isRest p && p.all (fun c => c ≠ '%' ∧ c ≠ '+' ∧ c ≠ '?') &&
    decide (¬ "..".toList <:+: p)

theorem isPlain_of_find {p : Str} {handler : HandlerPointer} (h : handlers.find p = some handler) :
    isPlain p = true := by
  have hall : handlers.all (fun q => isPlain q.1) = true := by decide +kernel
  obtain ⟨q, hq, rfl⟩ := Option.map_eq_some_iff.mp h
  have hp : p = q.1 := by simpa using List.find?_some hq
  rw [hp]
  exact List.all_eq_true.mp hall q (List.mem_of_find?_eq_some hq)

theorem argChar_ne {c : Char} (h : isArgChar c = true) : c ≠ '%' ∧ c ≠ '+' ∧ c ≠ '?' := by
  refine ⟨?_, ?_, ?_⟩
  · rintro rfl
    exact absurd h (by decide)
  · rintro rfl
    exact absurd h (by decide)
  · rintro rfl
    exact absurd h (by decide)

/-- **A request with arguments** is rejected, or they are handed on, with a file name behind them if
they end like a directory. -/
theorem handleRequest_args (docRoot : Str) (files : Str → Option Str) {p : Str}
    {handler : HandlerPointer} (hp : handlers.find p = some handler) {a : Str}
    (ha : ∀ c ∈ a, isArgChar c = true) :
    handleRequest docRoot files (p ++ '?' :: a) =
      if "..".toList <:+: a then .badRequest
      else if a.getLast? = some '/' then .called handler (a ++ "index.html".toList)
      else .called handler a := by
  have hplain := isPlain_of_find hp
  simp only [isPlain, Bool.and_eq_true, decide_eq_true_eq, List.all_eq_true] at hplain
  obtain ⟨⟨hrest, hchars⟩, hdots⟩ := hplain
  have hquestion : '?' ∉ p := fun h => (hchars _ h).2.2 rfl
  -- neither the path nor the argument has an escape in it
  have hdecode : urlDecode (p ++ '?' :: a) = some (p ++ '?' :: a) := by
    refine urlDecode_eq_self fun c hc => ?_
    rcases List.mem_append.mp hc with hc | hc
    · exact ⟨(hchars c hc).1, (hchars c hc).2.1⟩
    · rcases List.mem_cons.mp hc with rfl | hc
      · exact ⟨by decide, by decide⟩
      · exact ⟨(argChar_ne (ha c hc)).1, (argChar_ne (ha c hc)).2.1⟩
  have hisRest : ∀ s, RestHandler.isRest (p ++ s) = true := by
    intro s
    obtain ⟨rest, rfl⟩ := List.isPrefixOf_iff_prefix.mp hrest
    rw [List.append_assoc]
    exact List.isPrefixOf_iff_prefix.mpr (List.prefix_append _ _)
  have hhead : (p ++ '?' :: a).head? = some '/' := by
    obtain ⟨rest, rfl⟩ := List.isPrefixOf_iff_prefix.mp hrest
    rfl
  -- the name of the index page goes behind the argument
  have hcompleted : p ++ '?' :: a ++ "index.html".toList =
      p ++ '?' :: (a ++ "index.html".toList) := by
    rw [List.append_assoc, List.cons_append]
  -- `..` and the last character are looked for in the whole text
  have hreject : (p ++ '?' :: a).head? ≠ some '/' ∨ "..".toList <:+: p ++ '?' :: a ↔
      "..".toList <:+: a := by
    rw [infix_append_cons_iff (by decide)]
    simp only [hhead, ne_eq, not_true_eq_false, false_or, hdots]
  have hdirectory : (p ++ '?' :: a).getLast? = some '/' ↔ a.getLast? = some '/' :=
    getLast?_append_cons_eq_iff (by decide)
  rw [handleRequest, hdecode]
  simp only [hreject, hdirectory]
  by_cases hparent : "..".toList <:+: a
  · rw [if_pos hparent, if_pos hparent]
  · rw [if_neg hparent, if_neg hparent]
    by_cases hslash : a.getLast? = some '/'
    · rw [if_pos hslash, if_pos hslash, hcompleted, if_pos (hisRest _), call_append hquestion hp]
    · rw [if_neg hslash, if_neg hslash, if_pos (hisRest _), call_append hquestion hp]

/-- **When arguments arrive.** The handler is called once with the arguments as they are exactly if
there are no two dots in a row in them and they do not end with a slash. -/
theorem handleRequest_calls_iff (docRoot : Str) (files : Str → Option Str) {p : Str}
    {handler : HandlerPointer} (hp : handlers.find p = some handler) {a : Str}
    (ha : ∀ c ∈ a, isArgChar c = true) :
    (handleRequest docRoot files (p ++ '?' :: a)).calls = [(handler, a)] ↔
      ¬ "..".toList <:+: a ∧ a.getLast? ≠ some '/' := by
  rw [handleRequest_args docRoot files hp ha]
  by_cases hparent : "..".toList <:+: a
  · rw [if_pos hparent]
    exact iff_of_false (by simp [Response.calls]) fun h => h.1 hparent
  · rw [if_neg hparent]
    by_cases hslash : a.getLast? = some '/'
    · rw [if_pos hslash]
      refine iff_of_false (fun h => ?_) fun h => h.2 hslash
      have hargs := congrArg List.length (Prod.mk.inj (List.cons.inj h).1).2
      rw [List.length_append] at hargs
      simp at hargs
    · rw [if_neg hslash]
      exact iff_of_true rfl ⟨hparent, hslash⟩

/-- A registered path with one argument. -/
theorem handleRequest_calls_xy :
    (handleRequest [] (fun _ => none) ("/rest/hello".toList ++ '?' :: "x=y".toList)).calls =
        [(.hello, "x=y".toList)] ↔
      ¬ "..".toList <:+: "x=y".toList ∧ "x=y".toList.getLast? ≠ some '/' :=
  handleRequest_calls_iff [] (fun _ => none) (by decide +kernel)
    (List.all_eq_true.mp (by decide +kernel))

/-- A file two directories up, which is rejected, and a directory, of which the index is loaded. -/
theorem load_args_lost :
    (handleRequest [] (fun _ => none)
        ("/rest/load".toList ++ '?' :: "file=../machine.json".toList)).calls = [] ∧
      (handleRequest [] (fun _ => none)
        ("/rest/load".toList ++ '?' :: "file=machines/".toList)).calls =
        [(.load, "file=machines/index.html".toList)] := by
  decide +kernel

end RequestHandler

end Skweltch
