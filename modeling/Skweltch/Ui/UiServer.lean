import Skweltch.Config.JsonGenerator
import Skweltch.Lib.Paths
import Skweltch.Ui.HttpAnswers
import Skweltch.Ui.Nodes
import Skweltch.Ui.RequestHandler

/-!
# Skweltch — what the user interface serves

The handler of the server (`ui/request_handler.cpp`, `ui/RestHandler.cpp`, `ui/rest`): stock replies,
files below the root of the documents, and the handlers for paths below `/rest/`, which work on the
one `RestContext` there is. What a handler throws leaves the server.

A client reads every reply as it was meant, with the right length where one is given
(`framed_run`). No file is sent that is not below the root; only `/rest/load` reads others, those that
it is asked for (`run_reached`).
-/

namespace Skweltch

open EventLoop

namespace Http

/-- What the handlers rely on: the parser of machine files, the text of reals, the layout of a
graph, the root of the documents, and what the files hold when the `n`-th request is handled. -/
structure UiEnv where
  scanner : Scanner
  real : ℚ → Str
  layout : ℕ → List (ℕ × ℕ) → Nodes.View → Option (List (ℤ × ℤ))
  docRoot : Str
  files : ℕ → Str → Option Str

/-- The context of the handlers, and how many requests were handled. -/
structure UiContext where
  context : RestContext
  handled : ℕ

def header (h : Str × Str) : Header := { name := h.1, value := h.2 }

namespace UiServer

def bare (status : StatusType) : Reply := { status := status, headers := [], content := [] }

/-- A handler of `RestHandler`, for what the files hold. -/
def callHandler (env : UiEnv) (files : Str → Option Str) (c : RestContext) (args : Str) :
    HandlerPointer → Option (Reply × RestContext)
  | .success => some (bare .ok, c)
  | .badRequest => some (bare .badRequest, c)
  | .hello =>
    let s := "hello".toList
    some ({ status := .ok, headers := (RestContext.makeHeaders s.length "text/text".toList).map header
            content := s }, c)
  | .load =>
    match Load.loadHandler env.scanner c { args := args, files := files } with
    | (.ok headers content, c') =>
      some ({ status := .ok, headers := headers.map header, content := content }, c')
    | (.badRequest, c') => some (bare .badRequest, c')
  | .nodes =>
    match Nodes.handler env.layout (if c.loaded then some c.root else none) args with
    | .ok (.ok content) =>
      some ({ status := .ok, headers := [], content := JsonObject.writePretty env.real content }, c)
    | .ok .noContent => some (bare .noContent, c)
    | .ok .badRequest => some (bare .badRequest, c)
    | .error _ => none

/-- `request_handler::handle_request` -/
def handle (env : UiEnv) (ctx : UiContext) (req : Request) : Option (Reply × UiContext) :=
  let files := fun path => env.files ctx.handled (cStr path)
  let next (c : RestContext) : UiContext := { context := c, handled := ctx.handled + 1 }
  match RequestHandler.handleRequest env.docRoot files req.uri with
  | .badRequest => some (.stockReply .badRequest, next ctx.context)
  | .notFound => some (.stockReply .notFound, next ctx.context)
  | .noHandler => some (bare .badRequest, next ctx.context)
  | .file headers content =>
    some ({ status := .ok, headers := headers.map header, content := content }, next ctx.context)
  | .called handler args =>
    (callHandler env files ctx.context args handler).map fun p => (p.1, next p.2)

/-! ## Replies

Every reply that the handler makes has the length that its header says. -/

/-- A client can tell the headers of the reply apart, and the length in them is that of the
content. -/
structure Framed (rep : Reply) : Prop where
  plain : ∀ h ∈ rep.headers, h.Plain
  length : ∀ h ∈ rep.headers, h.name = Reply.contentLength →
    h.value = NumText.decText rep.content.length

theorem framed_bare (status : StatusType) : Framed (bare status) where
  plain := nofun
  length := nofun

theorem decText_plain (n : ℕ) : '\r' ∉ NumText.decText n := by
  intro h
  rcases NumText.mem_decText h with h | h
  · cases h
  · cases h

theorem mem_makeHeaders {size : ℕ} {mimetype : Str} {h : Header}
    (hh : h ∈ (RestContext.makeHeaders size mimetype).map header) :
    h = { name := Reply.contentLength, value := NumText.decText size } ∨
      h = { name := Reply.contentType, value := mimetype } :=
  List.mem_pair.mp hh

/-- A reply with these headers is read back, as long as its type has no line end. -/
theorem framed_makeHeaders (status : StatusType) (content : Str) {mimetype : Str}
    (hmime : '\r' ∉ mimetype) :
    Framed { status := status
             headers := (RestContext.makeHeaders content.length mimetype).map header
             content := content } where
  plain := by
    intro h hh
    have hlength : ∀ c ∈ "Content-Length".toList, c ≠ ':' ∧ c ≠ '\r' := by simp
    have htype : ∀ c ∈ "Content-Type".toList, c ≠ ':' ∧ c ≠ '\r' := by simp
    rcases mem_makeHeaders hh with rfl | rfl
    · exact ⟨List.cons_ne_nil _ _, hlength, decText_plain content.length⟩
    · exact ⟨List.cons_ne_nil _ _, htype, hmime⟩
  length := by
    intro h hh hname
    have hne : Reply.contentType ≠ Reply.contentLength := by decide
    rcases mem_makeHeaders hh with rfl | rfl
    · rfl
    · exact absurd hname hne

theorem framed_stockReply (status : StatusType) : Framed (.stockReply status) := by
  have hmime : '\r' ∉ "text/html".toList := by decide
  exact framed_makeHeaders status status.stockContent hmime

theorem extensionToType_plain (extension : Str) :
    '\r' ∉ RequestHandler.extensionToType extension := by
  unfold RequestHandler.extensionToType
  split_ifs <;> decide

/-- Whatever a registered handler answers, its reply is read back. -/
theorem framed_callHandler {env : UiEnv} {files : Str → Option Str} {c c' : RestContext}
    {args : Str} {handler : HandlerPointer} {rep : Reply}
    (h : callHandler env files c args handler = some (rep, c')) : Framed rep := by
  cases handler with
  | success =>
    obtain rfl := (Prod.mk.inj (Option.some.inj h)).1
    exact framed_bare _
  | badRequest =>
    obtain rfl := (Prod.mk.inj (Option.some.inj h)).1
    exact framed_bare _
  | hello =>
    obtain rfl := (Prod.mk.inj (Option.some.inj h)).1
    exact framed_makeHeaders _ _ (by decide)
  | load =>
    simp only [callHandler] at h
    split at h
    · rename_i headers content c₁ hload
      obtain rfl := (Prod.mk.inj (Option.some.inj h)).1
      unfold Load.loadHandler at hload
      split at hload
      · cases (Prod.mk.inj hload).1
      · rename_i fn hfn
        -- what is sent is the name of the file
        have hreply := (Prod.mk.inj hload).1
        split at hreply
        · obtain ⟨rfl, rfl⟩ := LoadReply.ok.inj hreply
          exact framed_makeHeaders _ _ (by decide)
        · cases hreply
    · obtain rfl := (Prod.mk.inj (Option.some.inj h)).1
      exact framed_bare _
  | nodes =>
    simp only [callHandler] at h
    split at h
    · obtain rfl := (Prod.mk.inj (Option.some.inj h)).1
      exact { plain := nofun, length := nofun }
    · obtain rfl := (Prod.mk.inj (Option.some.inj h)).1
      exact framed_bare _
    · obtain rfl := (Prod.mk.inj (Option.some.inj h)).1
      exact framed_bare _
    · cases h

/-- What is sent back for a file. -/
def fileResponse (path : Str) : Option Str → Response
  | none => .notFound
  | some content => .file (RestContext.makeHeaders content.length
      (RequestHandler.extensionToType (RequestHandler.extension path))) content

/-- A request is answered without a look at the files, or with the file that a path behind the root
leads to, which begins with a slash and has no two dots in a row. -/
theorem handleRequest_cases (uri : Str) :
    (∃ r, (∀ headers content, r ≠ .file headers content) ∧
      ∀ docRoot files, RequestHandler.handleRequest docRoot files uri = r) ∨
    ∃ path, path.head? = some '/' ∧ ¬ "..".toList <:+: path ∧ ∀ docRoot files,
      RequestHandler.handleRequest docRoot files uri =
        fileResponse path (files (docRoot ++ path)) := by
  have hbad : ∀ headers content, Response.badRequest ≠ .file headers content := by
    intro headers content h
    cases h
  cases hdecode : RequestHandler.urlDecode uri with
  | none =>
    exact Or.inl ⟨.badRequest, hbad, fun _ _ => by rw [RequestHandler.handleRequest, hdecode]⟩
  | some path =>
    by_cases hreject : path.head? ≠ some '/' ∨ "..".toList <:+: path
    · refine Or.inl ⟨.badRequest, hbad, fun _ _ => ?_⟩
      rw [RequestHandler.handleRequest, hdecode]
      exact if_pos hreject
    · obtain ⟨hhead, hdots⟩ := not_or.mp hreject
      -- a directory is completed, which keeps the first character and adds no `..`
      generalize hfull : (if path.getLast? = some '/' then path ++ "index.html".toList else path) =
        full
      have hfull' : full.head? = some '/' ∧ ¬ "..".toList <:+: full := by
        rw [← hfull]
        split
        · refine ⟨?_, fun h => ?_⟩
          · rw [List.head?_append, not_not.mp hhead]
            rfl
          · rcases (RequestHandler.infix_append_cons_iff (c := 'i') (by decide)).mp h with h | h
            · exact hdots h
            · exact absurd h (by decide)
        · exact ⟨not_not.mp hhead, hdots⟩
      -- only what is not under `/rest` is looked up on the disk
      by_cases hrest : RestHandler.isRest full
      · refine Or.inl ⟨RequestHandler.handlers.call full, ?_, fun _ _ => ?_⟩
        · intro headers content
          unfold RestHandler.call
          simp only
          split
          all_goals
            intro h
            cases h
        · rw [RequestHandler.handleRequest, hdecode]
          simp only [hreject, if_false, hfull, hrest, if_true]
      · refine Or.inr ⟨full, hfull'.1, hfull'.2, fun docRoot files => ?_⟩
        rw [RequestHandler.handleRequest, hdecode]
        simp only [hreject, if_false, hfull, hrest]
        cases files (docRoot ++ full) <;> rfl

/-- The headers of a file. -/
theorem headers_of_file {docRoot uri : Str} {files : Str → Option Str}
    {headers : List (Str × Str)} {content : Str}
    (h : RequestHandler.handleRequest docRoot files uri = .file headers content) :
    ∃ mimetype, '\r' ∉ mimetype ∧ headers = RestContext.makeHeaders content.length mimetype := by
  rcases handleRequest_cases uri with ⟨r, hr, hall⟩ | ⟨path, -, -, hall⟩
  · rw [hall] at h
    exact absurd h (hr headers content)
  · rw [hall] at h
    cases hfile : files (docRoot ++ path) with
    | none =>
      rw [hfile] at h
      cases h
    | some content' =>
      rw [hfile] at h
      obtain ⟨rfl, rfl⟩ := Response.file.inj h
      exact ⟨_, extensionToType_plain _, rfl⟩

/-- Every reply of the request handler is read back. -/
theorem framed_handle {env : UiEnv} {ctx ctx' : UiContext} {req : Request} {rep : Reply}
    (h : handle env ctx req = some (rep, ctx')) : Framed rep := by
  simp only [handle] at h
  split at h
  · obtain rfl := (Prod.mk.inj (Option.some.inj h)).1
    exact framed_stockReply _
  · obtain rfl := (Prod.mk.inj (Option.some.inj h)).1
    exact framed_stockReply _
  · obtain rfl := (Prod.mk.inj (Option.some.inj h)).1
    exact framed_bare _
  · rename_i headers content hfile
    obtain rfl := (Prod.mk.inj (Option.some.inj h)).1
    obtain ⟨mimetype, hmime, rfl⟩ := headers_of_file hfile
    exact framed_makeHeaders _ _ hmime
  · obtain ⟨p, hcall, heq⟩ := Option.map_eq_some_iff.mp h
    obtain rfl := (Prod.mk.inj heq).1
    exact framed_callHandler hcall

/-- Every reply that the server sends in a step is read back. -/
theorem framed_body {env : UiEnv} (s : Server UiContext) (e : Event) :
    ∀ o ∈ (Server.body (handle env) s e).1, ∀ i req rep, o = Call.reply i req rep →
      Framed rep := by
  -- replies are sent by `handle_read` only
  have hwrite : ∀ (i : ℕ) (e : Completion Unit), ∀ o ∈ (s.handleWrite i e).1, ∀ j req rep,
      o = Call.reply j req rep → Framed rep := by
    intro i e o ho j req rep heq
    cases e with
    | ok _ =>
      obtain rfl := List.mem_singleton.mp ho
      cases heq
    | aborted => cases ho
    | failed => cases ho
  cases e with
  | signal => nofun
  | arrived => nofun
  | accept e => nofun
  | write i e => exact hwrite i e
  | read i e =>
    intro o ho j req rep heq
    simp only [Server.body] at ho
    split at ho
    · cases e with
      | aborted => cases ho
      | failed => cases ho
      | ok input =>
        simp only [Server.handleRead] at ho
        split at ho
        · split at ho
          · rename_i rep' ctx' hhandle
            obtain rfl := List.mem_singleton.mp ho
            obtain ⟨-, -, rfl⟩ := Call.reply.inj heq
            exact framed_handle hhandle
          · cases ho
        · obtain rfl := List.mem_singleton.mp ho
          obtain ⟨-, -, rfl⟩ := Call.reply.inj heq
          exact framed_stockReply _
        · cases ho
    · cases ho

/-- A server with nothing on its disk. -/
def exampleEnv : UiEnv :=
  { scanner := Load.bracketScanner, real := fun _ => [], layout := fun _ _ _ => none
    docRoot := "www".toList, files := fun _ _ => none }

def helloRequest : List Event :=
  [.arrived, .accept (.ok ()), .read 0 (.ok "GET /rest/hello HTTP/1.0\r\n\r\n".toList)]

/-- A root without a NUL is not cut: only the path behind it may be. -/
theorem cStr_append {docRoot : Str} (h : '\x00' ∉ docRoot) (path : Str) :
    cStr (docRoot ++ path) = docRoot ++ cStr path := by
  refine List.takeWhile_append_of_pos fun c hc => ?_
  have hne : c ≠ '\x00' := by
    rintro rfl
    exact h hc
  exact decide_eq_true hne

/-- What `handle_request` itself sends depends only on the files below the root. -/
theorem handleRequest_below {docRoot : Str} (hroot : docRoot ≠ []) (hnul : '\x00' ∉ docRoot)
    (cwd : Paths.Directory) {disk disk' : Str → Option Str}
    (h : ∀ path, Paths.resolve cwd docRoot <+: Paths.resolve cwd path → disk path = disk' path)
    (uri : Str) :
    RequestHandler.handleRequest docRoot (fun path => disk (cStr path)) uri =
      RequestHandler.handleRequest docRoot (fun path => disk' (cStr path)) uri := by
  rcases handleRequest_cases uri with ⟨r, -, hall⟩ | ⟨path, hhead, hdots, hall⟩
  · rw [hall, hall]
  · rw [hall, hall]
    congr 1
    refine h _ ?_
    rw [cStr_append hnul]
    obtain ⟨path, rfl⟩ : ∃ rest, path = '/' :: rest := by
      cases path with
      | nil => cases hhead
      | cons c rest =>
        obtain rfl := Option.some.inj hhead
        exact ⟨rest, rfl⟩
    have hname : cStr ('/' :: path) = '/' :: cStr path := rfl
    rw [hname]
    refine Paths.resolve_below cwd hroot fun hinfix => hdots ?_
    exact hinfix.trans ((List.takeWhile_prefix _).isInfix.trans (List.suffix_cons '/' path).isInfix)

/-- The files that a request is answered from: those below the root of the documents, and the one
that `/rest/load` is asked for, which may be anywhere. -/
def Reached (docRoot : Str) (cwd : Paths.Directory) (uri path : Str) : Prop :=
  Paths.resolve cwd docRoot <+: Paths.resolve cwd path ∨
    ∃ args fn, RequestHandler.handleRequest docRoot (fun _ => none) uri = .called .load args ∧
      Load.fileOf args = some fn ∧ path = cStr fn

/-- Which handler is called does not depend on the files. -/
theorem handleRequest_called {docRoot uri args : Str} {files : Str → Option Str}
    {handler : HandlerPointer}
    (h : RequestHandler.handleRequest docRoot files uri = .called handler args)
    (files' : Str → Option Str) :
    RequestHandler.handleRequest docRoot files' uri = .called handler args := by
  rcases handleRequest_cases uri with ⟨r, -, hall⟩ | ⟨path, -, -, hall⟩
  · rw [hall, ← h, hall]
  · rw [hall] at h
    cases hfile : files (docRoot ++ path) with
    | none =>
      rw [hfile] at h
      cases h
    | some content =>
      rw [hfile] at h
      cases h

/-- Loading depends on the file that its argument names, and on no other. -/
theorem callHandler_load {env : UiEnv} {files files' : Str → Option Str} {args : Str}
    (h : ∀ fn, Load.fileOf args = some fn → files fn = files' fn) (c : RestContext) :
    callHandler env files c args .load = callHandler env files' c args .load := by
  have hload : Load.loadHandler env.scanner c { args := args, files := files } =
      Load.loadHandler env.scanner c { args := args, files := files' } := by
    simp only [Load.loadHandler]
    split
    · rfl
    · rename_i fn hfn
      simp only [h fn hfn]
  simp only [callHandler, hload]

/-- A handler other than `load` opens no file. -/
theorem callHandler_files {env : UiEnv} {handler : HandlerPointer} (h : handler ≠ .load)
    (files files' : Str → Option Str) (c : RestContext) (args : Str) :
    callHandler env files c args handler = callHandler env files' c args handler := by
  cases handler with
  | load => exact absurd rfl h
  | success => rfl
  | badRequest => rfl
  | hello => rfl
  | nodes => rfl

/-- What is answered to one request depends on the files that it reaches, and on no others. -/
theorem handle_reached {env : UiEnv} (hroot : env.docRoot ≠ []) (hnul : '\x00' ∉ env.docRoot)
    (cwd : Paths.Directory) {disk : ℕ → Str → Option Str} (req : Request)
    (h : ∀ n path, Reached env.docRoot cwd req.uri path → env.files n path = disk n path)
    (ctx : UiContext) : handle env ctx req = handle { env with files := disk } ctx req := by
  have hsame := handleRequest_below hroot hnul cwd
    (fun path hpath => h ctx.handled path (Or.inl hpath)) req.uri
  simp only [handle, ← hsame]
  split
  · rfl
  · rfl
  · rfl
  · rfl
  · rename_i handler args hcalled
    congr 1
    by_cases hload : handler = .load
    · subst hload
      exact callHandler_load (fun fn hfn => h ctx.handled (cStr fn)
        (Or.inr ⟨args, fn, handleRequest_called hcalled _, hfn, rfl⟩)) ctx.context
    · exact callHandler_files hload _ _ ctx.context args

/-- **What is not asked for stays where it is**: what the server answers in a run depends only on
the files below the root of the documents and on those that the requests ask `/rest/load` for,
whatever else the disk holds. -/
theorem run_reached {env : UiEnv} (hroot : env.docRoot ≠ []) (hnul : '\x00' ∉ env.docRoot)
    (cwd : Paths.Directory) {disk : ℕ → Str → Option Str} {ctx : UiContext} {es : List Event}
    (hallowed : AtEvery (Server.body (handle env)) (.new ctx) es Server.Allowed)
    (h : ∀ i, ∀ r : RequestText, r.wire <+: received i es → ∀ n path,
      Reached env.docRoot cwd r.request.uri path → env.files n path = disk n path) :
    run (Server.body (handle env)) (.new ctx) es =
      run (Server.body (handle { env with files := disk })) (.new ctx) es :=
  Server.run_congr hallowed fun i r hr => handle_reached hroot hnul cwd r.request (h i r hr)

/-- A request that was sent is the one that the parser has read. -/
theorem request_of_wire {r : RequestText} {input : Str} (h : r.wire <+: input) :
    r.request = (RequestParser.parse .new input).state.req := by
  obtain ⟨rest, rfl⟩ := h
  have hwire : RequestParser.parse .new (r.wire ++ rest) =
      ⟨⟨.expectingNewline3, r.request⟩, some true, rest⟩ := r.accepts_wire rest
  rw [hwire]

/-- A disk with a file in the directory of the documents and two more beside it. -/
def exampleDisk (other : Str) (path : Str) : Option Str :=
  if path = "www/a".toList then some "in".toList
  else if path = "b".toList then some "[]".toList
  else if path = "c".toList then some other
  else none

/-- One connection has a file loaded, and another asks for a document. -/
def loadRequests : List Event :=
  [.arrived, .accept (.ok ()), .arrived, .accept (.ok ()),
    .read 0 (.ok "GET /rest/load?file=b HTTP/1.0\r\n\r\n".toList),
    .read 1 (.ok "GET /a HTTP/1.0\r\n\r\n".toList)]

/-- The requests of the example, as far as they have come. -/
theorem uri_of_loadRequests {i : ℕ} {r : RequestText} (hr : r.wire <+: received i loadRequests) :
    r.request.uri = "/rest/load?file=b".toList ∨ r.request.uri = "/a".toList ∨
      r.request.uri = [] := by
  have hload : received 0 loadRequests =
      "GET /rest/load?file=b HTTP/1.0\r\n\r\n".toList := by decide +kernel
  have hfile : received 1 loadRequests = "GET /a HTTP/1.0\r\n\r\n".toList := by decide +kernel
  rcases i with _ | _ | i
  · rw [hload] at hr
    rw [request_of_wire hr]
    exact Or.inl (by decide +kernel)
  · rw [hfile] at hr
    rw [request_of_wire hr]
    exact Or.inr (Or.inl (by decide +kernel))
  · have hnothing : received (i + 2) loadRequests = [] := by
      simp [received, loadRequests, Event.input]
    rw [hnothing] at hr
    rw [request_of_wire hr]
    exact Or.inr (Or.inr rfl)

/-- Neither of them reaches the third file. -/
theorem not_reached_loadRequests {i : ℕ} {r : RequestText}
    (hr : r.wire <+: received i loadRequests) :
    ¬ Reached "www".toList [] r.request.uri "c".toList := by
  have hother : ¬ Paths.resolve [] "www".toList <+: Paths.resolve [] "c".toList := by decide
  have hload : RequestHandler.handleRequest "www".toList (fun _ => none)
      "/rest/load?file=b".toList = .called .load "file=b".toList := by decide +kernel
  have hnamed : Load.fileOf "file=b".toList = some "b".toList := by decide +kernel
  have hplain : RequestHandler.handleRequest "www".toList (fun _ => none) "/a".toList =
      .notFound := by decide +kernel
  have hempty : RequestHandler.handleRequest "www".toList (fun _ => none) [] = .badRequest := by
    decide +kernel
  rintro (hbelow | ⟨args, fn, hcalled, hfile, hpath⟩)
  · exact hother hbelow
  · rcases uri_of_loadRequests hr with huri | huri | huri
    · rw [huri, hload] at hcalled
      obtain ⟨-, rfl⟩ := Response.called.inj hcalled
      rw [hnamed] at hfile
      obtain rfl := Option.some.inj hfile
      exact absurd hpath (by decide)
    · rw [huri, hplain] at hcalled
      cases hcalled
    · rw [huri, hempty] at hcalled
      cases hcalled

/-- A run that loads one file and asks for another: the first is outside of the root. -/
theorem run_reached_loadRequests :
    let env (other : Str) : UiEnv :=
      { exampleEnv with files := fun _ => exampleDisk other }
    run (Server.body (handle (env "x".toList))) (.new ⟨.new, 0⟩) loadRequests =
      run (Server.body (handle (env "y".toList))) (.new ⟨.new, 0⟩) loadRequests := by
  intro env
  refine run_reached (by decide) (by decide) [] (by decide +kernel) fun i r hr n path hpath => ?_
  have hne : path ≠ "c".toList := by
    rintro rfl
    exact not_reached_loadRequests hr hpath
  show exampleDisk "x".toList path = exampleDisk "y".toList path
  simp only [exampleDisk, hne, if_false]

end UiServer

end Http

end Skweltch
