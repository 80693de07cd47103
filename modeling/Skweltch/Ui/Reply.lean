import Skweltch.Lib.NumText
import Skweltch.Ui.RequestText

/-!
# Skweltch — replies

`reply` (`ui/reply.cpp`): the status lines, the stock replies, and the bytes that are sent.
`readReply` is what a client makes of the bytes, up to the end of the connection: the status line,
the headers, and the content behind the empty line. It gets back every reply whose headers have
nothing in them that ends a line (`readReply_text`), as those of the server are.
-/

namespace Skweltch

namespace Http

/-- `reply::status_type`. -/
inductive StatusType where
  | ok
  | created
  | accepted
  | noContent
  | multipleChoices
  | movedPermanently
  | movedTemporarily
  | notModified
  | badRequest
  | unauthorized
  | forbidden
  | notFound
  | internalServerError
  | notImplemented
  | badGateway
  | serviceUnavailable
deriving DecidableEq, Repr

namespace StatusType

/-- The status line, without its end. -/
def line : StatusType → Str
  | .ok => "HTTP/1.0 200 OK".toList
  | .created => "HTTP/1.0 201 Created".toList
  | .accepted => "HTTP/1.0 202 Accepted".toList
  | .noContent => "HTTP/1.0 204 No Content".toList
  | .multipleChoices => "HTTP/1.0 300 Multiple Choices".toList
  | .movedPermanently => "HTTP/1.0 301 Moved Permanently".toList
  | .movedTemporarily => "HTTP/1.0 302 Moved Temporarily".toList
  | .notModified => "HTTP/1.0 304 Not Modified".toList
  | .badRequest => "HTTP/1.0 400 Bad Request".toList
  | .unauthorized => "HTTP/1.0 401 Unauthorized".toList
  | .forbidden => "HTTP/1.0 403 Forbidden".toList
  | .notFound => "HTTP/1.0 404 Not Found".toList
  | .internalServerError => "HTTP/1.0 500 Internal Server Error".toList
  | .notImplemented => "HTTP/1.0 501 Not Implemented".toList
  | .badGateway => "HTTP/1.0 502 Bad Gateway".toList
  | .serviceUnavailable => "HTTP/1.0 503 Service Unavailable".toList

/-- What is sent for a status: `status_strings::to_buffer`. -/
def toBuffer (status : StatusType) : Str := status.line ++ crlf

def page (title heading : Str) : Str :=
  "<html><head><title>".toList ++ title ++ "</title></head><body><h1>".toList ++ heading ++
    "</h1></body></html>".toList

/-- `stock_replies::to_string` -/
def stockContent : StatusType → Str
  | .ok => []
  | .created => page "Created".toList "201 Created".toList
  | .accepted => page "Accepted".toList "202 Accepted".toList
  | .noContent => page "No Content".toList "204 Content".toList
  | .multipleChoices => page "Multiple Choices".toList "300 Multiple Choices".toList
  | .movedPermanently => page "Moved Permanently".toList "301 Moved Permanently".toList
  | .movedTemporarily => page "Moved Temporarily".toList "302 Moved Temporarily".toList
  | .notModified => page "Not Modified".toList "304 Not Modified".toList
  | .badRequest => page "Bad Request".toList "400 Bad Request".toList
  | .unauthorized => page "Unauthorized".toList "401 Unauthorized".toList
  | .forbidden => page "Forbidden".toList "403 Forbidden".toList
  | .notFound => page "Not Found".toList "404 Not Found".toList
  | .internalServerError => page "Internal Server Error".toList "500 Internal Server Error".toList
  | .notImplemented => page "Not Implemented".toList "501 Not Implemented".toList
  | .badGateway => page "Bad Gateway".toList "502 Bad Gateway".toList
  | .serviceUnavailable => page "Service Unavailable".toList "503 Service Unavailable".toList

end StatusType

structure Reply where
  status : StatusType
  headers : List Header
  content : Str
deriving DecidableEq, Repr

namespace Reply

def contentLength : Str := "Content-Length".toList

def contentType : Str := "Content-Type".toList

/-- The two headers that every part of the server puts in, for a content of some size. -/
def makeHeaders (size : Nat) (mimetype : Str) : List Header :=
  [{ name := contentLength, value := NumText.decText size },
    { name := contentType, value := mimetype }]

/-- `reply::stock_reply` -/
def stockReply (status : StatusType) : Reply :=
  { status := status
    headers := makeHeaders status.stockContent.length "text/html".toList
    content := status.stockContent }

def headerText (h : Header) : Str := h.name ++ ':' :: ' ' :: (h.value ++ crlf)

/-- `reply::to_buffers`, one buffer behind the other. -/
def text (rep : Reply) : Str :=
  rep.status.toBuffer ++ (rep.headers.flatMap headerText ++ (crlf ++ rep.content))

end Reply

/-! ## What a client reads

A client reads the status line, the headers up to the empty line, and as many bytes as they say. -/

/-- The first line and what is behind its end. -/
def readLine : Str → Option (Str × Str)
  | [] => none
  | c :: s =>
    if c = '\r' ∧ s.head? = some '\n' then some ([], s.tail)
    else (readLine s).map fun p => (c :: p.1, p.2)

/-- The name and the value of a header line. -/
def readHeader (line : Str) : Header :=
  { name := line.takeWhile (· ≠ ':'), value := ((line.dropWhile (· ≠ ':')).drop 2) }

/-- The headers, up to the empty line, and what is behind it. -/
def readHeaders : Nat → Str → Option (List Header × Str)
  | 0, _ => none
  | n + 1, s =>
    match readLine s with
    | none => none
    | some ([], rest) => some ([], rest)
    | some (line, rest) => (readHeaders n rest).map fun p => (readHeader line :: p.1, p.2)

/-- The status line, the headers and the content of a reply. -/
def readReply (s : Str) : Option (Str × List Header × Str) :=
  match readLine s with
  | none => none
  | some (line, rest) => (readHeaders (s.length + 1) rest).map fun p => (line, p.1, p.2)

/-- Nothing in a header ends its line, and the name ends at the colon. -/
structure Header.Plain (h : Header) : Prop where
  name_ne : h.name ≠ []
  name : ∀ c ∈ h.name, c ≠ ':' ∧ c ≠ '\r'
  value : '\r' ∉ h.value

/-- A line is read up to its end. -/
theorem readLine_append {line : Str} (h : '\r' ∉ line) (rest : Str) :
    readLine (line ++ (crlf ++ rest)) = some (line, rest) := by
  induction line with
  | nil => rfl
  | cons c line ih =>
    obtain ⟨hc, hline⟩ := not_or.mp (fun hor => h (List.mem_cons.mpr hor))
    have hne : ¬ (c = '\r' ∧ (line ++ (crlf ++ rest)).head? = some '\n') :=
      fun hand => hc hand.1.symm
    rw [List.cons_append, readLine, if_neg hne, ih hline]
    rfl

theorem readHeader_plain {h : Header} (hp : h.Plain) :
    readHeader (h.name ++ ':' :: ' ' :: h.value) = h := by
  have hname : ∀ c ∈ h.name, decide (c ≠ ':') = true :=
    fun c hc => decide_eq_true (hp.name c hc).1
  rw [readHeader, List.takeWhile_append_of_pos hname, List.dropWhile_append_of_pos hname]
  simp

/-- Plain headers are read back, up to the empty line. -/
theorem readHeaders_plain {headers : List Header} (hp : ∀ h ∈ headers, h.Plain) {n : Nat}
    (hn : headers.length < n) (rest : Str) :
    readHeaders n (headers.flatMap Reply.headerText ++ (crlf ++ rest)) = some (headers, rest) := by
  induction headers generalizing n with
  | nil =>
    obtain ⟨n, rfl⟩ := Nat.exists_eq_succ_of_ne_zero (Nat.ne_of_gt hn)
    rfl
  | cons h headers ih =>
    obtain ⟨hh, hp⟩ := List.forall_mem_cons.mp hp
    obtain ⟨n, rfl⟩ := Nat.exists_eq_succ_of_ne_zero (Nat.ne_of_gt (Nat.zero_lt_of_lt hn))
    have hline : '\r' ∉ h.name ++ ':' :: ' ' :: h.value := by
      simp only [List.mem_append, List.mem_cons, not_or]
      exact ⟨fun hmem => (hh.name _ hmem).2 rfl, by decide, by decide, hh.value⟩
    have hne : h.name ++ ':' :: ' ' :: h.value ≠ [] := by simp
    have htext : (h :: headers).flatMap Reply.headerText ++ (crlf ++ rest) =
        (h.name ++ ':' :: ' ' :: h.value) ++
          (crlf ++ (headers.flatMap Reply.headerText ++ (crlf ++ rest))) := by
      simp [Reply.headerText]
    rw [htext, readHeaders, readLine_append hline]
    obtain ⟨c, line, hcons⟩ := List.exists_cons_of_ne_nil hne
    rw [hcons]
    simp only
    rw [ih hp (Nat.lt_of_succ_lt_succ hn), ← hcons, readHeader_plain hh]
    rfl

theorem StatusType.line_plain (status : StatusType) : '\r' ∉ status.line := by
  cases status <;> decide

/-- **A client gets back what was sent**: from the bytes of a reply with plain headers it reads the
status, the headers and the content. -/
theorem readReply_text {rep : Reply} (hp : ∀ h ∈ rep.headers, h.Plain) :
    readReply rep.text = some (rep.status.line, rep.headers, rep.content) := by
  have hlen : rep.headers.length < rep.text.length + 1 := by
    have hone : ∀ hs : List Header, hs.length ≤ (hs.flatMap Reply.headerText).length := by
      intro hs
      induction hs with
      | nil => exact le_rfl
      | cons h hs ih =>
        simp only [List.flatMap_cons, List.length_append, List.length_cons, Reply.headerText]
        omega
    have := hone rep.headers
    simp only [Reply.text, List.length_append]
    omega
  have htext : rep.text = rep.status.line ++
      (crlf ++ (rep.headers.flatMap Reply.headerText ++ (crlf ++ rep.content))) := by
    simp [Reply.text, StatusType.toBuffer]
  rw [readReply, htext, readLine_append rep.status.line_plain, ← htext]
  simp only
  rw [readHeaders_plain hp hlen]
  rfl

end Http

end Skweltch
