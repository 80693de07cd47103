import Skweltch.Lib.FixedWidth
import Skweltch.Lib.Recogniser
import Skweltch.Msg

/-!
# Skweltch — parsing requests

`request_parser` (`ui/request_parser.cpp`), which is given the bytes of a request one at a time and
fills in a `request`. A `boost::tribool` is an `Option Bool`. `http_version_major` and
`http_version_minor` are `int`s that wrap.

`consume` is the parser's step. What it takes for a request is said in `RequestText`.
-/

namespace Skweltch

open FixedWidth Recogniser

namespace Http

structure Header where
  name : Str
  value : Str
deriving DecidableEq, Repr

structure Request where
  method : Str
  uri : Str
  httpVersionMajor : Int
  httpVersionMinor : Int
  headers : List Header
deriving DecidableEq, Repr

/-- `request_parser::state`. -/
inductive State where
  | methodStart
  | method
  | uri
  | httpVersionH
  | httpVersionT1
  | httpVersionT2
  | httpVersionP
  | httpVersionSlash
  | httpVersionMajorStart
  | httpVersionMajor
  | httpVersionMinorStart
  | httpVersionMinor
  | expectingNewline1
  | headerLineStart
  | headerLws
  | headerName
  | spaceBeforeHeaderValue
  | headerValue
  | expectingNewline2
  | expectingNewline3
deriving DecidableEq, Repr

/-- `request_parser` together with the request that it fills in. -/
structure RequestParser where
  state : State
  req : Request
deriving DecidableEq, Repr

namespace Request

def empty : Request :=
  { method := [], uri := [], httpVersionMajor := 0, httpVersionMinor := 0, headers := [] }

def pushMethod (req : Request) (c : Char) : Request := { req with method := req.method ++ [c] }

def pushUri (req : Request) (c : Char) : Request := { req with uri := req.uri ++ [c] }

/-- `version * 10 + input - '0'` -/
def addDigit (version : Int) (c : Char) : Int := int32 (version * 10 + (c.toNat - '0'.toNat : Int))

def startVersion (req : Request) : Request :=
  { req with httpVersionMajor := 0, httpVersionMinor := 0 }

def pushMajor (req : Request) (c : Char) : Request :=
  { req with httpVersionMajor := addDigit req.httpVersionMajor c }

def pushMinor (req : Request) (c : Char) : Request :=
  { req with httpVersionMinor := addDigit req.httpVersionMinor c }

/-- `req.headers.push_back(header())`, with the first character of the name. -/
def newHeader (req : Request) (c : Char) : Request :=
  { req with headers := req.headers ++ [{ name := [c], value := [] }] }

/-- Change `req.headers.back()`; there is none only in states that are not reached. -/
def modifyBack (f : Header → Header) (req : Request) : Request :=
  { req with headers := req.headers.dropLast ++ (req.headers.getLast?.map f).toList }

def pushName (req : Request) (c : Char) : Request :=
  req.modifyBack fun h => { h with name := h.name ++ [c] }

def pushValue (req : Request) (c : Char) : Request :=
  req.modifyBack fun h => { h with value := h.value ++ [c] }

end Request

namespace RequestParser

def new : RequestParser := { state := .methodStart, req := .empty }

/-- A byte above 127 is a negative `char`. -/
def isChar (c : Char) : Bool := decide (c.toNat ≤ 127)

def isCtl (c : Char) : Bool := decide (c.toNat ≤ 31 ∨ c.toNat = 127)

def isTspecial (c : Char) : Bool :=
  ['(', ')', '<', '>', '@', ',', ';', ':', '\\', '"', '/', '[', ']', '?', '=', '\x7b', '\x7d', ' ',
    '\t'].contains c

def isDigit (c : Char) : Bool := decide ('0' ≤ c ∧ c ≤ '9')

/-- `!is_char(input) || is_ctl(input) || is_tspecial(input)` -/
def notToken (c : Char) : Bool := !isChar c || isCtl c || isTspecial c

/-- A state that waits for one character. -/
def expect (c input : Char) (next p : RequestParser) : RequestParser × Option Bool :=
  if input = c then (next, none) else (p, some false)

/-- `request_parser::consume`. -/
def consume (p : RequestParser) (input : Char) : RequestParser × Option Bool :=
  let goto (state : State) (req : Request) : RequestParser × Option Bool := (⟨state, req⟩, none)
  let no : RequestParser × Option Bool := (p, some false)
  match p.state with
  | .methodStart =>
    if notToken input then no else goto .method (p.req.pushMethod input)
  | .method =>
    if input = ' ' then goto .uri p.req
    else if notToken input then no
    else goto .method (p.req.pushMethod input)
  | .uri =>
    if input = ' ' then goto .httpVersionH p.req
    else if isCtl input then no
    else goto .uri (p.req.pushUri input)
  | .httpVersionH => expect 'H' input ⟨.httpVersionT1, p.req⟩ p
  | .httpVersionT1 => expect 'T' input ⟨.httpVersionT2, p.req⟩ p
  | .httpVersionT2 => expect 'T' input ⟨.httpVersionP, p.req⟩ p
  | .httpVersionP => expect 'P' input ⟨.httpVersionSlash, p.req⟩ p
  | .httpVersionSlash => expect '/' input ⟨.httpVersionMajorStart, p.req.startVersion⟩ p
  | .httpVersionMajorStart =>
    if isDigit input then goto .httpVersionMajor (p.req.pushMajor input) else no
  | .httpVersionMajor =>
    if input = '.' then goto .httpVersionMinorStart p.req
    else if isDigit input then goto .httpVersionMajor (p.req.pushMajor input)
    else no
  | .httpVersionMinorStart =>
    if isDigit input then goto .httpVersionMinor (p.req.pushMinor input) else no
  | .httpVersionMinor =>
    if input = '\r' then goto .expectingNewline1 p.req
    else if isDigit input then goto .httpVersionMinor (p.req.pushMinor input)
    else no
  | .expectingNewline1 => expect '\n' input ⟨.headerLineStart, p.req⟩ p
  | .headerLineStart =>
    if input = '\r' then goto .expectingNewline3 p.req
    else if p.req.headers ≠ [] ∧ (input = ' ' ∨ input = '\t') then goto .headerLws p.req
    else if notToken input then no
    else goto .headerName (p.req.newHeader input)
  | .headerLws =>
    if input = '\r' then goto .expectingNewline2 p.req
    else if input = ' ' ∨ input = '\t' then goto .headerLws p.req
    else if isCtl input then no
    else goto .headerValue (p.req.pushValue input)
  | .headerName =>
    if input = ':' then goto .spaceBeforeHeaderValue p.req
    else if notToken input then no
    else goto .headerName (p.req.pushName input)
  | .spaceBeforeHeaderValue => expect ' ' input ⟨.headerValue, p.req⟩ p
  | .headerValue =>
    if input = '\r' then goto .expectingNewline2 p.req
    else if isCtl input then no
    else goto .headerValue (p.req.pushValue input)
  | .expectingNewline2 => expect '\n' input ⟨.headerLineStart, p.req⟩ p
  | .expectingNewline3 => (p, some (input = '\n'))

/-- `request_parser::parse`. -/
def parse (p : RequestParser) (input : Str) : Parsed RequestParser Char Bool :=
  Recogniser.parse consume p input

end RequestParser

end Http

end Skweltch
