import Skweltch.Ui.RequestParser

/-!
# Skweltch — requests on the wire

What a request looks like on the wire: a request line, header fields that may go on over several
lines, and an empty line. The parser accepts these texts and nothing else (`parse_accepts_iff`), and
it knows as early as can be known: more is wanted exactly of the beginnings of such a text, so that
a request is refused at the first byte with which none goes on (`parse_tells_early`).

`accepts_line` is the step for one line behind the request line; `accepts_lines` is the induction
over them.
-/

namespace Skweltch

open FixedWidth Recogniser

namespace Http

open RequestParser

def crlf : Str := ['\r', '\n']

/-- A line that goes on with the value of the field before it. -/
structure Fold where
  blanks : Str
  text : Str
  blanks_ne : blanks ≠ []
  blank : ∀ c ∈ blanks, c = ' ' ∨ c = '\t'
  plain : ∀ c ∈ text, isCtl c = false
  /-- the blanks end where the text begins -/
  begins : text.head? ≠ some ' '

/-- A header field, with the lines on which its value goes on. -/
structure Field where
  name : Str
  value : Str
  folds : List Fold
  name_ne : name ≠ []
  token : ∀ c ∈ name, notToken c = false
  plain : ∀ c ∈ value, isCtl c = false

structure RequestText where
  method : Str
  uri : Str
  major : Str
  minor : Str
  fields : List Field
  method_ne : method ≠ []
  token : ∀ c ∈ method, notToken c = false
  uri_plain : ∀ c ∈ uri, c ≠ ' ' ∧ isCtl c = false
  major_ne : major ≠ []
  major_digits : ∀ c ∈ major, isDigit c = true
  minor_ne : minor ≠ []
  minor_digits : ∀ c ∈ minor, isDigit c = true

def Fold.wire (f : Fold) : Str := f.blanks ++ (f.text ++ crlf)

def fieldLine (name value : Str) : Str := name ++ ':' :: ' ' :: (value ++ crlf)

def Field.wire (f : Field) : Str := fieldLine f.name f.value ++ f.folds.flatMap Fold.wire

/-- The field as the server keeps it: on one line. -/
def Field.header (f : Field) : Header :=
  { name := f.name, value := f.value ++ f.folds.flatMap Fold.text }

namespace RequestText

def wire (r : RequestText) : Str :=
  r.method ++ ' ' :: (r.uri ++ ' ' :: ("HTTP/".toList ++ (r.major ++ '.' :: (r.minor ++
    (crlf ++ (r.fields.flatMap Field.wire ++ crlf))))))

/-- The number that a version is read as, in an `int`. -/
def version (digits : Str) : Int := int32 (Nat.ofDigitChars 10 digits 0 : Int)

def request (r : RequestText) : Request :=
  { method := r.method
    uri := r.uri
    httpVersionMajor := version r.major
    httpVersionMinor := version r.minor
    headers := r.fields.map Field.header }

end RequestText

/-! ## What the parser collects

A request is collected in the fields of `request`, character by character. Pushing the characters of
a text one by one is appending the text. -/

namespace Request

theorem foldl_pushMethod (t : Str) (req : Request) :
    t.foldl pushMethod req = { req with method := req.method ++ t } := by
  induction t generalizing req with
  | nil => simp
  | cons c t ih => simp [ih, pushMethod]

theorem foldl_pushUri (t : Str) (req : Request) :
    t.foldl pushUri req = { req with uri := req.uri ++ t } := by
  induction t generalizing req with
  | nil => simp
  | cons c t ih => simp [ih, pushUri]

/-- One more digit of a version number, with the overflow of the `int` it is kept in. -/
theorem addDigit_int32 (n : Nat) {c : Char} (hc : isDigit c = true) :
    addDigit (int32 (n : Int)) c = int32 ((10 * n + (c.toNat - '0'.toNat) : Nat) : Int) := by
  have hle : '0'.toNat ≤ c.toNat := (of_decide_eq_true hc).1
  rw [addDigit, Nat.cast_add, Nat.cast_mul, Nat.cast_sub hle]
  generalize (c.toNat : Int) - ('0'.toNat : Int) = d
  unfold int32
  push_cast
  omega

/-- All its digits. -/
theorem foldl_addDigit {t : Str} (ht : ∀ c ∈ t, isDigit c = true) (n : Nat) :
    t.foldl addDigit (int32 (n : Int)) = int32 (Nat.ofDigitChars 10 t n : Int) := by
  induction t generalizing n with
  | nil => rw [List.foldl_nil, Nat.ofDigitChars_nil]
  | cons c t ih =>
    obtain ⟨hc, ht⟩ := List.forall_mem_cons.mp ht
    have hrest := ih ht
    rw [List.foldl_cons, addDigit_int32 n hc, Nat.ofDigitChars_cons]
    generalize 10 * n + (c.toNat - '0'.toNat) = m
    exact hrest m

theorem foldl_pushMajor (t : Str) (req : Request) :
    t.foldl pushMajor req = { req with httpVersionMajor := t.foldl addDigit req.httpVersionMajor } := by
  induction t generalizing req with
  | nil => rfl
  | cons c t ih => simp [ih, pushMajor]

theorem foldl_pushMinor (t : Str) (req : Request) :
    t.foldl pushMinor req = { req with httpVersionMinor := t.foldl addDigit req.httpVersionMinor } := by
  induction t generalizing req with
  | nil => rfl
  | cons c t ih => simp [ih, pushMinor]

/-- A field of one line. -/
def addHeader (req : Request) (name value : Str) : Request :=
  { req with headers := req.headers ++ [{ name := name, value := value }] }

def addText (req : Request) (text : Str) : Request :=
  req.modifyBack fun h => { h with value := h.value ++ text }

theorem modifyBack_addHeader (req : Request) (name value : Str) (f : Header → Header) :
    (req.addHeader name value).modifyBack f =
      { req with headers := req.headers ++ [f { name := name, value := value }] } := by
  simp [modifyBack, addHeader]

theorem headers_modifyBack_eq_nil (req : Request) (f : Header → Header) :
    (req.modifyBack f).headers = [] ↔ req.headers = [] := by
  rcases List.eq_nil_or_concat req.headers with h | ⟨hs, h₀, h⟩ <;> simp [modifyBack, h]

theorem modifyBack_modifyBack (req : Request) (f g : Header → Header) :
    (req.modifyBack f).modifyBack g = req.modifyBack (g ∘ f) := by
  rcases List.eq_nil_or_concat req.headers with h | ⟨hs, h₀, h⟩ <;> simp [modifyBack, h]

theorem modifyBack_id (req : Request) : req.modifyBack id = req := by
  rcases List.eq_nil_or_concat req.headers with h | ⟨hs, h₀, h⟩
  · cases req
    simp_all [modifyBack]
  · cases req
    simp_all [modifyBack]

theorem addText_nil (req : Request) : req.addText [] = req := by
  have hid : (fun h : Header => { h with value := h.value ++ [] }) = id := by
    funext h
    simp
  rw [addText, hid, modifyBack_id]

theorem addText_addText (req : Request) (s t : Str) :
    (req.addText s).addText t = req.addText (s ++ t) := by
  rw [addText, addText, modifyBack_modifyBack]
  simp [addText, Function.comp_def]

/-- The characters of a value are added to the last header. -/
theorem foldl_pushValue (t : Str) (req : Request) :
    t.foldl pushValue req = req.addText t := by
  induction t generalizing req with
  | nil => rw [List.foldl_nil, addText_nil]
  | cons c t ih => rw [List.foldl_cons, ih, show req.pushValue c = req.addText [c] from rfl,
      addText_addText, List.singleton_append]

/-- Those of a name are added to its name. -/
theorem foldl_pushName (t name : Str) (req : Request) :
    t.foldl pushName (req.addHeader name []) = req.addHeader (name ++ t) [] := by
  induction t generalizing name with
  | nil => simp
  | cons c t ih =>
    have hstep : (req.addHeader name []).pushName c = req.addHeader (name ++ [c]) [] := by
      rw [pushName, modifyBack_addHeader]
      rfl
    rw [List.foldl_cons, hstep, ih]
    simp

theorem addText_addHeader (req : Request) (name value text : Str) :
    (req.addHeader name value).addText text = req.addHeader name (value ++ text) := by
  rw [addText, modifyBack_addHeader]
  rfl

end Request

/-! ## There is a field to go on with -/

/-- In the states that change `req.headers.back()` there is one. -/
def HasBack (p : RequestParser) : Prop :=
  p.state ∈ [State.headerLws, .headerName, .spaceBeforeHeaderValue, .headerValue,
    .expectingNewline2] → p.req.headers ≠ []

/-- No state goes on with a field that is not there, step by step. -/
theorem hasBack_consume (p : RequestParser) (input : Char) (h : HasBack p) :
    HasBack (RequestParser.consume p input).1 := by
  have hback : ∀ f : Header → Header, p.req.headers ≠ [] → (p.req.modifyBack f).headers ≠ [] :=
    fun f hne hnil => hne ((Request.headers_modifyBack_eq_nil p.req f).mp hnil)
  obtain ⟨state, req⟩ := p
  cases state
  case expectingNewline3 => exact h
  all_goals
    simp only [HasBack, RequestParser.consume, expect, List.mem_cons, List.not_mem_nil] at h ⊢
    split_ifs
  all_goals simp_all [Request.newHeader, Request.pushName, Request.pushValue]

theorem hasBack_parse (input : Str) : HasBack (RequestParser.parse .new input).state :=
  parse_invariant hasBack_consume (fun h => absurd h (by decide)) input

/-! ## What each state accepts

For each state of the parser, the texts that it accepts from there on and the request that they lead
to. From the last state backwards, each is a step of the next. -/

section States

variable {req : Request} {s rest : Str} {q : RequestParser}

abbrev Accepts (state : State) (req : Request) (s : Str) (q : RequestParser) (rest : Str) : Prop :=
  Says RequestParser.consume true ⟨state, req⟩ s q rest

theorem accepts_cons {c : Char} {state next : State} {req' : Request}
    (h : RequestParser.consume ⟨state, req⟩ c = (⟨next, req'⟩, none)) :
    Accepts state req (c :: s) q rest ↔ Accepts next req' s q rest := says_cons_none h

theorem accepts_expect (c : Char) (state next : State) (req' : Request)
    (h : ∀ x, RequestParser.consume ⟨state, req⟩ x = expect c x ⟨next, req'⟩ ⟨state, req⟩) :
    Accepts state req s q rest ↔ ∃ t, s = c :: t ∧ Accepts next req' t q rest :=
  says_literal (show true ≠ false by decide) h

theorem accepts_newline (state : State)
    (h : ∀ x, RequestParser.consume ⟨state, req⟩ x =
      expect '\n' x ⟨.headerLineStart, req⟩ ⟨state, req⟩) :
    Accepts state req s q rest ↔ ∃ t, s = '\n' :: t ∧ Accepts .headerLineStart req t q rest :=
  accepts_expect '\n' state .headerLineStart req h

/-- The five states that read `HTTP/`. -/
theorem accepts_http :
    Accepts .httpVersionH req s q rest ↔
      ∃ t, s = "HTTP/".toList ++ t ∧ Accepts .httpVersionMajorStart req.startVersion t q rest := by
  constructor
  · intro h
    obtain ⟨s, rfl, h⟩ := (accepts_expect 'H' .httpVersionH .httpVersionT1 req fun _ => rfl).mp h
    obtain ⟨s, rfl, h⟩ := (accepts_expect 'T' .httpVersionT1 .httpVersionT2 req fun _ => rfl).mp h
    obtain ⟨s, rfl, h⟩ := (accepts_expect 'T' .httpVersionT2 .httpVersionP req fun _ => rfl).mp h
    obtain ⟨s, rfl, h⟩ := (accepts_expect 'P' .httpVersionP .httpVersionSlash req fun _ => rfl).mp h
    obtain ⟨s, rfl, h⟩ := (accepts_expect '/' .httpVersionSlash .httpVersionMajorStart
      req.startVersion fun _ => rfl).mp h
    exact ⟨s, rfl, h⟩
  · rintro ⟨t, rfl, h⟩
    have hP := (accepts_expect '/' .httpVersionSlash .httpVersionMajorStart req.startVersion
      fun _ => rfl).mpr ⟨t, rfl, h⟩
    have hT2 := (accepts_expect 'P' .httpVersionP .httpVersionSlash req fun _ => rfl).mpr
      ⟨_, rfl, hP⟩
    have hT1 := (accepts_expect 'T' .httpVersionT2 .httpVersionP req fun _ => rfl).mpr
      ⟨_, rfl, hT2⟩
    have hH := (accepts_expect 'T' .httpVersionT1 .httpVersionT2 req fun _ => rfl).mpr
      ⟨_, rfl, hT1⟩
    exact (accepts_expect 'H' .httpVersionH .httpVersionT1 req fun _ => rfl).mpr ⟨_, rfl, hH⟩

/-- The method: something up to a blank, of the characters that a token may have. -/
theorem accepts_methodStart :
    Accepts .methodStart req s q rest ↔
      ∃ t t', t ≠ [] ∧ s = t ++ ' ' :: t' ∧ (∀ c ∈ t, notToken c = false) ∧
        Accepts .uri (t.foldl Request.pushMethod req) t' q rest :=
  says_span_ne (show true ≠ false by decide) (RequestParser.mk .methodStart)
    (RequestParser.mk .method) (RequestParser.mk .uri) notToken Request.pushMethod (by decide) req
    (fun _ => rfl) (fun _ _ => rfl)

/-- The URI: anything up to a blank but control characters. -/
theorem accepts_uri :
    Accepts .uri req s q rest ↔
      ∃ t t', s = t ++ ' ' :: t' ∧ (∀ c ∈ t, c ≠ ' ' ∧ isCtl c = false) ∧
        Accepts .httpVersionH (t.foldl Request.pushUri req) t' q rest :=
  says_span (show true ≠ false by decide) (RequestParser.mk .uri) (RequestParser.mk .httpVersionH)
    isCtl Request.pushUri (fun _ _ => rfl) req

/-- Both numbers of a version: digits up to the character behind them. -/
theorem accepts_number {c : Char} (hc : isDigit c = false) (start state next : State)
    (push : Request → Char → Request)
    (hstart : ∀ r x, RequestParser.consume ⟨start, r⟩ x =
      if isDigit x then (⟨state, push r x⟩, none) else (⟨start, r⟩, some false))
    (hstate : ∀ r x, RequestParser.consume ⟨state, r⟩ x =
      if x = c then (⟨next, r⟩, none)
      else if isDigit x then (⟨state, push r x⟩, none) else (⟨state, r⟩, some false)) :
    Accepts start req s q rest ↔
      ∃ t t', t ≠ [] ∧ s = t ++ c :: t' ∧ (∀ x ∈ t, isDigit x = true) ∧
        Accepts next (t.foldl push req) t' q rest := by
  have hbad : (!isDigit c) = true := by rw [hc]; rfl
  have h : Accepts start req s q rest ↔
      ∃ t t', t ≠ [] ∧ s = t ++ c :: t' ∧ (∀ x ∈ t, (!isDigit x) = false) ∧
        Accepts next (t.foldl push req) t' q rest :=
    says_span_ne (show true ≠ false by decide) (RequestParser.mk start) (RequestParser.mk state)
      (RequestParser.mk next) (fun x => !isDigit x) push hbad req
      (fun x => by rw [hstart]; cases isDigit x <;> rfl)
      fun r x => by rw [hstate]; cases isDigit x <;> rfl
  simpa only [Bool.not_eq_false'] using h

theorem accepts_headerName :
    Accepts .headerName req s q rest ↔
      ∃ t t', s = t ++ ':' :: t' ∧ (∀ c ∈ t, c ≠ ':' ∧ notToken c = false) ∧
        Accepts .spaceBeforeHeaderValue (t.foldl Request.pushName req) t' q rest :=
  says_span (show true ≠ false by decide) (RequestParser.mk .headerName)
    (RequestParser.mk .spaceBeforeHeaderValue) notToken Request.pushName
    (fun _ _ => rfl) req

/-- The rest of a line of a value, and its end. -/
theorem accepts_headerValue :
    Accepts .headerValue req s q rest ↔
      ∃ t t', s = t ++ (crlf ++ t') ∧ (∀ c ∈ t, isCtl c = false) ∧
        Accepts .headerLineStart (req.addText t) t' q rest := by
  have hspan : Accepts .headerValue req s q rest ↔
      ∃ t t', s = t ++ '\r' :: t' ∧ (∀ c ∈ t, c ≠ '\r' ∧ isCtl c = false) ∧
        Accepts .expectingNewline2 (t.foldl Request.pushValue req) t' q rest :=
    says_span (show true ≠ false by decide) (RequestParser.mk .headerValue)
      (RequestParser.mk .expectingNewline2) isCtl Request.pushValue
      (fun _ _ => rfl) req
  rw [hspan]
  constructor
  · rintro ⟨t, t', rfl, ht, hs⟩
    obtain ⟨t', rfl, hs⟩ := (accepts_newline .expectingNewline2 fun _ => rfl).mp hs
    rw [Request.foldl_pushValue] at hs
    exact ⟨t, t', rfl, fun c hc => (ht c hc).2, hs⟩
  · rintro ⟨t, t', rfl, ht, hs⟩
    refine ⟨t, '\n' :: t', rfl, fun c hc => ⟨?_, ht c hc⟩, ?_⟩
    · rintro rfl
      exact absurd (ht _ hc) (by decide)
    · rw [Request.foldl_pushValue]
      exact (accepts_newline .expectingNewline2 fun _ => rfl).mpr ⟨_, rfl, hs⟩

/-! ## Lines behind the request line

A line is empty, begins with a blank and goes on with the value before, or is a field. -/

/-- A line that goes on with a field: blanks, then text that does not begin with a blank, is
accepted. -/
theorem accepts_headerLws_mpr {blanks text t : Str} (hb : ∀ c ∈ blanks, c = ' ' ∨ c = '\t')
    (ht : ∀ c ∈ text, isCtl c = false) (hbegins : text.head? ≠ some ' ')
    (h : Accepts .headerLineStart (req.addText text) t q rest) :
    Accepts .headerLws req (blanks ++ (text ++ (crlf ++ t))) q rest := by
  induction blanks with
  | nil =>
    cases text with
    | nil =>
      rw [Request.addText_nil] at h
      have hnew := (accepts_newline .expectingNewline2 fun _ => rfl).mpr ⟨_, rfl, h⟩
      have hstep : RequestParser.consume ⟨.headerLws, req⟩ '\r' = (⟨.expectingNewline2, req⟩, none) :=
        rfl
      exact (accepts_cons hstep).mpr hnew
    | cons c text =>
      obtain ⟨hc, ht⟩ := List.forall_mem_cons.mp ht
      -- a character of the text neither ends the line nor is skipped
      have hcr : c ≠ '\r' := by
        rintro rfl
        exact absurd hc (by decide)
      have htab : c ≠ '\t' := by
        rintro rfl
        exact absurd hc (by decide)
      have hblank : c ≠ ' ' := fun heq => hbegins (by rw [heq]; rfl)
      have hstep : RequestParser.consume ⟨.headerLws, req⟩ c =
          (⟨.headerValue, req.pushValue c⟩, none) := by
        simp only [RequestParser.consume, hcr, htab, hblank, hc, or_self, if_false,
          Bool.false_eq_true]
      have hvalue : Accepts .headerValue (req.pushValue c) (text ++ (crlf ++ t)) q rest := by
        refine accepts_headerValue.mpr ⟨text, t, rfl, ht, ?_⟩
        rw [show req.pushValue c = req.addText [c] from rfl, Request.addText_addText]
        exact h
      exact (accepts_cons hstep).mpr hvalue
  | cons c blanks ih =>
    obtain ⟨hc, hb⟩ := List.forall_mem_cons.mp hb
    have hstep : RequestParser.consume ⟨.headerLws, req⟩ c = (⟨.headerLws, req⟩, none) := by
      rcases hc with rfl | rfl <;> rfl
    exact (accepts_cons hstep).mpr (ih hb)

/-- Nothing else is accepted there. -/
theorem accepts_headerLws_mp (h : Accepts .headerLws req s q rest) :
    ∃ blanks text t, s = blanks ++ (text ++ (crlf ++ t)) ∧ (∀ c ∈ blanks, c = ' ' ∨ c = '\t') ∧
      (∀ c ∈ text, isCtl c = false) ∧ text.head? ≠ some ' ' ∧
      Accepts .headerLineStart (req.addText text) t q rest := by
  induction s with
  | nil => cases h
  | cons c s ih =>
    by_cases hcr : c = '\r'
    · subst hcr
      have hstep : RequestParser.consume ⟨.headerLws, req⟩ '\r' = (⟨.expectingNewline2, req⟩, none) :=
        rfl
      -- an empty continuation adds nothing to the value
      obtain ⟨t, rfl, ht⟩ := (accepts_newline .expectingNewline2 fun _ => rfl).mp
        ((accepts_cons hstep).mp h)
      refine ⟨[], [], t, rfl, by simp, by simp, by simp, ?_⟩
      rw [Request.addText_nil]
      exact ht
    · by_cases hblank : c = ' ' ∨ c = '\t'
      · have hstep : RequestParser.consume ⟨.headerLws, req⟩ c = (⟨.headerLws, req⟩, none) := by
          simp only [RequestParser.consume, hcr, hblank, if_false, if_true]
        obtain ⟨blanks, text, t, rfl, hb, ht, hbegins, hs⟩ := ih ((accepts_cons hstep).mp h)
        exact ⟨c :: blanks, text, t, rfl, List.forall_mem_cons.mpr ⟨hblank, hb⟩, ht, hbegins, hs⟩
      · cases hctl : isCtl c with
        | true =>
          have hno : RequestParser.consume ⟨.headerLws, req⟩ c =
              (⟨.headerLws, req⟩, some false) := by
            simp only [RequestParser.consume, hcr, hblank, hctl, if_false, if_true]
          rw [Accepts, Says, parse_cons_some hno] at h
          cases h
        | false =>
          have hstep : RequestParser.consume ⟨.headerLws, req⟩ c =
              (⟨.headerValue, req.pushValue c⟩, none) := by
            simp only [RequestParser.consume, hcr, hblank, hctl, if_false, Bool.false_eq_true]
          obtain ⟨text, t, rfl, ht, hs⟩ := accepts_headerValue.mp ((accepts_cons hstep).mp h)
          -- the first character of the text, and then the rest of it
          rw [show req.pushValue c = req.addText [c] from rfl, Request.addText_addText] at hs
          refine ⟨[], c :: text, t, rfl, by simp, List.forall_mem_cons.mpr ⟨hctl, ht⟩, ?_, hs⟩
          intro hhead
          exact hblank (Or.inl (Option.some.inj hhead))

/-- A folded line adds its text to the field before it, if there is one. -/
theorem Fold.accepts (f : Fold) {t : Str} (hne : req.headers ≠ [])
    (h : Accepts .headerLineStart (req.addText f.text) t q rest) :
    Accepts .headerLineStart req (f.wire ++ t) q rest := by
  obtain ⟨c, blanks, hblanks⟩ := List.exists_cons_of_ne_nil f.blanks_ne
  have hb := f.blank
  rw [hblanks] at hb
  obtain ⟨hc, hb⟩ := List.forall_mem_cons.mp hb
  have hcr : c ≠ '\r' := by
    rintro rfl
    exact absurd hc (by decide)
  have hstep : RequestParser.consume ⟨.headerLineStart, req⟩ c = (⟨.headerLws, req⟩, none) := by
    simp only [RequestParser.consume, hcr, hne, hc, ne_eq, not_false_eq_true, and_self, if_false,
      if_true]
  have hlws := accepts_headerLws_mpr hb f.plain f.begins h
  rw [Fold.wire, hblanks, List.append_assoc, List.append_assoc]
  exact (accepts_cons hstep).mpr hlws

/-- A line with a name and a value adds a field. -/
theorem accepts_fieldLine {name value t : Str} (hne : name ≠ [])
    (hname : ∀ c ∈ name, notToken c = false) (hvalue : ∀ c ∈ value, isCtl c = false)
    (h : Accepts .headerLineStart (req.addHeader name value) t q rest) :
    Accepts .headerLineStart req (fieldLine name value ++ t) q rest := by
  obtain ⟨c, name, rfl⟩ := List.exists_cons_of_ne_nil hne
  obtain ⟨hc, hname⟩ := List.forall_mem_cons.mp hname
  have hspecial : ∀ x ∈ ['\r', ' ', '\t', ':'], notToken x = true :=
    List.all_eq_true.mp (by decide)
  have hother : ∀ x ∈ ['\r', ' ', '\t', ':'], c ≠ x := by
    rintro x hx rfl
    rw [hspecial c hx] at hc
    cases hc
  have hstep : RequestParser.consume ⟨.headerLineStart, req⟩ c =
      (⟨.headerName, req.newHeader c⟩, none) := by
    simp only [RequestParser.consume, hother '\r' (by decide), hother ' ' (by decide),
      hother '\t' (by decide), hc, or_self, and_false, if_false, Bool.false_eq_true]
  refine (accepts_cons hstep).mpr (accepts_headerName.mpr
    ⟨name, ' ' :: (value ++ (crlf ++ t)), by simp [crlf], fun x hx => ⟨?_, hname x hx⟩, ?_⟩)
  · rintro rfl
    exact absurd (hname _ hx) (by decide)
  · rw [show req.newHeader c = req.addHeader [c] [] from rfl, Request.foldl_pushName]
    refine (accepts_expect ' ' .spaceBeforeHeaderValue .headerValue _ fun _ => rfl).mpr
      ⟨_, rfl, accepts_headerValue.mpr ⟨value, t, rfl, hvalue, ?_⟩⟩
    rw [Request.addText_addHeader]
    exact h

/-- **One line.** What is accepted at the beginning of a line is the empty line, a line that goes on
with the value of the field before it if there is one, or the line of a field. -/
theorem accepts_line (h : Accepts .headerLineStart req s q rest) :
    (s = crlf ++ rest ∧ q = ⟨.expectingNewline3, req⟩) ∨
    (∃ (f : Fold) (t : Str), req.headers ≠ [] ∧ s = f.wire ++ t ∧
      Accepts .headerLineStart (req.addText f.text) t q rest) ∨
    ∃ name value t, name ≠ [] ∧ (∀ c ∈ name, notToken c = false) ∧
      (∀ c ∈ value, isCtl c = false) ∧ s = fieldLine name value ++ t ∧
      Accepts .headerLineStart (req.addHeader name value) t q rest := by
  cases s with
  | nil => cases h
  | cons c s =>
    by_cases hcr : c = '\r'
    · subst hcr
      -- an empty line ends the headers
      have hstep : RequestParser.consume ⟨.headerLineStart, req⟩ '\r' =
          (⟨.expectingNewline3, req⟩, none) := rfl
      have hlast := (accepts_cons hstep).mp h
      cases s with
      | nil => cases hlast
      | cons d s =>
        have hd : RequestParser.consume ⟨.expectingNewline3, req⟩ d =
            (⟨.expectingNewline3, req⟩, some (decide (d = '\n'))) := rfl
        rw [Accepts, Says, parse_cons_some hd] at hlast
        injection hlast with hq hverdict hrest
        have hnl : d = '\n' := of_decide_eq_true (Option.some.inj hverdict)
        exact Or.inl ⟨by rw [hnl, hrest]; rfl, hq.symm⟩
    · by_cases hfold : req.headers ≠ [] ∧ (c = ' ' ∨ c = '\t')
      -- a blank goes on with the value of the last header
      · have hstep : RequestParser.consume ⟨.headerLineStart, req⟩ c = (⟨.headerLws, req⟩, none) := by
          simp only [RequestParser.consume, hcr, hfold, if_false, if_true, ne_eq, not_false_eq_true,
            and_self]
        obtain ⟨blanks, text, t, rfl, hb, ht, hbegins, hs⟩ :=
          accepts_headerLws_mp ((accepts_cons hstep).mp h)
        let f : Fold :=
          { blanks := c :: blanks, text := text, blanks_ne := List.cons_ne_nil _ _
            blank := List.forall_mem_cons.mpr ⟨hfold.2, hb⟩, plain := ht, begins := hbegins }
        exact Or.inr (Or.inl ⟨f, t, hfold.1, by simp [f, Fold.wire], hs⟩)
      · cases htoken : notToken c with
        | true =>
          have hno : RequestParser.consume ⟨.headerLineStart, req⟩ c =
              (⟨.headerLineStart, req⟩, some false) := by
            simp only [RequestParser.consume, hcr, hfold, htoken, if_false, if_true]
          rw [Accepts, Says, parse_cons_some hno] at h
          cases h
        | false =>
          have hstep : RequestParser.consume ⟨.headerLineStart, req⟩ c =
              (⟨.headerName, req.newHeader c⟩, none) := by
            simp only [RequestParser.consume, hcr, hfold, htoken, if_false, Bool.false_eq_true]
          -- everything else is a field: name, colon, blank, value
          obtain ⟨name, t, rfl, hname, hs⟩ := accepts_headerName.mp ((accepts_cons hstep).mp h)
          obtain ⟨t, rfl, hs⟩ :=
            (accepts_expect ' ' .spaceBeforeHeaderValue .headerValue _ fun _ => rfl).mp hs
          obtain ⟨value, t, rfl, hvalue, hs⟩ := accepts_headerValue.mp hs
          rw [show req.newHeader c = req.addHeader [c] [] from rfl, Request.foldl_pushName,
            Request.addText_addHeader] at hs
          refine Or.inr (Or.inr ⟨c :: name, value, t, List.cons_ne_nil _ _,
            List.forall_mem_cons.mpr ⟨htoken, fun x hx => (hname x hx).2⟩, hvalue,
            by simp [fieldLine, crlf], hs⟩)

/-! ## The whole header -/

def addFields (req : Request) (fields : List Field) : Request :=
  { req with headers := req.headers ++ fields.map Field.header }

theorem addFields_nil (req : Request) : addFields req [] = req := by
  rw [addFields, List.map_nil, List.append_nil]

/-- A field is its line, and the lines on which it goes on. -/
theorem addFields_cons (req : Request) (f : Field) (fields : List Field) :
    addFields ((req.addHeader f.name f.value).addText (f.folds.flatMap Fold.text)) fields =
      addFields req (f :: fields) := by
  rw [Request.addText_addHeader]
  simp [addFields, Request.addHeader, Field.header]

/-- Folded lines, one behind the other. -/
theorem accepts_folds {folds : List Fold} {t : Str} (hne : req.headers ≠ [])
    (h : Accepts .headerLineStart (req.addText (folds.flatMap Fold.text)) t q rest) :
    Accepts .headerLineStart req (folds.flatMap Fold.wire ++ t) q rest := by
  induction folds generalizing req with
  | nil =>
    rw [List.flatMap_nil, Request.addText_nil] at h
    exact h
  | cons f folds ih =>
    rw [List.flatMap_cons, ← Request.addText_addText] at h
    have hne' : (req.addText f.text).headers ≠ [] :=
      fun hnil => hne ((Request.headers_modifyBack_eq_nil req _).mp hnil)
    rw [List.flatMap_cons, List.append_assoc]
    exact f.accepts hne (ih hne' h)

/-- Fields with their folded lines, up to the empty line: all of them are accepted. -/
theorem accepts_fields (fields : List Field) (req : Request) (rest : Str) :
    Accepts .headerLineStart req (fields.flatMap Field.wire ++ (crlf ++ rest))
      ⟨.expectingNewline3, addFields req fields⟩ rest := by
  induction fields generalizing req with
  | nil =>
    rw [addFields_nil]
    rfl
  | cons f fields ih =>
    have hhas : (req.addHeader f.name f.value).headers ≠ [] := by simp [Request.addHeader]
    have hrest := accepts_folds hhas
      (ih ((req.addHeader f.name f.value).addText (f.folds.flatMap Fold.text)))
    rw [addFields_cons] at hrest
    have hline := accepts_fieldLine f.name_ne f.token f.plain hrest
    rw [List.flatMap_cons, Field.wire, List.append_assoc, List.append_assoc]
    exact hline

/-- Whatever is accepted behind the request line: lines that go on with the field before, fields,
and the empty line. -/
theorem accepts_lines (h : Accepts .headerLineStart req s q rest) :
    ∃ (folds : List Fold) (fields : List Field), (req.headers = [] → folds = []) ∧
      s = folds.flatMap Fold.wire ++ (fields.flatMap Field.wire ++ (crlf ++ rest)) ∧
      q = ⟨.expectingNewline3, addFields (req.addText (folds.flatMap Fold.text)) fields⟩ := by
  induction hn : s.length using Nat.strong_induction_on generalizing s req with
  | _ n ih =>
    rcases accepts_line h with ⟨rfl, rfl⟩ | ⟨f, t, hne, rfl, hs⟩ |
        ⟨name, value, t, hname, htoken, hplain, rfl, hs⟩
    · refine ⟨[], [], fun _ => rfl, rfl, ?_⟩
      rw [List.flatMap_nil, Request.addText_nil, addFields_nil]
    · -- one more line of the field before
      have hlt : t.length < n := by
        have hpos := List.length_pos_iff.mpr f.blanks_ne
        rw [← hn, Fold.wire]
        simp only [List.length_append]
        omega
      obtain ⟨folds, fields, -, rfl, rfl⟩ := ih t.length hlt hs rfl
      refine ⟨f :: folds, fields, fun hnil => absurd hnil hne, ?_, ?_⟩
      · rw [List.flatMap_cons, List.append_assoc]
      · rw [Request.addText_addText, List.flatMap_cons]
    · -- a new field, of which the lines that follow are the rest
      have hlt : t.length < n := by
        rw [← hn, fieldLine]
        simp only [List.length_append, List.length_cons]
        omega
      obtain ⟨folds, fields, -, rfl, rfl⟩ := ih t.length hlt hs rfl
      let f : Field :=
        { name := name, value := value, folds := folds, name_ne := hname, token := htoken
          plain := hplain }
      refine ⟨[], f :: fields, fun _ => rfl, ?_, ?_⟩
      · show _ = (f :: fields).flatMap Field.wire ++ _
        rw [List.flatMap_cons, Field.wire, List.append_assoc, List.append_assoc]
      · rw [List.flatMap_nil, Request.addText_nil, ← addFields_cons req f fields]

end States

namespace RequestText

variable {s rest : Str} {q : RequestParser}

theorem version_eq {t : Str} (ht : ∀ c ∈ t, isDigit c = true) :
    t.foldl Request.addDigit 0 = version t := by
  have h := Request.foldl_addDigit ht 0
  rwa [Nat.cast_zero, int32_of_nonneg le_rfl (by decide)] at h

theorem wire_append (r : RequestText) (rest : Str) :
    r.wire ++ rest = r.method ++ ' ' :: (r.uri ++ ' ' :: ("HTTP/".toList ++ (r.major ++ '.' ::
      (r.minor ++ '\r' :: '\n' :: (r.fields.flatMap Field.wire ++ (crlf ++ rest)))))) := by
  simp [wire, crlf]

theorem accepts_majorStart {req : Request} {s : Str} :
    Accepts .httpVersionMajorStart req s q rest ↔
      ∃ t t', t ≠ [] ∧ s = t ++ '.' :: t' ∧ (∀ c ∈ t, isDigit c = true) ∧
        Accepts .httpVersionMinorStart (t.foldl Request.pushMajor req) t' q rest :=
  accepts_number (by decide) .httpVersionMajorStart .httpVersionMajor .httpVersionMinorStart
    Request.pushMajor (fun _ _ => rfl) fun _ _ => rfl

/-- The minor version: digits up to the end of the line. -/
theorem accepts_minorStart {req : Request} {s : Str} :
    Accepts .httpVersionMinorStart req s q rest ↔
      ∃ t t', t ≠ [] ∧ s = t ++ '\r' :: t' ∧ (∀ c ∈ t, isDigit c = true) ∧
        Accepts .expectingNewline1 (t.foldl Request.pushMinor req) t' q rest :=
  accepts_number (by decide) .httpVersionMinorStart .httpVersionMinor .expectingNewline1
    Request.pushMinor (fun _ _ => rfl) fun _ _ => rfl

/-- What has been collected behind the request line. -/
theorem collected {method uri major minor : Str} (hmajor : ∀ c ∈ major, isDigit c = true)
    (hminor : ∀ c ∈ minor, isDigit c = true) :
    minor.foldl Request.pushMinor (major.foldl Request.pushMajor
      (uri.foldl Request.pushUri (method.foldl Request.pushMethod .empty)).startVersion) =
      { method := method, uri := uri, httpVersionMajor := version major
        httpVersionMinor := version minor, headers := [] } := by
  rw [Request.foldl_pushMethod, Request.foldl_pushUri, Request.foldl_pushMajor,
    Request.foldl_pushMinor, ← version_eq hmajor, ← version_eq hminor]
  rfl

/-- Every request is accepted, and read as what it says. -/
theorem accepts_wire (r : RequestText) (rest : Str) :
    Accepts .methodStart .empty (r.wire ++ rest) ⟨.expectingNewline3, r.request⟩ rest := by
  rw [wire_append]
  refine accepts_methodStart.mpr ⟨r.method, _, r.method_ne, rfl, r.token, ?_⟩
  refine accepts_uri.mpr ⟨r.uri, _, rfl, r.uri_plain, ?_⟩
  refine accepts_http.mpr ⟨_, rfl, ?_⟩
  refine accepts_majorStart.mpr ⟨r.major, _, r.major_ne, rfl, r.major_digits, ?_⟩
  refine accepts_minorStart.mpr ⟨r.minor, _, r.minor_ne, rfl, r.minor_digits, ?_⟩
  refine (accepts_newline .expectingNewline1 fun _ => rfl).mpr ⟨_, rfl, ?_⟩
  rw [collected r.major_digits r.minor_digits]
  exact accepts_fields r.fields _ rest

/-- Nothing else is. -/
theorem exists_of_accepts (h : Accepts .methodStart .empty s q rest) :
    ∃ r : RequestText, s = r.wire ++ rest ∧ q = ⟨.expectingNewline3, r.request⟩ := by
  obtain ⟨method, s, hmethod, rfl, htoken, h⟩ := accepts_methodStart.mp h
  obtain ⟨uri, s, rfl, huri, h⟩ := accepts_uri.mp h
  obtain ⟨s, rfl, h⟩ := accepts_http.mp h
  obtain ⟨major, s, hmajor, rfl, hmajor', h⟩ := accepts_majorStart.mp h
  obtain ⟨minor, s, hminor, rfl, hminor', h⟩ := accepts_minorStart.mp h
  obtain ⟨s, rfl, h⟩ := (accepts_newline .expectingNewline1 fun _ => rfl).mp h
  rw [collected hmajor' hminor'] at h
  obtain ⟨folds, fields, hfolds, rfl, rfl⟩ := accepts_lines h
  obtain rfl := hfolds rfl
  let r : RequestText :=
    { method := method, uri := uri, major := major, minor := minor, fields := fields
      method_ne := hmethod, token := htoken, uri_plain := huri, major_ne := hmajor
      major_digits := hmajor', minor_ne := hminor, minor_digits := hminor' }
  refine ⟨r, (wire_append r rest).symm ▸ rfl, ?_⟩
  rw [List.flatMap_nil, Request.addText_nil]
  rfl

/-- **The parser accepts requests and nothing else**: it says yes behind a text exactly if that text
is a request, which it has then read as what it says and of which it leaves what is behind it. -/
theorem parse_accepts_iff (input : Str) (p : RequestParser) (rest : Str) :
    RequestParser.parse .new input = ⟨p, some true, rest⟩ ↔
      ∃ r : RequestText, input = r.wire ++ rest ∧ p = ⟨.expectingNewline3, r.request⟩ := by
  constructor
  · exact exists_of_accepts
  · rintro ⟨r, rfl, rfl⟩
    exact accepts_wire r rest

example :
    (RequestParser.parse .new
      "GET / HTTP/1.0\r\nAccept: a,\r\n\t b\r\n\r\n".toList).state.req.headers =
        [⟨"Accept".toList, "a,b".toList⟩] := by
  decide

/-! ## How early the parser knows

The verdict falls as soon as it can: every text without one is the beginning of a request. -/

/-- A text that leads to the end of a request from a state. -/
def closing : State → Str
  | .methodStart => "G / HTTP/1.0\r\n\r\n".toList
  | .method => " / HTTP/1.0\r\n\r\n".toList
  | .uri => " HTTP/1.0\r\n\r\n".toList
  | .httpVersionH => "HTTP/1.0\r\n\r\n".toList
  | .httpVersionT1 => "TTP/1.0\r\n\r\n".toList
  | .httpVersionT2 => "TP/1.0\r\n\r\n".toList
  | .httpVersionP => "P/1.0\r\n\r\n".toList
  | .httpVersionSlash => "/1.0\r\n\r\n".toList
  | .httpVersionMajorStart => "1.0\r\n\r\n".toList
  | .httpVersionMajor => ".0\r\n\r\n".toList
  | .httpVersionMinorStart => "0\r\n\r\n".toList
  | .httpVersionMinor => "\r\n\r\n".toList
  | .expectingNewline1 => "\n\r\n".toList
  | .headerLineStart => "\r\n".toList
  | .headerLws => "\r\n\r\n".toList
  | .headerName => ": \r\n\r\n".toList
  | .spaceBeforeHeaderValue => " \r\n\r\n".toList
  | .headerValue => "\r\n\r\n".toList
  | .expectingNewline2 => "\n\r\n".toList
  | .expectingNewline3 => "\n".toList

/-- From no state is there no way to a request. -/
theorem exists_closing (p : RequestParser) :
    ∃ s q, s ≠ [] ∧ Recogniser.parse RequestParser.consume p s = ⟨q, some true, []⟩ := by
  obtain ⟨state, req⟩ := p
  refine ⟨closing state, ?_⟩
  cases state <;> exact ⟨_, by decide, rfl⟩

/-- **What is accepted** is exactly what a request is sent as. -/
theorem accepted_iff (s : Str) :
    (∃ r : RequestText, s = r.wire) ↔
      ∃ q, Recogniser.parse RequestParser.consume .new s = ⟨q, some true, []⟩ := by
  constructor
  · rintro ⟨r, rfl⟩
    have h := accepts_wire r []
    rw [List.append_nil] at h
    exact ⟨_, h⟩
  · rintro ⟨q, hq⟩
    obtain ⟨r, hr, -⟩ := exists_of_accepts hq
    exact ⟨r, by rw [hr, List.append_nil]⟩

/-- The parser says yes exactly when a request has come in full. -/
theorem verdict_yes_iff (input : Str) :
    (RequestParser.parse .new input).verdict = some true ↔
      ∃ r : RequestText, r.wire <+: input := by
  refine (verdict_eq_yes_iff accepted_iff input).trans ⟨?_, ?_⟩
  · rintro ⟨_, ⟨r, rfl⟩, hr⟩
    exact ⟨r, hr⟩
  · rintro ⟨r, hr⟩
    exact ⟨_, ⟨r, rfl⟩, hr⟩

/-- It asks for more exactly when a request has come in part. -/
theorem verdict_more_iff (input : Str) :
    (RequestParser.parse .new input).verdict = none ↔
      ∃ r : RequestText, input <+: r.wire ∧ input ≠ r.wire := by
  refine (verdict_eq_none_iff accepted_iff exists_closing input).trans ⟨?_, ?_⟩
  · rintro ⟨t, hne, r, hr⟩
    exact ⟨r, ⟨t, hr⟩, fun heq => hne (List.append_right_eq_self.mp (hr.trans heq.symm))⟩
  · rintro ⟨r, ⟨t, hr⟩, hne⟩
    refine ⟨t, ?_, r, hr⟩
    rintro rfl
    exact hne (by rw [← hr, List.append_nil])

/-- It says no exactly when what has come can become no request. -/
theorem verdict_no_iff (input : Str) :
    (RequestParser.parse .new input).verdict = some false ↔
      ∀ r : RequestText, ¬ r.wire <+: input ∧ ¬ input <+: r.wire := by
  have hyes := verdict_yes_iff input
  have hmore := verdict_more_iff input
  constructor
  · intro hno r
    rw [hno] at hyes hmore
    have hyes' : ¬ r.wire <+: input := fun hr => absurd (hyes.mpr ⟨r, hr⟩) (by decide)
    refine ⟨hyes', fun hr => ?_⟩
    by_cases heq : input = r.wire
    · exact hyes' (heq ▸ List.prefix_rfl)
    · exact absurd (hmore.mpr ⟨r, hr, heq⟩) (by decide)
  · intro hnone
    cases hv : (RequestParser.parse .new input).verdict with
    | none =>
      obtain ⟨r, hr, -⟩ := hmore.mp hv
      exact absurd hr (hnone r).2
    | some b =>
      cases b with
      | false => rfl
      | true =>
        obtain ⟨r, hr⟩ := hyes.mp hv
        exact absurd hr (hnone r).1

/-- **The parser knows as early as can be known.** Behind any text it says yes exactly if a request
has ended, wants more exactly if the text is the beginning of a request, and says no exactly if no
request begins with the text and none has ended in it. -/
theorem parse_tells_early (input : Str) :
    ((RequestParser.parse .new input).verdict = some true ↔
      ∃ r : RequestText, r.wire <+: input) ∧
    ((RequestParser.parse .new input).verdict = none ↔
      ∃ r : RequestText, input <+: r.wire ∧ input ≠ r.wire) ∧
    ((RequestParser.parse .new input).verdict = some false ↔
      ∀ r : RequestText, ¬ r.wire <+: input ∧ ¬ input <+: r.wire) :=
  ⟨verdict_yes_iff input, verdict_more_iff input, verdict_no_iff input⟩

end RequestText

end Http

end Skweltch
