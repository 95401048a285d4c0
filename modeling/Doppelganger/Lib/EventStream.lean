import Doppelganger.Lib.Text

/-!
# Reading an event stream

The interpretation of `text/event-stream` by an `EventSource`: lines end with CR, LF or CRLF, a
line is a comment, a field or blank, and a blank line dispatches what the `data` fields before it
have collected. What is not followed by a blank line is never dispatched.

The reader takes one code unit at a time. `feed_append` cuts a stream anywhere, `feed_line` reads
a whole line, and `feed_data`, `feed_comment` and `feed_field` read what a server writes between
two blank lines. A reader between two events is `Idle`.
-/

open Text

namespace EventStream

def lf : UInt16 := 10

def cr : UInt16 := 13

/-- A dispatched event. -/
structure Message where
  type : Str
  data : Str
  lastEventId : Str
deriving DecidableEq

structure Reader where
  /-- The unfinished line. -/
  line : Str
  /-- The last unit was a CR, which ended a line. -/
  afterCR : Bool
  data : Str
  type : Str
  lastEventId : Str
  /-- The reconnection time, once the stream has set it. -/
  retry : Option ℕ
deriving DecidableEq

def Reader.start : Reader := ⟨[], false, [], [], [], none⟩

/-- Process a field. -/
def Reader.field (p : Reader) (name value : Str) : Reader :=
  if name = lit "event" then { p with type := value }
  else if name = lit "data" then { p with data := p.data ++ value ++ [lf] }
  else if name = lit "id" then if 0 ∈ value then p else { p with lastEventId := value }
  else if name = lit "retry" then
    if value ≠ [] ∧ value.all isDigit then { p with retry := some (natOfDigits value) } else p
  else p

/-- Dispatch the event; nothing is dispatched without data. -/
def Reader.dispatch (p : Reader) : Reader × List Message :=
  if p.data = [] then ({ p with type := [] }, [])
  else ({ p with data := [], type := [] },
    [⟨if p.type = [] then lit "message" else p.type,
      if p.data.getLast? = some lf then p.data.dropLast else p.data, p.lastEventId⟩])

/-- The value of a field, after the colon: one leading space is dropped. -/
def valueOf : Str → Str
  | [] => []
  | _ :: v => if v.head? = some (unit ' ') then v.tail else v

/-- Interpret a line. -/
def Reader.interpret (p : Reader) (line : Str) : Reader × List Message :=
  if line = [] then p.dispatch
  else if line.head? = some (unit ':') then (p, [])
  else (p.field (line.takeWhile (· ≠ unit ':')) (valueOf (line.dropWhile (· ≠ unit ':'))), [])

def Reader.endLine (p : Reader) : Reader × List Message := { p with line := [] }.interpret p.line

/-- Read one unit. -/
def Reader.step (p : Reader) (c : UInt16) : Reader × List Message :=
  if c = lf then if p.afterCR then ({ p with afterCR := false }, []) else p.endLine
  else if c = cr then ({ p.endLine.1 with afterCR := true }, p.endLine.2)
  else ({ p with line := p.line ++ [c], afterCR := false }, [])

def feed : Reader → Str → Reader × List Message
  | p, [] => (p, [])
  | p, c :: s => ((feed (p.step c).1 s).1, (p.step c).2 ++ (feed (p.step c).1 s).2)

/-- The events that a stream dispatches; a byte order mark in front is not part of it. -/
def messages (text : Str) : List Message :=
  (feed .start (if text.head? = some 0xFEFF then text.tail else text)).2

/-! ## Reading line by line -/

theorem feed_append (p : Reader) (s t : Str) :
    feed p (s ++ t) = ((feed (feed p s).1 t).1, (feed p s).2 ++ (feed (feed p s).1 t).2) := by
  induction s generalizing p with
  | nil => simp [feed]
  | cons c s ih => simp [feed, ih]

/-- No line ends in `s`. -/
def OneLine (s : Str) : Prop := lf ∉ s ∧ cr ∉ s

instance (s : Str) : Decidable (OneLine s) := instDecidableAnd

theorem OneLine.append {s t : Str} (hs : OneLine s) (ht : OneLine t) : OneLine (s ++ t) := by
  constructor
  · simp [hs.1, ht.1]
  · simp [hs.2, ht.2]

/-- Units that end no line extend the unfinished one. -/
theorem feed_oneLine {p : Reader} {s : Str} (h : OneLine s) (hp : p.afterCR = false) :
    feed p s = ({ p with line := p.line ++ s }, []) := by
  induction s generalizing p with
  | nil => simp [feed]
  | cons c s ih =>
    rcases h with ⟨hlf, hcr⟩
    have hc : c ≠ lf ∧ c ≠ cr := by
      constructor
      · rintro rfl
        exact hlf List.mem_cons_self
      · rintro rfl
        exact hcr List.mem_cons_self
    have hs : OneLine s :=
      ⟨fun hm => hlf (List.mem_cons_of_mem _ hm), fun hm => hcr (List.mem_cons_of_mem _ hm)⟩
    have hstep : p.step c = ({ p with line := p.line ++ [c] }, []) := by
      simp [Reader.step, hc.1, hc.2, hp]
    have hrest := ih (p := { p with line := p.line ++ [c] }) hs hp
    simp [feed, hstep, hrest]

/-- A reader at the beginning of a line. -/
structure Reader.AtLine (p : Reader) : Prop where
  line : p.line = []
  afterCR : p.afterCR = false

theorem feed_line {p : Reader} (hp : p.AtLine) {s : Str} (h : OneLine s) :
    feed p (s ++ [lf]) = p.interpret s := by
  rcases p with ⟨line, afterCR, data, type, lastEventId, retry⟩
  obtain rfl : line = [] := hp.line
  obtain rfl : afterCR = false := hp.afterCR
  rw [feed_append, feed_oneLine h rfl]
  simp [feed, Reader.step, Reader.endLine]

/-- A line that dispatches nothing, and a blank one. -/
theorem feed_block {p q : Reader} (hp : p.AtLine) {s : Str} (h : OneLine s)
    (hq : p.interpret s = (q, [])) (hat : q.AtLine) :
    feed p (s ++ [lf, lf]) = q.dispatch := by
  have hblank : feed q ([] ++ [lf]) = q.interpret [] := feed_line hat ⟨by simp, by simp⟩
  have hsplit : s ++ [lf, lf] = (s ++ [lf]) ++ ([] ++ [lf]) := by simp
  rw [hsplit, feed_append, feed_line hp h, hq, hblank]
  simp [Reader.interpret]

/-! ## Between two events -/

/-- A reader that has nothing pending. -/
structure Reader.Idle (p : Reader) : Prop where
  atLine : p.AtLine
  data : p.data = []
  type : p.type = []

theorem Reader.Idle.start : Reader.start.Idle := ⟨⟨rfl, rfl⟩, rfl, rfl⟩

theorem Reader.Idle.dispatch {p : Reader} (h : p.Idle) : p.dispatch = (p, []) := by
  rcases p with ⟨line, afterCR, data, type, lastEventId, retry⟩
  obtain rfl : data = [] := h.data
  obtain rfl : type = [] := h.type
  rfl

/-- The line of a field, as servers write it. -/
def fieldLine (name value : Str) : Str := name ++ (lit ": " ++ value)

theorem interpret_fieldLine {name : Str} (hname : unit ':' ∉ name) (hne : name ≠ []) (p : Reader)
    (value : Str) : p.interpret (fieldLine name value) = (p.field name value, []) := by
  have hsep : lit ": " = [unit ':', unit ' '] := by decide
  have htake : ∀ v : Str, (name ++ unit ':' :: v).takeWhile (· ≠ unit ':') = name := by
    intro v
    rw [List.takeWhile_append_of_pos fun u hu => by
      simpa using fun h : u = unit ':' => hname (h ▸ hu)]
    simp
  have hdrop : ∀ v : Str, (name ++ unit ':' :: v).dropWhile (· ≠ unit ':') = unit ':' :: v := by
    intro v
    rw [List.dropWhile_append_of_pos fun u hu => by
      simpa using fun h : u = unit ':' => hname (h ▸ hu)]
    simp
  rcases List.exists_cons_of_ne_nil hne with ⟨c, cs, rfl⟩
  have hc : c ≠ unit ':' := fun h => hname (h ▸ List.mem_cons_self)
  have hline : fieldLine (c :: cs) value = (c :: cs) ++ unit ':' :: (unit ' ' :: value) := by
    simp [fieldLine, hsep]
  rw [hline, Reader.interpret, htake, hdrop]
  simp [valueOf, hc]

/-- A block of one `data` field is one message. -/
theorem feed_data {p : Reader} (hp : p.Idle) {value : Str} (h : OneLine value) :
    feed p (fieldLine (lit "data") value ++ [lf, lf]) =
      (p, [⟨lit "message", value, p.lastEventId⟩]) := by
  have hname : OneLine (lit "data") := by decide
  have hsep : OneLine (lit ": ") := by decide
  have hline : OneLine (fieldLine (lit "data") value) := hname.append (hsep.append h)
  have hfield : p.field (lit "data") value = { p with data := value ++ [lf] } := by
    have hne : lit "data" ≠ lit "event" := by decide
    simp [Reader.field, hne, hp.data]
  rw [feed_block hp.atLine hline (interpret_fieldLine (by decide) (by decide) p value)
    (by rw [hfield]; exact ⟨hp.atLine.line, hp.atLine.afterCR⟩), hfield]
  rcases p with ⟨line, afterCR, data, type, lastEventId, retry⟩
  obtain rfl : data = [] := hp.data
  obtain rfl : type = [] := hp.type
  simp [Reader.dispatch]

/-- A comment dispatches nothing. -/
theorem feed_comment {p : Reader} (hp : p.Idle) {s : Str} (h : OneLine s) :
    feed p (unit ':' :: s ++ [lf, lf]) = (p, []) := by
  have hcolon : OneLine [unit ':'] := by decide
  have hline : OneLine (unit ':' :: s) := hcolon.append h
  rw [feed_block hp.atLine hline (by simp [Reader.interpret]) hp.atLine]
  exact hp.dispatch

/-- A reconnection time dispatches nothing. -/
theorem feed_retry {p : Reader} (hp : p.Idle) {value : Str} (hne : value ≠ [])
    (h : value.all isDigit = true) :
    feed p (fieldLine (lit "retry") value ++ [lf, lf]) =
      ({ p with retry := some (natOfDigits value) }, []) := by
  have hname : OneLine (lit "retry") := by decide
  have hsep : OneLine (lit ": ") := by decide
  have hvalue : OneLine value := by
    constructor
    · intro hm
      exact absurd (List.all_eq_true.mp h _ hm) (by decide)
    · intro hm
      exact absurd (List.all_eq_true.mp h _ hm) (by decide)
  have hfield : p.field (lit "retry") value = { p with retry := some (natOfDigits value) } := by
    have h₁ : lit "retry" ≠ lit "event" := by decide
    have h₂ : lit "retry" ≠ lit "data" := by decide
    have h₃ : lit "retry" ≠ lit "id" := by decide
    simp only [Reader.field, h₁, h₂, h₃, if_false, if_true, h, ne_eq, hne, not_false_eq_true,
      and_self]
  have hidle : Reader.Idle { p with retry := some (natOfDigits value) } :=
    ⟨⟨hp.atLine.line, hp.atLine.afterCR⟩, hp.data, hp.type⟩
  have hline : OneLine (fieldLine (lit "retry") value) := hname.append (hsep.append hvalue)
  rw [feed_block hp.atLine hline
    (interpret_fieldLine (by decide) (by decide) p value) (hfield ▸ hidle.atLine), hfield]
  exact hidle.dispatch

end EventStream
