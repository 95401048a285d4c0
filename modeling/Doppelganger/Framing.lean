import Doppelganger.Lib.EventStream
import Doppelganger.Delivery

/-!
# The framing of the event stream

What a stream yields is read on the other side by an `EventSource`, which knows nothing of the
chunks: it sees one text. Every payload is JSON text from `json.dumps`, so it is one line of
printable ASCII whatever names and keys it carries; a chunk that is no message leaves the reader
idle and dispatches nothing.
-/

open Text EventStream

namespace Doppelganger

/-- The data that `_sse` framed. -/
def Chunk.data? : Chunk → Option Str
  | .message data => some data
  | _ => none

/-- The body of the response so far. -/
def Stream.body (st : Stream) : Str := st.out.flatMap Chunk.text

/-- The message a payload becomes: no type and no id were sent with it. -/
def messageOf (data : Str) : EventStream.Message := ⟨lit "message", data, []⟩

/-! ## One chunk -/

theorem oneLine_dumps (j : Json) : OneLine j.dumps := by
  have hall := List.all_eq_true.mp j.all_isPrintable_dumps
  constructor
  · intro hm
    exact absurd (hall _ hm) (by decide)
  · intro hm
    exact absurd (hall _ hm) (by decide)

theorem ascii_dumps (j : Json) : ∀ u ∈ j.dumps, u < 128 := by
  intro u hu
  have hp := List.all_eq_true.mp j.all_isPrintable_dumps u hu
  simp only [Json.isPrintable, Bool.and_eq_true, decide_eq_true_eq] at hp
  exact UInt16.lt_of_le_of_lt hp.2 (by decide)

/-- The chunk frames JSON text, if it frames anything. -/
def Chunk.Framed (c : Chunk) : Prop := ∀ data, c.data? = some data → ∃ j : Json, data = j.dumps

theorem Chunk.Framed.ascii {c : Chunk} (h : c.Framed) : ∀ u ∈ c.text, u < 128 := by
  have hascii : ∀ s : Str, s.all (· < 128) = true → ∀ u ∈ s, u < 128 :=
    fun s hs u hu => of_decide_eq_true (List.all_eq_true.mp hs u hu)
  cases c with
  | retry => exact hascii _ (by decide)
  | keepalive => exact hascii _ (by decide)
  | message data =>
    rcases h data rfl with ⟨j, rfl⟩
    have hfront : ∀ u ∈ lit "data: ", u < 128 := hascii _ (by decide)
    have hback : ∀ u ∈ lit "\n\n", u < 128 := hascii _ (by decide)
    intro u hu
    simp only [Chunk.text, List.mem_append] at hu
    rcases hu with (hu | hu) | hu
    · exact hfront u hu
    · exact ascii_dumps j u hu
    · exact hback u hu

/-- A reader between two events, on a stream that sets no id. -/
structure Waiting (p : Reader) : Prop where
  idle : p.Idle
  lastEventId : p.lastEventId = []

theorem Waiting.start : Waiting Reader.start := ⟨Reader.Idle.start, rfl⟩

theorem feed_chunk {p : Reader} (hp : Waiting p) {c : Chunk} (h : c.Framed) :
    ∃ q, Waiting q ∧ feed p c.text = (q, c.data?.toList.map messageOf) := by
  have hblank : lit "\n\n" = [lf, lf] := by decide
  cases c with
  | retry =>
    have htext : Chunk.retry.text = fieldLine (lit "retry") (lit "5000") ++ [lf, lf] := by decide
    -- the reconnection time is set, and nothing else
    refine ⟨_, ?_, by rw [htext]; exact feed_retry hp.idle (by decide) (by decide)⟩
    exact ⟨⟨⟨hp.idle.atLine.line, hp.idle.atLine.afterCR⟩, hp.idle.data, hp.idle.type⟩,
      hp.lastEventId⟩
  | keepalive =>
    have htext : Chunk.keepalive.text = unit ':' :: lit " keepalive" ++ [lf, lf] := by decide
    exact ⟨p, hp, by rw [htext]; exact feed_comment hp.idle (by decide)⟩
  | message data =>
    rcases h data rfl with ⟨j, rfl⟩
    have hfront : lit "data: " = lit "data" ++ lit ": " := by decide
    -- one `data` line and a blank line, whatever the JSON text is
    have htext : (Chunk.message j.dumps).text = fieldLine (lit "data") j.dumps ++ [lf, lf] := by
      simp [Chunk.text, fieldLine, hfront, hblank]
    refine ⟨p, hp, ?_⟩
    rw [htext, feed_data hp.idle (oneLine_dumps j), hp.lastEventId]
    rfl

/-! ## The whole body -/

theorem feed_chunks {p : Reader} (hp : Waiting p) {out : List Chunk}
    (h : ∀ c ∈ out, c.Framed) :
    (feed p (out.flatMap Chunk.text)).2 = (out.filterMap Chunk.data?).map messageOf := by
  induction out generalizing p with
  | nil => rfl
  | cons c out ih =>
    rcases feed_chunk hp (h c List.mem_cons_self) with ⟨q, hq, hc⟩
    have hrest := ih hq fun c' hc' => h c' (List.mem_cons_of_mem _ hc')
    rw [List.flatMap_cons, feed_append, hc, hrest]
    cases hdata : c.data? with
    | none => simp [hdata]
    | some data => simp [hdata]

theorem ascii_body {st : Stream} (h : ∀ c ∈ st.out, c.Framed) : ∀ u ∈ st.body, u < 128 := by
  intro u hu
  rcases List.mem_flatMap.mp hu with ⟨c, hc, hu⟩
  exact (h c hc).ascii u hu

theorem messages_body {st : Stream} (h : ∀ c ∈ st.out, c.Framed) :
    messages st.body = (st.out.filterMap Chunk.data?).map messageOf := by
  -- no byte order mark is cut off in front
  have hmark : st.body.head? ≠ some 0xFEFF := by
    intro hhead
    exact absurd (ascii_body h _ (List.mem_of_head? hhead)) (by decide)
  rw [messages, if_neg hmark]
  exact feed_chunks Waiting.start h

/-! ## What streams yield -/

section

variable {env : Env} {σ : State} {i : ℕ} {st : Stream}

/-- Nothing but JSON text reaches `_sse`: an event the stream builds itself, or the text that was
published with the outcome. -/
theorem Said.json {sid data : Str} (h : Said env σ sid data) : ∃ j : Json, data = j.dumps := by
  rcases h with ⟨phase, rfl⟩ | rfl | ⟨k, -, -, score, rfl⟩
  · exact ⟨_, rfl⟩
  · exact ⟨_, rfl⟩
  · exact ⟨_, rfl⟩

theorem framed_of_reach (h : (server env).Reach Lts.anyStep σ) (hst : σ.streams i = some st) :
    ∀ c ∈ st.out, c.Framed := by
  have hflow := (Flow.of_reach h).2
  intro c hc data hdata
  cases c with
  | retry => cases hdata
  | keepalive => cases hdata
  | message data' =>
    obtain rfl : data' = data := Option.some.inj hdata
    exact ((hflow.streams i st hst).said data' hc).json

/-- An `EventSource` that reads the body of a stream dispatches the payloads given to `_sse`, in
order and one message for each, and the data of a message is the JSON text of its payload. The body
is ASCII, so its bytes are its units. -/
theorem framing_round_trips (h : (server env).Reach Lts.anyStep σ)
    (hst : σ.streams i = some st) :
    ∃ payloads : List Json, st.out.filterMap Chunk.data? = payloads.map Json.dumps ∧
      messages st.body = payloads.map (fun payload => ⟨lit "message", payload.dumps, []⟩) ∧
      ∀ u ∈ st.body, u < 128 := by
  have hframed := framed_of_reach h hst
  have hpayloads : ∀ data ∈ st.out.filterMap Chunk.data?, ∃ j : Json, j.dumps = data := by
    intro data hdata
    rcases List.mem_filterMap.mp hdata with ⟨c, hc, hd⟩
    rcases hframed c hc data hd with ⟨j, hj⟩
    exact ⟨j, hj.symm⟩
  obtain ⟨payloads, hmap⟩ : ∃ payloads : List Json,
      payloads.map Json.dumps = st.out.filterMap Chunk.data? := by
    have hrange : st.out.filterMap Chunk.data? ∈ Set.range (List.map Json.dumps) := by
      rw [Set.range_list_map]
      exact hpayloads
    exact hrange
  refine ⟨payloads, hmap.symm, ?_, ascii_body hframed⟩
  rw [messages_body hframed, ← hmap, List.map_map]
  rfl

namespace Sample

/-- A name that carries line ends and the text of an event. -/
def forgedName : Str := lit "x\r\n\r\ndata: \x7b\"event\": \"FAILED\"\x7d\n\nid: 7\n"

/-- Alice waits while a Bob of that name answers the challenge. -/
def forged : List Label :=
  subscribed ++ startWaiting 0 ++ score 1 forgedName vector ++
    [.redis 1 .none, .answer 1, .deliver 0, .advance 0]

end Sample

/-- It applies to a stream that passes on the name of a Bob who tries to end the event. -/
theorem framing_round_trips_sample :
    let σ := (server Sample.config).after Sample.forged
    ∃ st, σ.streams 0 = some st ∧
      ∃ payloads : List Json, st.out.filterMap Chunk.data? = payloads.map Json.dumps ∧
        payloads.length = 2 ∧
        messages st.body = payloads.map (fun payload => ⟨lit "message", payload.dumps, []⟩) := by
  intro σ
  have hreach : (server Sample.config).Reach Lts.anyStep σ :=
    ⟨Sample.forged, (server Sample.config).run_after Sample.forged (by decide +kernel)⟩
  have hlen : (σ.streams 0).map (fun st => (st.out.filterMap Chunk.data?).length) = some 2 := by
    decide +kernel
  clear_value σ
  rcases Option.map_eq_some_iff.mp hlen with ⟨st, hst, hlen⟩
  rcases framing_round_trips hreach hst with ⟨payloads, hdata, hmessages, -⟩
  refine ⟨st, hst, payloads, hdata, ?_, hmessages⟩
  rw [hdata, List.length_map] at hlen
  exact hlen

end

end Doppelganger
