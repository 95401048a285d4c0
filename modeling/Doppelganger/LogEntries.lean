import Doppelganger.Lib.Html
import Doppelganger.Browser
import Doppelganger.Handlers
import Doppelganger.Scoring

/-!
# The entries of the protocol log

`ProtocolLog.emit` of `debug.js` builds the markup of an entry from template text and the strings it
is given, which it splices in as they are. Some of these strings come from the other party: the name
that Alice sent is shown on Bob's page, and the key that Bob sent on Alice's.

An entry `RendersAsText` when the strings can only be read as text. It does when they are `Harmless`,
and only then: nothing on the way to the page escapes them or keeps such strings out.
-/

open Text

namespace Doppelganger

/-- What the browser's own functions do to the strings of an entry. -/
structure Runtime where
  /-- `s.toUpperCase()`. -/
  toUpperCase : Str → Str
  /-- `String(v)`, of a value that can be converted. -/
  toString : Json → Str
  toUpperCase_lt : ∀ s, unit '<' ∈ toUpperCase s → unit '<' ∈ s
  toString_str : ∀ s, toString (.str s) = s
  /-- A number is written in digits, with a sign, a point, an exponent or as a word. -/
  toString_int : ∀ n, ∀ u ∈ toString (.int n),
    Html.isAlphanumeric u = true ∨ u = unit '+' ∨ u = unit '-' ∨ u = unit '.'

namespace LogEntry

/-! ## Markup -/

inductive Piece where
  | template (text : Str)
  | spliced (text : Str)

def Piece.text : Piece → Str
  | .template text => text
  | .spliced text => text

def Piece.isTemplate : Piece → Bool
  | .template _ => true
  | .spliced _ => false

/-- A value of the data map, as the strings that the template makes of it. -/
inductive Value where
  | scalar (text : Str)
  | array (elements : List Str)

/-- `value.join(separator)`. -/
def join (separator : Str) (elements : List Str) : Str := separator.intercalate elements

/-- What is spliced in for a value. -/
def Value.text : Value → Str
  | .scalar text => text
  | .array elements => join (lit ", ") elements

/-- The text of the element that shows a value. -/
def Value.shown : Value → Str
  | .scalar text => text
  | .array elements => unit '[' :: (join (lit ", ") elements ++ [unit ']'])

/-- What `new Date()` is asked for; the hour is the one the locale writes. -/
structure Clock where
  hours : ℕ
  minutes : ℕ
  seconds : ℕ
  milliseconds : ℕ

/-- `String(n).padStart(width, "0")`. -/
def padStart (width n : ℕ) : Str :=
  List.replicate (width - (natText n).length) (unit '0') ++ natText n

def time (now : Clock) : Str :=
  padStart 2 now.hours ++ (unit ':' :: (padStart 2 now.minutes ++ (unit ':' ::
    (padStart 2 now.seconds ++ (unit '.' :: padStart 3 now.milliseconds)))))

/-- The markup of one member of the data map. -/
def member : Str × Value → List Piece
  | (key, .array elements) =>
    [.spliced key, .template (lit ":\n"), .template (lit "<code class=\"debug-array\">["),
      .spliced (join (lit ", ") elements), .template (lit "]</code>")]
  | (key, .scalar text) =>
    [.spliced key, .template (lit ": <span class=\"debug-value\">"), .spliced text,
      .template (lit "</span>\n")]

def bodyHTML : Option (List (Str × Value)) → List Piece
  | none => []
  | some data =>
    .template (lit "<div class=\"debug-entry-body\">") :: (data.flatMap member ++
      [.template (lit "</div>")])

/-- The arguments of `emit`; the data map as `Object.entries` lists it. -/
structure Entry where
  type : Str
  title : Str
  data : Option (List (Str × Value))

/-- What `emit` assigns to `entry.innerHTML`. -/
def emit (rt : Runtime) (now : Clock) (entry : Entry) : List Piece :=
  [.template (lit "\n            <div class=\"debug-entry-header\">\n                "),
    .template (lit "<span class=\"debug-entry-type "), .spliced entry.type, .template (lit "\">"),
    .spliced (rt.toUpperCase entry.type), .template (lit "</span>\n                "),
    .template (lit "<span class=\"debug-entry-title\">"), .spliced entry.title,
    .template (lit "</span>\n                "),
    .template (lit "<span class=\"debug-entry-time\">"), .spliced (time now),
    .template (lit "</span>\n            </div>\n            ")] ++
  bodyHTML entry.data ++ [.template (lit "\n        ")]

/-- The string itself. -/
def innerHTML (rt : Runtime) (now : Clock) (entry : Entry) : Str :=
  (emit rt now entry).flatMap Piece.text

/-- The markup before the attribute that the type is in. -/
def opening : Str :=
  lit "\n            <div class=\"debug-entry-header\">\n                " ++ lit "<span class=\""

/-- What the browser takes for that attribute: all up to the next quote. -/
def classOf (html : Str) : Str := (html.drop opening.length).takeWhile (· != unit '"')

/-! ## Two emitters -/

/-- `sessionFetched(phase, aliceName)`. -/
def sessionFetched (phase aliceName : Str) : Entry :=
  ⟨lit "network", lit "GET /api/session → phase: " ++ phase,
    some [(lit "alice_name", .scalar aliceName), (lit "phase", .scalar phase),
      (lit "alice_pubkey_jwk", .scalar (lit "withheld until Bob passes verification"))]⟩

section

variable (rt : Runtime)

/-- An element in a join. -/
def element : Json → Str
  | .null => []
  | j => rt.toString j

/-- A member of an event as a value of the data map. -/
def value : Option Json → Value
  | some (.arr xs) => .array (xs.map (element rt))
  | some j => .scalar (rt.toString j)
  | none => .scalar (lit "undefined")

/-- A member of an event in a template string. -/
def inTemplate : Option Json → Str
  | some j => rt.toString j
  | none => lit "undefined"

/-- `x.slice(0, 16) + "..."`; `none` where it throws. -/
def sliced (x : Option Json) : Option Str :=
  if Json.sliceable x then
    match x with
    | some (.str s) => some (s.take 16 ++ lit "...")
    | some (.arr xs) => some (join (lit ",") ((xs.take 16).map (element rt)) ++ lit "...")
    | _ => none
  else none

/-- `sseEvent(eventData)`; `none` where it throws. -/
def sseEvent (event : Json) : Option Entry := do
  let bobPubkey ← match event.get? (lit "bob_pubkey_jwk") with
    | some jwk => if jwk.jsTruthy then sliced rt (jwk.get? (lit "x")) else some (lit "—")
    | none => some (lit "—")
  let score := match event.get? (lit "score") with
    | some score => rt.toString score ++ lit "%"
    | none => lit "—"
  return ⟨lit "network", lit "SSE event received: " ++ inTemplate rt (event.get? (lit "event")),
    some [(lit "event", value rt (event.get? (lit "event"))), (lit "score", .scalar score),
      (lit "bob_pubkey", .scalar bobPubkey)]⟩

end

/-! ## Text only -/

variable (rt : Runtime) (table : Html.NamedReferences)

/-- The texts of the elements that show the title and the values. -/
def shown (entry : Entry) : List Str :=
  entry.title :: (entry.data.getD []).map fun m => m.2.shown

/-- Every `<` comes from the template, the attribute with the type ends where the template ends it,
and the text of each element that shows a string is read back as that string. -/
structure RendersAsText (now : Clock) (entry : Entry) : Prop where
  tags : ∀ piece ∈ emit rt now entry, unit '<' ∈ piece.text → piece.isTemplate = true
  typeAttribute : classOf (innerHTML rt now entry) = lit "debug-entry-type " ++ entry.type
  texts : ∀ text ∈ shown entry, Html.textOf table text = text

/-- A string that holds no `<` and means itself. -/
structure HarmlessText (s : Str) : Prop where
  lt : unit '<' ∉ s
  literal : Html.Literal table s

structure Harmless (entry : Entry) : Prop where
  type : unit '<' ∉ entry.type
  quote : unit '"' ∉ entry.type
  title : HarmlessText table entry.title
  keys : ∀ m ∈ entry.data.getD [], unit '<' ∉ m.1
  values : ∀ m ∈ entry.data.getD [], HarmlessText table m.2.text

variable {rt table}

theorem literal_shown (v : Value) : Html.Literal table v.shown ↔ Html.Literal table v.text := by
  cases v with
  | scalar text => exact Iff.rfl
  | array elements =>
    -- the brackets are no part of a character reference
    have hopen : Html.Delimiter (unit '[') := by constructor <;> decide
    have hclose : Html.Delimiter (unit ']') := by constructor <;> decide
    exact (Html.literal_cons hopen).trans (Html.literal_concat hclose)

theorem lt_notMem_natText (n : ℕ) : unit '<' ∉ natText n := by
  intro hm
  have hdigit := List.all_eq_true.mp (Json.isNatToken_all (Json.isNatToken_natText n)) _ hm
  exact absurd hdigit (by decide)

theorem lt_notMem_time (now : Clock) : unit '<' ∉ time now := by
  have hpad : ∀ width n, unit '<' ∉ padStart width n := by
    intro width n hm
    rcases List.mem_append.mp hm with hm | hm
    · exact absurd (List.eq_of_mem_replicate hm) (by decide)
    · exact lt_notMem_natText n hm
  have hcolon : unit '<' ≠ unit ':' := by decide
  have hpoint : unit '<' ≠ unit '.' := by decide
  simp [time, hpad, hcolon, hpoint]

section

variable {P : Str → Prop}

theorem spliced_member (m : Str × Value) :
    (∀ text, .spliced text ∈ member m → P text) ↔ P m.1 ∧ P m.2.text := by
  rcases m with ⟨key, v⟩
  cases v with
  | scalar text => simp [member, Value.text]
  | array elements => simp [member, Value.text]

theorem spliced_bodyHTML (data : Option (List (Str × Value))) :
    (∀ text, .spliced text ∈ bodyHTML data → P text) ↔
      ∀ m ∈ data.getD [], P m.1 ∧ P m.2.text := by
  cases data with
  | none => simp [bodyHTML]
  | some data =>
    simp only [bodyHTML, List.mem_cons, List.mem_append, List.mem_flatMap, reduceCtorEq, false_or,
      List.not_mem_nil, or_false, Option.getD_some, ← spliced_member]
    constructor
    · intro h m hm text htext
      exact h text ⟨m, hm, htext⟩
    · rintro h text ⟨m, hm, htext⟩
      exact h m hm text htext

/-- What is spliced into an entry. -/
theorem spliced_emit (now : Clock) (entry : Entry) :
    (∀ text, .spliced text ∈ emit rt now entry → P text) ↔
      (P entry.type ∧ P (rt.toUpperCase entry.type) ∧ P entry.title ∧ P (time now)) ∧
        ∀ m ∈ entry.data.getD [], P m.1 ∧ P m.2.text := by
  rw [← spliced_bodyHTML]
  simp only [emit, List.cons_append, List.nil_append, List.mem_cons, List.mem_append, reduceCtorEq,
    false_or, List.not_mem_nil, or_false, Piece.spliced.injEq]
  constructor
  · intro h
    exact ⟨⟨h _ (by simp), h _ (by simp), h _ (by simp), h _ (by simp)⟩,
      fun text hm => h text (by simp [hm])⟩
  · rintro ⟨⟨htype, hupper, htitle, htime⟩, hbody⟩ text (rfl | rfl | rfl | rfl | hm)
    · exact htype
    · exact hupper
    · exact htitle
    · exact htime
    · exact hbody text hm

end

/-- The type is followed by the quote of the template. -/
theorem innerHTML_eq (now : Clock) (entry : Entry) : ∃ rest, innerHTML rt now entry =
    opening ++ (lit "debug-entry-type " ++ entry.type ++ unit '"' :: rest) := by
  have hspan : lit "<span class=\"debug-entry-type " =
      lit "<span class=\"" ++ lit "debug-entry-type " := by decide
  have hquote : lit "\">" = unit '"' :: lit ">" := by decide
  simp only [innerHTML, emit, List.cons_append, List.nil_append, List.flatMap_cons, Piece.text,
    hspan, hquote, opening, List.append_assoc]
  exact ⟨_, rfl⟩

theorem takeWhile_quote {s rest : Str} :
    (s ++ unit '"' :: rest).takeWhile (· != unit '"') = s ↔ unit '"' ∉ s := by
  induction s with
  | nil => simp
  | cons u s ih =>
    by_cases hu : u = unit '"'
    · simp [hu]
    · simp [hu, Ne.symm hu, ih]

theorem attribute_iff (now : Clock) (entry : Entry) :
    classOf (innerHTML rt now entry) = lit "debug-entry-type " ++ entry.type ↔
      unit '"' ∉ entry.type := by
  rcases @innerHTML_eq rt now entry with ⟨rest, hrest⟩
  have hclass : unit '"' ∉ lit "debug-entry-type " := by decide
  rw [classOf, hrest, List.drop_left, takeWhile_quote, List.mem_append, not_or]
  exact and_iff_right hclass

/-- The strings of an entry can only be read as text exactly when they are harmless. -/
theorem rendersAsText_iff (now : Clock) (entry : Entry) :
    RendersAsText rt table now entry ↔ Harmless table entry := by
  have htags : (∀ piece ∈ emit rt now entry, unit '<' ∈ piece.text → piece.isTemplate = true) ↔
      ∀ text, .spliced text ∈ emit rt now entry → unit '<' ∉ text := by
    constructor
    · intro h text hm hlt
      exact absurd (h _ hm hlt) (by simp [Piece.isTemplate])
    · intro h piece hm hlt
      cases piece with
      | template text => rfl
      | spliced text => exact absurd hlt (h text hm)
  have htexts : (∀ text ∈ shown entry, Html.textOf table text = text) ↔
      Html.Literal table entry.title ∧ ∀ m ∈ entry.data.getD [], Html.Literal table m.2.text := by
    simp only [shown, List.forall_mem_cons, List.forall_mem_map, Html.textOf_eq_self_iff,
      literal_shown]
  constructor
  · rintro ⟨hlt, hattribute, hshown⟩
    rcases (spliced_emit now entry).mp (htags.mp hlt) with ⟨⟨htype, -, htitle, -⟩, hdata⟩
    rcases htexts.mp hshown with ⟨hlit, hlits⟩
    exact ⟨htype, (attribute_iff now entry).mp hattribute, ⟨htitle, hlit⟩, fun m hm => (hdata m hm).1,
      fun m hm => ⟨(hdata m hm).2, hlits m hm⟩⟩
  · intro h
    refine ⟨?_, (attribute_iff now entry).mpr h.quote, ?_⟩
    · refine htags.mpr ((spliced_emit now entry).mpr ⟨⟨h.type, ?_, h.title.lt, lt_notMem_time now⟩,
        fun m hm => ⟨h.keys m hm, (h.values m hm).lt⟩⟩)
      -- no letter has an upper case that is a `<`
      exact fun hupper => h.type (rt.toUpperCase_lt _ hupper)
    · exact htexts.mpr ⟨h.title.literal, fun m hm => (h.values m hm).literal⟩

/-! ## What the other party sends -/

theorem harmlessText_of_notMem {s : Str} (hlt : unit '<' ∉ s) (hamp : unit '&' ∉ s)
    (hcr : 13 ∉ s) (hnul : 0 ∉ s) : HarmlessText table s :=
  ⟨hlt, Html.literal_of_notMem hamp hcr hnul⟩

theorem harmlessText_of_all {s : Str}
    (h : s.all (fun u => u != unit '<' && u != unit '&' && u != 13 && u != 0) = true) :
    HarmlessText table s := by
  have hnot : ∀ u ∈ s, ((u ≠ unit '<' ∧ u ≠ unit '&') ∧ u ≠ 13) ∧ u ≠ 0 := by
    simpa [List.all_eq_true] using h
  exact harmlessText_of_notMem (fun hm => (hnot _ hm).1.1.1 rfl) (fun hm => (hnot _ hm).1.1.2 rfl)
    (fun hm => (hnot _ hm).1.2 rfl) (fun hm => (hnot _ hm).2 rfl)

theorem harmless_sessionFetched (aliceName : Str) :
    Harmless table (sessionFetched waitingForBob aliceName) ↔ HarmlessText table aliceName := by
  constructor
  · intro h
    exact h.values (lit "alice_name", .scalar aliceName) (by simp [sessionFetched])
  · intro h
    have htype : unit '<' ∉ lit "network" := by decide
    have hquote : unit '"' ∉ lit "network" := by decide
    have htitle : HarmlessText table (lit "GET /api/session → phase: " ++ waitingForBob) :=
      harmlessText_of_all (by decide)
    refine ⟨htype, hquote, htitle, ?_, ?_⟩
    · simp only [sessionFetched, Option.getD_some, List.forall_mem_cons]
      exact ⟨by decide, by decide, by decide, by simp⟩
    · simp only [sessionFetched, Option.getD_some, List.forall_mem_cons]
      exact ⟨h, harmlessText_of_all (by decide),
        harmlessText_of_all (by decide), by simp⟩

theorem sseEvent_verifiedEvent (rt : Runtime) {jwk : Json} (hobj : jwk.isObj = true)
    (bobName : Str) (p : ℤ) :
    sseEvent rt (SessionStore.verifiedEvent (.str bobName) jwk p) =
      (sliced rt (jwk.get? (lit "x"))).map fun bobPubkey =>
        ⟨lit "network", lit "SSE event received: " ++ verified,
          some [(lit "event", .scalar verified), (lit "score", .scalar (rt.toString (.int p) ++ lit "%")),
            (lit "bob_pubkey", .scalar bobPubkey)]⟩ := by
  have htruthy := Json.jsTruthy_of_isObj hobj
  have hevent : (SessionStore.verifiedEvent (.str bobName) jwk p).get? (lit "event") =
      some (.str verified) := rfl
  have hjwk : (SessionStore.verifiedEvent (.str bobName) jwk p).get? (lit "bob_pubkey_jwk") =
      some jwk := rfl
  have hscore : (SessionStore.verifiedEvent (.str bobName) jwk p).get? (lit "score") =
      some (.int p) := rfl
  simp only [sseEvent, hevent, hjwk, hscore, htruthy, if_true, inTemplate, value, rt.toString_str]
  cases sliced rt (jwk.get? (lit "x")) <;> rfl

/-- A percentage is harmless however the number is written. -/
theorem harmlessText_percentage (p : ℤ) : HarmlessText table (rt.toString (.int p) ++ lit "%") := by
  have hpercent : lit "%" = [unit '%'] := by decide
  have hunit : ∀ u, Html.isAlphanumeric u = false → u ≠ unit '+' → u ≠ unit '-' → u ≠ unit '.' →
      u ≠ unit '%' → u ∉ rt.toString (.int p) ++ lit "%" := by
    intro u halpha hplus hminus hpoint hne hm
    rw [hpercent] at hm
    rcases List.mem_append.mp hm with hm | hm
    · rcases rt.toString_int p u hm with h | rfl | rfl | rfl
      -- digits and letters, then the signs a number can have
      · exact absurd h (by simp [halpha])
      · exact hplus rfl
      · exact hminus rfl
      · exact hpoint rfl
    · exact hne (List.mem_singleton.mp hm)
  exact harmlessText_of_notMem
    (hunit _ (by decide) (by decide) (by decide) (by decide) (by decide))
    (hunit _ (by decide) (by decide) (by decide) (by decide) (by decide))
    (hunit _ (by decide) (by decide) (by decide) (by decide) (by decide))
    (hunit _ (by decide) (by decide) (by decide) (by decide) (by decide))

theorem harmless_verifiedEvent (p : ℤ) (bobPubkey : Str) :
    Harmless table ⟨lit "network", lit "SSE event received: " ++ verified,
      some [(lit "event", .scalar verified), (lit "score", .scalar (rt.toString (.int p) ++ lit "%")),
        (lit "bob_pubkey", .scalar bobPubkey)]⟩ ↔ HarmlessText table bobPubkey := by
  constructor
  · intro h
    exact h.values (lit "bob_pubkey", .scalar bobPubkey) (by simp)
  · intro h
    have htype : unit '<' ∉ lit "network" := by decide
    have hquote : unit '"' ∉ lit "network" := by decide
    have htitle : HarmlessText table (lit "SSE event received: " ++ verified) :=
      harmlessText_of_all (by decide)
    have hverified : HarmlessText table verified :=
      harmlessText_of_all (by decide)
    refine ⟨htype, hquote, htitle, ?_, ?_⟩
    · simp only [Option.getD_some, List.forall_mem_cons]
      exact ⟨by decide, by decide, by decide, by simp⟩
    · simp only [Option.getD_some, List.forall_mem_cons]
      exact ⟨hverified, harmlessText_percentage p, h, by simp⟩

end LogEntry

open LogEntry

/-- An entry renders as text exactly when its strings are harmless. In particular the name of an
accepted create request has to be, where Bob's page shows it, and the part of the key of an accepted
verify request that Alice's page shows. -/
theorem log_entries_are_text_iff (rt : Runtime) (table : Html.NamedReferences) (now : Clock) :
    (∀ entry, RendersAsText rt table now entry ↔ Harmless table entry) ∧
    (∀ body form, AcceptsCreate body form →
      (RendersAsText rt table now (sessionFetched waitingForBob form.aliceName) ↔
        HarmlessText table form.aliceName)) ∧
    (∀ env body form score p bobPubkey, AcceptsVerify body form → passed env score = true →
      sliced rt (form.bobPubkeyJwk.get? (lit "x")) = some bobPubkey →
      ∃ entry, sseEvent rt (outcomeEvent env form score p) = some entry ∧
        (RendersAsText rt table now entry ↔ HarmlessText table bobPubkey)) := by
  refine ⟨rendersAsText_iff now, ?_, ?_⟩
  · intro body form _
    exact (rendersAsText_iff now _).trans (harmless_sessionFetched form.aliceName)
  · intro env body form score p bobPubkey haccepts hpass hsliced
    have hevent : outcomeEvent env form score p =
        SessionStore.verifiedEvent (.str form.bobName) form.bobPubkeyJwk p := by
      simp [outcomeEvent, hpass]
    rw [hevent, LogEntry.sseEvent_verifiedEvent rt haccepts.valid.bobPubkeyJwk.1, hsliced]
    exact ⟨_, rfl, (rendersAsText_iff now _).trans (harmless_verifiedEvent p bobPubkey)⟩

namespace Sample

/-- ASCII letters, strings and integers are enough here. -/
def runtime : Runtime where
  toUpperCase := List.map fun u => if 0x61 ≤ u ∧ u ≤ 0x7A then u - 0x20 else u
  toString := fun j =>
    match j with
    | .str s => s
    | .int n => intText n
    | _ => []
  toUpperCase_lt := by
    intro s hm
    rcases List.mem_map.mp hm with ⟨u, hu, hlt⟩
    split_ifs at hlt with hletter
    · have hback : u = unit '<' + 0x20 := by rw [← hlt, UInt16.sub_add_cancel]
      subst hback
      exact absurd hletter (by decide)
    · exact hlt ▸ hu
  toString_str := fun _ => rfl
  toString_int := by
    intro n u hu
    have hnumber := List.all_eq_true.mp (Json.intText_all n) u hu
    simp only [isNumberUnit, Bool.or_eq_true, beq_iff_eq] at hnumber
    rcases hnumber with ((((hdigit | hplus) | hminus) | hpoint) | rfl) | rfl
    · exact Or.inl (by simp [Html.isAlphanumeric, hdigit])
    · exact Or.inr (Or.inl hplus)
    · exact Or.inr (Or.inr (Or.inl hminus))
    · exact Or.inr (Or.inr (Or.inr hpoint))
    · exact Or.inl (by decide)
    · exact Or.inl (by decide)

/-- The references that markup cannot do without. -/
def references : List (Str × Str) :=
  [(lit "amp;", lit "&"), (lit "amp", lit "&"), (lit "lt;", lit "<"), (lit "lt", lit "<"),
    (lit "gt;", lit ">"), (lit "gt", lit ">"), (lit "quot;", lit "\""), (lit "quot", lit "\"")]

theorem mem_references {name text : Str} (h : references.lookup name = some text) :
    (name, text) ∈ references := by
  rcases List.lookup_eq_some_iff.mp h with ⟨l₁, l₂, hl, _⟩
  rw [hl]
  simp

def table : Html.NamedReferences where
  expansion := fun name => references.lookup name
  expansion_length := by
    intro name text h
    have hall : ∀ r ∈ references, r.2.length ≤ r.1.length := by decide
    exact hall _ (mem_references h)
  name_head := by
    intro name text h
    have hall : ∀ r ∈ references, r.1.head?.any Html.isAlphanumeric = true := by decide
    have hhead := hall _ (mem_references h)
    cases name with
    | nil => simp at hhead
    | cons u rest => exact ⟨u, rest, rfl, by simpa using hhead⟩
  name_units := by
    intro name text h
    have hall : ∀ r ∈ references,
        r.1.all (fun u => Html.isAlphanumeric u || u == unit ';') = true := by decide
    intro u hu
    simpa using List.all_eq_true.mp (hall _ (mem_references h)) u hu

def noon : Clock := ⟨12, 0, 0, 0⟩

/-- A request whose sender's name is markup. -/
def markup : Str := lit "<img src=x onerror=alert(1)>"

def createForm (name : Str) : CreateForm :=
  ⟨name, lit "Where?", lit "Porto", jwk (lit "alice")⟩

def createBodyOf (name : Str) : Json :=
  .obj [(lit "alice_name", .str name), (lit "memory_question", .str (lit "Where?")),
    (lit "memory_answer", .str (lit "Porto")), (lit "alice_pubkey_jwk", jwk (lit "alice"))]

end Sample

/-- It applies to a name with an ampersand, and to a key as browsers export it. -/
theorem log_entries_are_text_sample :
    RendersAsText Sample.runtime Sample.table Sample.noon
        (sessionFetched waitingForBob (lit "Alice & Co.")) ∧
      ∃ entry, sseEvent Sample.runtime (outcomeEvent Sample.config
        ⟨lit "bob", lit "porto", Sample.jwk (lit "bob")⟩ 1 100) = some entry ∧
        RendersAsText Sample.runtime Sample.table Sample.noon entry := by
  have hcreate : AcceptsCreate (Sample.createBodyOf (lit "Alice & Co."))
      (Sample.createForm (lit "Alice & Co.")) := by
    constructor <;> decide +kernel
  have hverify : AcceptsVerify (Sample.verifyBody (lit "bob"))
      ⟨lit "bob", lit "porto", Sample.jwk (lit "bob")⟩ := by
    constructor <;> decide +kernel
  have hpass : passed Sample.config 1 = true := by decide +kernel
  have hsliced : sliced Sample.runtime ((Sample.jwk (lit "bob")).get? (lit "x")) =
      some (lit "bob...") := by
    decide +kernel
  have hname : HarmlessText Sample.table (lit "Alice & Co.") :=
    ⟨by decide, Html.textOf_eq_self_iff.mp (by decide +kernel)⟩
  have hkey : HarmlessText Sample.table (lit "bob...") :=
    ⟨by decide, Html.textOf_eq_self_iff.mp (by decide +kernel)⟩
  rcases log_entries_are_text_iff Sample.runtime Sample.table Sample.noon with ⟨-, hfetched, hevent⟩
  rcases hevent Sample.config _ _ 1 100 _ hverify hpass hsliced with ⟨entry, hentry, hiff⟩
  exact ⟨(hfetched _ _ hcreate).mpr hname, entry, hentry, hiff.mpr hkey⟩

/-- An accepted name that is markup becomes a tag on Bob's page. -/
theorem log_entry_takes_markup :
    AcceptsCreate (Sample.createBodyOf Sample.markup) (Sample.createForm Sample.markup) ∧
    Piece.spliced Sample.markup ∈
      emit Sample.runtime Sample.noon (sessionFetched waitingForBob Sample.markup) ∧
    unit '<' ∈ Sample.markup ∧
    ¬ RendersAsText Sample.runtime Sample.table Sample.noon
      (sessionFetched waitingForBob Sample.markup) := by
  have hspliced : Piece.spliced Sample.markup ∈
      emit Sample.runtime Sample.noon (sessionFetched waitingForBob Sample.markup) := by
    simp [emit, bodyHTML, sessionFetched, member]
  have hlt : unit '<' ∈ Sample.markup := by decide
  refine ⟨by constructor <;> decide +kernel, hspliced, hlt, ?_⟩
  intro h
  exact absurd (h.tags _ hspliced hlt) (by decide)

end Doppelganger
