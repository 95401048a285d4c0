import Doppelganger.Lib.Base64
import Doppelganger.Lib.JsString
import Doppelganger.Lib.UrlMap
import Doppelganger.Server

/-! # Where a session is found

A session id is drawn, put into a link, taken out of the path of the link by the page's route,
written into a script by the template, read from there by the browser, and put into the paths that
the page asks for. `url_map_iff` says which paths reach which view, `session_page_inert` what an id
can do to the script, and `session_id_round_trips` that the ids that are drawn come through
unchanged.

Werkzeug and MarkupSafe are not part of the repository. `Werkzeug` is what routes requests by the
rules of the views: a path is matched against a rule whose converter is the default one as `UrlMap`
says. `MarkupSafe` is what escapes `{{ session_id }}`. Of either the model has what its documentation
promises and the proofs use. -/

open Text UrlMap

namespace Doppelganger

/-! ## Routes -/

inductive Method where
  | get
  | post
  | delete
deriving DecidableEq

/-- The view functions of the four blueprints. -/
inductive View where
  | root
  | index
  | session
  | createSession
  | getSession
  | deleteSession
  | verify
  | eventStream
deriving DecidableEq

namespace View

def all : List View :=
  [root, index, session, createSession, getSession, deleteSession, verify, eventStream]

def method : View → Method
  | createSession => .post
  | verify => .post
  | deleteSession => .delete
  | _ => .get

/-- The rule of a view, with the prefix its blueprint is registered with. -/
def parts : View → List Part
  | root => [.text []]
  | index => [.text (lit "verify")]
  | session => [.text (lit "verify"), .text (lit "s"), .arg]
  | createSession => [.text (lit "api"), .text (lit "session")]
  | getSession => [.text (lit "api"), .text (lit "session"), .arg]
  | deleteSession => [.text (lit "api"), .text (lit "session"), .arg]
  | verify => [.text (lit "api"), .text (lit "session"), .arg, .text (lit "verify")]
  | eventStream => [.text (lit "api"), .text (lit "session"), .arg, .text (lit "stream")]

/-- The request follows the rule of the view, with these arguments. -/
def Takes (view : View) (m : Method) (path : Str) (args : List Str) : Prop :=
  view.method = m ∧ UrlMap.bind view.parts path = some args

end View

/-- The map of the application's rules. -/
structure Werkzeug where
  /-- The view that a request for a path reaches, with its arguments. -/
  dispatch : Method → Str → Option (View × List Str)
  /-- A request that follows one rule only reaches its view. -/
  reaches : ∀ m path view args, View.Takes view m path args →
    (∀ view' args', View.Takes view' m path args' → view' = view) →
    dispatch m path = some (view, args)
  /-- A view is reached by its rule. -/
  follows : ∀ m path view args, dispatch m path = some (view, args) →
    View.Takes view m path args

/-! ### The rules are unambiguous -/

section Rules

variable {m : Method} {p : Str} {view view' : View} {args args' : List Str}

theorem View.mem_all (view : View) : view ∈ View.all := by cases view <;> decide

theorem View.bind_iff : UrlMap.bind view.parts p = some args ↔
    p = UrlMap.path view.parts args ∧ Fits view.parts args :=
  UrlMap.bind_eq_some_iff (by cases view <;> simp [View.parts]) (by cases view <;> decide)

/-- Two views for one method do not take the same path. -/
theorem View.eq_of_overlap : ∀ view ∈ View.all, ∀ view' ∈ View.all, view.method = view'.method →
    overlap view.parts view'.parts = true → view = view' := by decide

theorem View.eq_of_bind (hm : view.method = view'.method)
    (h : UrlMap.bind view.parts p = some args) (h' : UrlMap.bind view'.parts p = some args') :
    view = view' := by
  rcases Option.bind_eq_some_iff.mp h with ⟨xs, hxs, hbind⟩
  rcases Option.bind_eq_some_iff.mp h' with ⟨xs', hxs', hbind'⟩
  obtain rfl := Option.some.inj (hxs.symm.trans hxs')
  exact View.eq_of_overlap view view.mem_all view' view'.mem_all hm
    (overlap_of_bindSegments hbind hbind')

/-- A request reaches a view with these arguments exactly if it asks for the path that has them. -/
theorem url_map_iff (routes : Werkzeug) : routes.dispatch m p = some (view, args) ↔
    view.method = m ∧ p = UrlMap.path view.parts args ∧ Fits view.parts args := by
  rw [← View.bind_iff]
  constructor
  · exact routes.follows m p view args
  · intro h
    exact routes.reaches m p view args h fun _ _ h' => View.eq_of_bind (h'.1.trans h.1.symm) h'.2 h.2

end Rules

/-! ## The script of the page -/

/-- The characters that `markupsafe.escape` replaces: `&`, `<`, `>`, the apostrophe and the quote. -/
def isSpecial (u : UInt16) : Bool :=
  u = unit '&' || u = unit '<' || u = unit '>' || u = 39 || u = unit '"'

/-- `{{ session_id }}` is escaped: a reference takes the place of each of these characters. -/
structure MarkupSafe where
  escape : Str → Str
  reference : UInt16 → Str
  escape_eq : ∀ s, escape s = s.flatMap fun u => if isSpecial u then reference u else [u]
  /-- Only its ampersand would be replaced itself. -/
  reference_eq : ∀ u, isSpecial u = true →
    ∃ name, reference u = unit '&' :: name ∧ ∀ v ∈ name, isSpecial v = false

/-- Of the special characters only ampersands are left. -/
theorem MarkupSafe.notMem_escape (markup : MarkupSafe) (sid : Str) {v : UInt16}
    (hv : isSpecial v = true) (hamp : v ≠ unit '&') : v ∉ markup.escape sid := by
  rw [markup.escape_eq]
  intro hmem
  rcases List.mem_flatMap.mp hmem with ⟨u, _, hvu⟩
  by_cases hu : isSpecial u = true
  · rcases markup.reference_eq u hu with ⟨name, href, hname⟩
    rw [if_pos hu, href] at hvu
    rcases List.mem_cons.mp hvu with hhead | htail
    · exact hamp hhead
    · simp [hname v htail] at hv
  · rw [if_neg hu, List.mem_singleton] at hvu
    exact hu (hvu ▸ hv)

/-- A text without special characters is left as it is. -/
theorem MarkupSafe.escape_of_plain (markup : MarkupSafe) {sid : Str}
    (h : ∀ u ∈ sid, isSpecial u = false) : markup.escape sid = sid := by
  have hunit : ∀ u ∈ sid, (if isSpecial u then markup.reference u else [u]) = [u] :=
    fun u hu => if_neg (by simp [h u hu])
  rw [markup.escape_eq, List.flatMap_congr hunit, List.flatMap_singleton']

/-- What follows the literal in the script of `session.html`. -/
def scriptTail : Str :=
  lit ";\n    window.addEventListener(\"DOMContentLoaded\", () => Session.initBob(SESSION_ID));\n"

/-- The script of `session.html`, from behind `const SESSION_ID = "`. -/
def sessionScript (markup : MarkupSafe) (sid : Str) : Str :=
  markup.escape sid ++ JsString.quote :: scriptTail

/-- The text of a script element: references are not replaced in it, and NUL is. -/
def scriptText (s : Str) : Str :=
  (Html.normalizeNewlines s).map fun u => if u = 0 then 0xFFFD else u

section Script

variable {s t : Str} {u : UInt16}

/-- What is not LF keeps apart from a CR before it. -/
theorem normalizeNewlines_append (hu : u ≠ 10) : Html.normalizeNewlines (s ++ u :: t) =
    Html.normalizeNewlines s ++ Html.normalizeNewlines (u :: t) := by
  fun_induction Html.normalizeNewlines s with
  | case1 => rfl
  | case2 c => by_cases hc : c = 13 <;> simp [Html.normalizeNewlines, hc, hu]
  | case3 s ih => simp [Html.normalizeNewlines, ih]
  | case4 d s hd ih => simpa [Html.normalizeNewlines, hd] using ih
  | case5 c d s hc ih => simpa [Html.normalizeNewlines, hc] using ih

theorem scriptText_append (hu : u ≠ 10) :
    scriptText (s ++ u :: t) = scriptText s ++ scriptText (u :: t) := by
  rw [scriptText, normalizeNewlines_append hu, List.map_append]
  rfl

theorem mem_normalizeNewlines (h : u ∈ Html.normalizeNewlines s) : u = 10 ∨ u ∈ s := by
  fun_induction Html.normalizeNewlines s with
  | case1 => cases h
  | case2 c => by_cases hc : c = 13 <;> simp_all
  | case3 s ih => grind
  | case4 d s hd ih => grind
  | case5 c d s hc ih => grind

theorem scriptText_tail : scriptText (JsString.quote :: scriptTail) =
    JsString.quote :: scriptTail := by decide +kernel

/-- Whatever the path of the page has for an id: the script element ends where the template ends it,
and the script is either no JavaScript at all or the template's with another value of the literal.
-/
theorem session_page_inert (markup : MarkupSafe) (sid : Str) : unit '<' ∉ markup.escape sid ∧
    (JsString.read (scriptText (sessionScript markup sid)) = none ∨
      ∃ v, JsString.read (scriptText (sessionScript markup sid)) = some (v, scriptTail)) := by
  refine ⟨markup.notMem_escape sid (by decide) (by decide), ?_⟩
  have hsplit : scriptText (sessionScript markup sid) =
      scriptText (markup.escape sid) ++ JsString.quote :: scriptTail := by
    rw [sessionScript, scriptText_append (by decide), scriptText_tail]
  have hquote : JsString.quote ∉ scriptText (markup.escape sid) := by
    intro h
    rcases List.mem_map.mp h with ⟨u, hu, heq⟩
    split_ifs at heq with hnul
    · exact absurd heq (by decide)
    · rcases mem_normalizeNewlines hu with rfl | hmem
      · exact absurd heq (by decide)
      · obtain rfl : u = unit '"' := heq
        exact markup.notMem_escape sid (by decide) (by decide) hmem
  cases hread : JsString.read (scriptText (sessionScript markup sid)) with
  | none => exact Or.inl rfl
  | some r =>
    rcases r with ⟨v, rest⟩
    rw [hsplit] at hread
    rcases JsString.read_append hquote hread with rfl | ⟨v', htail⟩
    · exact Or.inr ⟨v, rfl⟩
    · -- the line of the template ends before another quote comes
      have hnone : JsString.read scriptTail = none := by decide +kernel
      rw [hnone] at htail
      cases htail

end Script

/-! ## The ids that are drawn -/

/-- `generate_session_id`, from the 32 bytes that `secrets` draws. -/
def generateSessionId (bytes : List UInt8) : Str := Base64.encodeUrl bytes

/-! The paths that `session.js` asks for. -/

def sessionPath (sessionId : Str) : Str := lit "/api/session/" ++ sessionId

def verifyPath (sessionId : Str) : Str := lit "/api/session/" ++ sessionId ++ lit "/verify"

def streamPath (sessionId : Str) : Str := lit "/api/session/" ++ sessionId ++ lit "/stream"

section Ids

variable {sid : Str}

theorem escape_of_isUrlUnit (markup : MarkupSafe) (h : ∀ u ∈ sid, Base64.isUrlUnit u = true) :
    markup.escape sid = sid := by
  refine markup.escape_of_plain fun u hu => ?_
  have hne : ∀ v, Base64.isUrlUnit v = false → u ≠ v := by
    rintro v hv rfl
    exact absurd (h u hu) (by simp [hv])
  simp only [isSpecial, Bool.or_eq_false_iff, decide_eq_false_iff_not]
  exact ⟨⟨⟨⟨hne _ (by decide), hne _ (by decide)⟩, hne _ (by decide)⟩, hne _ (by decide)⟩,
    hne _ (by decide)⟩

theorem scriptText_of_isUrlUnit (h : ∀ u ∈ sid, Base64.isUrlUnit u = true) :
    scriptText sid = sid := by
  have hcr : 13 ∉ sid := fun hmem => absurd (h 13 hmem) (by decide)
  rw [scriptText, Html.normalizeNewlines_of_cr hcr]
  refine (List.map_congr_left fun u hu => ?_).trans (List.map_id _)
  rw [if_neg]
  · rfl
  · rintro rfl
    exact absurd (h 0 hu) (by decide)

/-- An id in the URL-safe alphabet is what the script says. -/
theorem read_sessionScript (markup : MarkupSafe) (h : ∀ u ∈ sid, Base64.isUrlUnit u = true) :
    JsString.read (scriptText (sessionScript markup sid)) = some (sid, scriptTail) := by
  rw [sessionScript, escape_of_isUrlUnit markup h, scriptText_append (by decide), scriptText_tail,
    scriptText_of_isUrlUnit h]
  refine JsString.read_plain fun u hu => ⟨?_, ?_, ?_, ?_⟩
  all_goals
    rintro rfl
    exact absurd (h _ hu) (by decide)

/-- And it is a segment of a path. -/
theorem fits_of_isUrlUnit (h : ∀ u ∈ sid, Base64.isUrlUnit u = true) (hne : sid ≠ []) :
    sid ≠ [] ∧ slash ∉ sid :=
  ⟨hne, fun hmem => absurd (h slash hmem) (by decide)⟩

theorem dispatch_of_segment (routes : Werkzeug) (hsid : sid ≠ [] ∧ slash ∉ sid) :
    routes.dispatch .get (lit "/verify/s/" ++ sid) = some (.session, [sid]) ∧
      routes.dispatch .get (sessionPath sid) = some (.getSession, [sid]) ∧
      routes.dispatch .post (verifyPath sid) = some (.verify, [sid]) ∧
      routes.dispatch .get (streamPath sid) = some (.eventStream, [sid]) := by
  have hsession : lit "/verify/s/" ++ sid = UrlMap.path View.session.parts [sid] := by
    simp [UrlMap.path, fill, View.parts, List.intercalate]
    rfl
  have hget : sessionPath sid = UrlMap.path View.getSession.parts [sid] := by
    simp [UrlMap.path, fill, View.parts, List.intercalate]
    rfl
  have hverify : verifyPath sid = UrlMap.path View.verify.parts [sid] := by
    simp [UrlMap.path, fill, View.parts, List.intercalate, verifyPath]
    rfl
  have hstream : streamPath sid = UrlMap.path View.eventStream.parts [sid] := by
    simp [UrlMap.path, fill, View.parts, List.intercalate, streamPath]
    rfl
  have hfits : sid ≠ [] ∧ slash ∉ sid ∧ ([] : List Str) = [] := ⟨hsid.1, hsid.2, rfl⟩
  exact ⟨(url_map_iff routes).mpr ⟨rfl, hsession, hfits⟩,
    (url_map_iff routes).mpr ⟨rfl, hget, hfits⟩, (url_map_iff routes).mpr ⟨rfl, hverify, hfits⟩,
    (url_map_iff routes).mpr ⟨rfl, hstream, hfits⟩⟩

/-- A session id has 43 characters, and no other 32 bytes lead to its hash. The link that a create
request is answered with leads to the page, the page's script has the id that is in the link, and
with it the page reaches the views of that same session. -/
theorem session_id_round_trips (env : Env) (routes : Werkzeug) (markup : MarkupSafe)
    {bytes : List UInt8} (h : bytes.length = 32) :
    (generateSessionId bytes).length = 43 ∧
    (∀ bytes', key (generateSessionId bytes') = key (generateSessionId bytes) → bytes' = bytes) ∧
    ∃ path sid sid', linkOf env (generateSessionId bytes) = env.baseUrl ++ path ∧
      routes.dispatch .get path = some (.session, [sid]) ∧
      JsString.read (scriptText (sessionScript markup sid)) = some (sid', scriptTail) ∧
      routes.dispatch .get (sessionPath sid') = some (.getSession, [generateSessionId bytes]) ∧
      routes.dispatch .post (verifyPath sid') = some (.verify, [generateSessionId bytes]) ∧
      routes.dispatch .get (streamPath sid') = some (.eventStream, [generateSessionId bytes]) := by
  have hlength : (generateSessionId bytes).length = 43 := by
    rw [generateSessionId, Base64.encodeUrl_length, h]
  have hunits : ∀ u ∈ generateSessionId bytes, Base64.isUrlUnit u = true :=
    fun u hu => Base64.isUrlUnit_of_mem hu
  have hne : generateSessionId bytes ≠ [] := by
    intro hnil
    rw [hnil] at hlength
    cases hlength
  rcases dispatch_of_segment routes (fits_of_isUrlUnit hunits hne) with
    ⟨hpage, hget, hverify, hstream⟩
  refine ⟨hlength, ?_, lit "/verify/s/" ++ generateSessionId bytes, generateSessionId bytes,
    generateSessionId bytes, rfl, hpage, read_sessionScript markup hunits, hget, hverify, hstream⟩
  intro bytes' hkey
  exact Base64.encodeUrl_injective (key_injective hkey)

end Ids

namespace Sample

/-- A request follows the rule of a view, with these arguments. -/
def takes (m : Method) (path : Str) (view : View) : Option (View × List Str) :=
  if view.method = m then (UrlMap.bind view.parts path).map fun args => (view, args) else none

theorem takes_eq_some {m : Method} {path : Str} {view view' : View} {args : List Str} :
    takes m path view = some (view', args) ↔ view = view' ∧ View.Takes view m path args := by
  unfold takes View.Takes
  split_ifs with hm
  · simp only [Option.map_eq_some_iff, Prod.mk.injEq]
    constructor
    · rintro ⟨args', hbind, rfl, rfl⟩
      exact ⟨rfl, hm, hbind⟩
    · rintro ⟨rfl, _, hbind⟩
      exact ⟨args, hbind, rfl, rfl⟩
  · simp [hm]

/-- The rules are tried in turn. -/
def routes : Werkzeug where
  dispatch m path := View.all.findSome? (takes m path)
  reaches := by
    intro m path view args h hunique
    have hsome : (View.all.findSome? (takes m path)).isSome = true := by
      rw [List.findSome?_isSome_iff]
      exact ⟨view, view.mem_all, by rw [takes_eq_some.mpr ⟨rfl, h⟩]; rfl⟩
    rcases Option.isSome_iff_exists.mp hsome with ⟨⟨view', args'⟩, hfound⟩
    rcases List.exists_of_findSome?_eq_some hfound with ⟨view'', _, htaken⟩
    obtain ⟨rfl, htakes⟩ := takes_eq_some.mp htaken
    obtain rfl := hunique _ _ htakes
    obtain rfl := Option.some.inj (htakes.2.symm.trans h.2)
    exact hfound
  follows := by
    intro m path view args h
    rcases List.exists_of_findSome?_eq_some h with ⟨view', _, htaken⟩
    obtain ⟨rfl, htakes⟩ := takes_eq_some.mp htaken
    exact htakes

def reference (u : UInt16) : Str :=
  if u = unit '&' then lit "&amp;"
  else if u = unit '<' then lit "&lt;"
  else if u = unit '>' then lit "&gt;"
  else if u = 39 then lit "&#39;"
  else lit "&#34;"

theorem reference_eq (u : UInt16) :
    ∃ name, reference u = unit '&' :: name ∧ ∀ v ∈ name, isSpecial v = false := by
  have hplain : ∀ name : Str, name.all (fun v => !isSpecial v) = true →
      ∀ v ∈ name, isSpecial v = false :=
    fun name h v hv => by simpa using List.all_eq_true.mp h v hv
  unfold reference
  split_ifs
  · exact ⟨lit "amp;", rfl, hplain _ (by decide)⟩
  · exact ⟨lit "lt;", rfl, hplain _ (by decide)⟩
  · exact ⟨lit "gt;", rfl, hplain _ (by decide)⟩
  · exact ⟨lit "#39;", rfl, hplain _ (by decide)⟩
  · exact ⟨lit "#34;", rfl, hplain _ (by decide)⟩

def escaping : MarkupSafe where
  escape s := s.flatMap fun u => if isSpecial u then reference u else [u]
  reference := reference
  escape_eq := fun _ => rfl
  reference_eq := fun u _ => reference_eq u

/-- An id that is to end the literal. -/
def breakout : Str := lit "\"; alert(1); \""

end Sample

/-- It applies to an id that is to end the literal: its quotes are text. -/
theorem session_page_inert_sample : unit '<' ∉ Sample.escaping.escape Sample.breakout ∧
    ∃ v, JsString.read (scriptText (sessionScript Sample.escaping Sample.breakout)) =
      some (v, scriptTail) := by
  rcases session_page_inert Sample.escaping Sample.breakout with ⟨hlt, hnone | hread⟩
  · have hsome : (JsString.read (scriptText (sessionScript Sample.escaping
        Sample.breakout))).isSome = true := by decide +kernel
    rw [hnone] at hsome
    cases hsome
  · exact ⟨hlt, hread⟩

/-- It applies to 32 equal bytes. -/
theorem session_id_round_trips_sample :
    let sid := generateSessionId (List.replicate 32 255)
    sid.length = 43 ∧ ∃ path sid', linkOf Sample.config sid = Sample.config.baseUrl ++ path ∧
      Sample.routes.dispatch .get path = some (.session, [sid']) := by
  intro sid
  have hbytes : (List.replicate 32 (255 : UInt8)).length = 32 := by decide
  rcases session_id_round_trips Sample.config Sample.routes Sample.escaping hbytes with
    ⟨hlength, _, path, sid', _, hlink, hpage, _⟩
  exact ⟨hlength, path, sid', hlink, hpage⟩

end Doppelganger
