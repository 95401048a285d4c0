import Doppelganger.Server

/-!
# What the pages find in the browser

JavaScript's view of a JSON value (`JSON.parse`, truthiness, the `slice` the protocol log
calls on keys), the `Crypto` module over Web Crypto, and an `EventSource`.

Web Crypto is not part of the repository. A key pair is known by a number here, a new one
for every pair that is generated; what keys are, how a public key is written as a JWK and
which JWKs can be imported are parameters.
-/

open Text

/-! ## JSON values in JavaScript -/

namespace Json

mutual

/-- No `NaN` and no `Infinity`: `json.dumps` writes them, `JSON.parse` does not read them. -/
def standard : Json → Bool
  | .float (.finite _) => true
  | .float _ => false
  | .arr xs => standardElements xs
  | .obj ms => standardMembers ms
  | _ => true

def standardElements : List Json → Bool
  | [] => true
  | x :: xs => standard x && standardElements xs

def standardMembers : List (Str × Json) → Bool
  | [] => true
  | (_, x) :: ms => standard x && standardMembers ms

end

mutual

/-- The value can be converted to a string, which an object with a member `toString` cannot. -/
def printable : Json → Bool
  | .arr xs => printableElements xs
  | .obj ms => (lookup (lit "toString") ms).isNone
  | _ => true

def printableElements : List Json → Bool
  | [] => true
  | x :: xs => printable x && printableElements xs

end

/-- `JSON.parse`. -/
def parse (s : Str) : Option Json := (loads s).filter standard

/-- JavaScript truthiness of what `JSON.parse` returns: an empty array or object is truthy too. -/
def jsTruthy : Json → Bool
  | .arr _ => true
  | .obj _ => true
  | v => v.truthy

theorem jsTruthy_of_isObj {j : Json} (h : j.isObj = true) : j.jsTruthy = true := by
  cases j with
  | obj ms => rfl
  | _ => cases h

/-- `v.slice(0, 16) + "..."` can be evaluated; only strings and arrays have `slice`. -/
def sliceable : Option Json → Bool
  | some (.str _) => true
  | some (.arr xs) => printableElements (xs.take 16)
  | _ => false

def isNumber : Json → Bool
  | .int _ => true
  | .float _ => true
  | _ => false

end Json

namespace Doppelganger

/-- The white space that `trim` removes. -/
def isJsSpace (u : UInt16) : Bool :=
  (9 ≤ u && u ≤ 13) || u == 32 || u == 0xA0 || u == 0x1680 || (0x2000 ≤ u && u ≤ 0x200A) ||
  u == 0x2028 || u == 0x2029 || u == 0x202F || u == 0x205F || u == 0x3000 || u == 0xFEFF

def trim (s : Str) : Str := (s.dropWhile isJsSpace).rdropWhile isJsSpace

/-- `resp.ok`. -/
def Response.ok (response : Response) : Bool := 200 ≤ response.status && response.status < 300

/-- `resp.json()`; `none` where the promise is rejected. -/
def Response.json (response : Response) : Option Json :=
  if response.body.standard then some response.body else none

theorem Response.body_of_json {response : Response} {data : Json} (h : response.json = some data) :
    response.body = data := by
  unfold Response.json at h
  split_ifs at h
  exact Option.some.inj h

/-! ## Keys -/

/-- `crypto.js` over Web Crypto; `importPublicKey` is `none` where the promise is rejected. -/
structure Crypto where
  PublicKey : Type
  PrivateKey : Type
  SharedKey : Type
  publicKey : ℕ → PublicKey
  privateKey : ℕ → PrivateKey
  exportPublicKey : PublicKey → Json
  importPublicKey : Json → Option PublicKey
  deriveSharedKey : PrivateKey → PublicKey → SharedKey

/-- What is assumed of Web Crypto. -/
structure Crypto.Lawful (W : Crypto) : Prop where
  import_export : ∀ k, W.importPublicKey (W.exportPublicKey k) = some k
  symmetric : ∀ p q, W.deriveSharedKey (W.privateKey p) (W.publicKey q) =
    W.deriveSharedKey (W.privateKey q) (W.publicKey p)

namespace Crypto

variable (W : Crypto)

/-- The JWK of the public half of pair `p`. -/
def jwk (p : ℕ) : Json := W.exportPublicKey (W.publicKey p)

/-- The key that pair `p` and an imported public key derive. -/
def derived (p : ℕ) (k : W.PublicKey) : W.SharedKey := W.deriveSharedKey (W.privateKey p) k

end Crypto

/-! ## The protocol log

What `debug.js` shows has no effect, but the expressions it is given can throw. -/

namespace ProtocolLog

/-- `keyGenerated(role, jwk)` returns. -/
def keyGenerated (jwk : Json) : Bool :=
  Json.sliceable (jwk.get? (lit "x")) && Json.sliceable (jwk.get? (lit "y"))

/-- `sseEvent(event)` returns. -/
def sseEvent (event : Json) : Bool :=
  event != .null && (event.get? (lit "event")).all Json.printable &&
  (event.get? (lit "score")).all Json.printable &&
  match event.get? (lit "bob_pubkey_jwk") with
  | some jwk => !jwk.jsTruthy || Json.sliceable (jwk.get? (lit "x"))
  | none => true

/-- `vector_preview.join(", ")` and `embeddingReceived(vector_preview, vector_dimensions)` return,
or are skipped. -/
def embeddingReceived (data : Json) : Bool :=
  match data.get? (lit "vector_preview") with
  | some (.arr xs) => (xs.take 8).all Json.isNumber
  | some v => !v.jsTruthy
  | none => true

end ProtocolLog

/-! ## Event sources -/

/-- An open `EventSource` on `/api/session/sid/stream`: the stream it is connected to and the number
of chunks it has read from it. Between two connections it has none. -/
structure EventSource where
  sid : Str
  conn : Option (ℕ × ℕ)
deriving DecidableEq

end Doppelganger
