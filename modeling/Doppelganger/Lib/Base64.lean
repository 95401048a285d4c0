import Doppelganger.Lib.Text

/-!
# Base64

`btoa` and `atob` read and write byte strings, texts whose units are below 256. The encoder splits
the bytes into groups of six bits and pads the text to a multiple of four; the decoder is the
forgiving one, which skips white space and does without the padding.

`atob_btoa`: every byte string comes back. `encodeUrl` writes the bytes in the URL-safe alphabet and
without pads, so that a text can stand in a path.
-/

open Text

namespace Base64

/-! ## Encoder -/

def alphabet : Str := lit "ABCDEFGHIJKLMNOPQRSTUVWXYZabcdefghijklmnopqrstuvwxyz0123456789+/"

/-- The unit for six bits. -/
def digit (n : ℕ) : UInt16 := alphabet.getD n 0

def pad : UInt16 := unit '='

/-- The bytes in groups of six bits, filled up with zeros at the end. -/
def sextets : List UInt8 → List ℕ
  | [] => []
  | [a] => [a.toNat / 4, a.toNat % 4 * 16]
  | [a, b] => [a.toNat / 4, a.toNat % 4 * 16 + b.toNat / 16, b.toNat % 16 * 4]
  | a :: b :: c :: rest =>
    a.toNat / 4 :: (a.toNat % 4 * 16 + b.toNat / 16) :: (b.toNat % 16 * 4 + c.toNat / 64) ::
      c.toNat % 64 :: sextets rest

def encode (bytes : List UInt8) : Str :=
  (sextets bytes).map digit ++ List.replicate ((4 - (sextets bytes).length % 4) % 4) pad

/-- `btoa(s)`; `none` where a unit of `s` is no byte. -/
def btoa (s : Str) : Option Str :=
  if s.all (· < 256) then some (encode (s.map UInt16.toUInt8)) else none

/-! ## Decoder -/

def isAsciiSpace (u : UInt16) : Bool := u == 9 || u == 10 || u == 12 || u == 13 || u == 32

/-- The six bits of a unit. -/
def value (u : UInt16) : Option ℕ := alphabet.findIdx? (· == u)

/-- At most two pads are taken off the end. -/
def dropPads (s : Str) : Str :=
  if s.getLast? = some pad then
    if s.dropLast.getLast? = some pad then s.dropLast.dropLast else s.dropLast
  else s

/-- Four groups are three bytes; the spare bits at the end are dropped. -/
def bytesOf : List ℕ → List UInt8
  | a :: b :: c :: d :: rest =>
    UInt8.ofNat (a * 4 + b / 16) :: UInt8.ofNat (b % 16 * 16 + c / 4) ::
      UInt8.ofNat (c % 4 * 64 + d) :: bytesOf rest
  | [a, b, c] => [UInt8.ofNat (a * 4 + b / 16), UInt8.ofNat (b % 16 * 16 + c / 4)]
  | [a, b] => [UInt8.ofNat (a * 4 + b / 16)]
  | _ => []

def decode (s : Str) : Option (List UInt8) :=
  let s := s.filter fun u => !isAsciiSpace u
  let s := if s.length % 4 = 0 then dropPads s else s
  if s.length % 4 = 1 then none else (s.mapM value).map bytesOf

/-- `atob(s)`. -/
def atob (s : Str) : Option Str := (decode s).map fun bytes => bytes.map UInt8.toUInt16

/-! ## The decoder undoes the encoder -/

theorem value_digit : ∀ n < 64, value (digit n) = some n := by decide +kernel

theorem digit_ne_pad : ∀ n < 64, digit n ≠ pad := by decide +kernel

theorem isAsciiSpace_digit : ∀ n < 64, isAsciiSpace (digit n) = false := by decide +kernel

theorem sextets_lt (bytes : List UInt8) : ∀ n ∈ sextets bytes, n < 64 := by
  fun_induction sextets bytes with
  | case1 => simp
  | case2 a =>
    have ha := a.toNat_lt
    simp only [List.forall_mem_cons]
    exact ⟨by omega, by omega, by simp⟩
  | case3 a b =>
    have ha := a.toNat_lt
    have hb := b.toNat_lt
    simp only [List.forall_mem_cons]
    exact ⟨by omega, by omega, by omega, by simp⟩
  | case4 a b c rest ih =>
    have ha := a.toNat_lt
    have hb := b.toNat_lt
    have hc := c.toNat_lt
    simp only [List.forall_mem_cons]
    exact ⟨by omega, by omega, by omega, by omega, ih⟩

/-- The groups fill up to four with at most two pads. -/
theorem sextets_length (bytes : List UInt8) : (sextets bytes).length % 4 ≠ 1 := by
  fun_induction sextets bytes with
  | case1 => decide
  | case2 a => simp
  | case3 a b => simp
  | case4 a b c rest ih =>
    simp only [List.length_cons]
    omega

theorem bytesOf_sextets (bytes : List UInt8) : bytesOf (sextets bytes) = bytes := by
  have hbyte : ∀ {n : ℕ} {a : UInt8}, n = a.toNat → UInt8.ofNat n = a := by
    rintro n a rfl
    exact UInt8.ofNat_toNat
  fun_induction sextets bytes with
  | case1 => rfl
  | case2 a =>
    have ha := a.toNat_lt
    rw [bytesOf, hbyte (a := a) (by omega)]
  | case3 a b =>
    have ha := a.toNat_lt
    have hb := b.toNat_lt
    rw [bytesOf, hbyte (a := a) (by omega), hbyte (a := b) (by omega)]
  | case4 a b c rest ih =>
    have ha := a.toNat_lt
    have hb := b.toNat_lt
    have hc := c.toNat_lt
    rw [bytesOf, hbyte (a := a) (by omega), hbyte (a := b) (by omega),
        hbyte (a := c) (by omega), ih]

theorem mapM_value {ns : List ℕ} (h : ∀ n ∈ ns, n < 64) : (ns.map digit).mapM value = some ns := by
  induction ns with
  | nil => rfl
  | cons n ns ih =>
    have hn := value_digit n (h n List.mem_cons_self)
    have hns := ih fun m hm => h m (List.mem_cons_of_mem _ hm)
    simp [List.mapM_cons, hn, hns]

/-- The pads come off again, and nothing else does. -/
theorem dropPads_append {s : Str} (h : s.getLast? ≠ some pad) {k : ℕ} (hk : k ≤ 2) :
    dropPads (s ++ List.replicate k pad) = s := by
  interval_cases k
  · simp [dropPads, h]
  · simp [dropPads, h]
  · have htwo : s ++ List.replicate 2 pad = (s ++ [pad]) ++ [pad] := by simp [List.replicate]
    rw [htwo, dropPads]
    simp

theorem filter_encode (bytes : List UInt8) :
    (encode bytes).filter (fun u => !isAsciiSpace u) = encode bytes := by
  rw [List.filter_eq_self]
  intro u hu
  rcases List.mem_append.mp hu with hu | hu
  · rcases List.mem_map.mp hu with ⟨n, hn, rfl⟩
    simp [isAsciiSpace_digit n (sextets_lt bytes n hn)]
  · obtain rfl := List.eq_of_mem_replicate hu
    decide

theorem decode_encode (bytes : List UInt8) : decode (encode bytes) = some bytes := by
  have hlast : ((sextets bytes).map digit).getLast? ≠ some pad := by
    intro h
    rcases List.mem_map.mp (List.mem_of_getLast? h) with ⟨n, hn, hpad⟩
    exact digit_ne_pad n (sextets_lt bytes n hn) hpad
  have hlen := sextets_length bytes
  have hfull : (encode bytes).length % 4 = 0 := by
    simp only [encode, List.length_append, List.length_map, List.length_replicate]
    omega
  have hdrop : dropPads (encode bytes) = (sextets bytes).map digit :=
    dropPads_append hlast (by omega)
  simp only [decode, filter_encode, hfull, if_true, hdrop, List.length_map, hlen, if_false,
    mapM_value (sextets_lt bytes), Option.map_some, bytesOf_sextets]

/-- `atob` undoes `btoa` on the byte string of any bytes. -/
theorem atob_btoa (bytes : List UInt8) :
    (btoa (bytes.map UInt8.toUInt16)).bind atob = some (bytes.map UInt8.toUInt16) := by
  have hall : (bytes.map UInt8.toUInt16).all (· < 256) = true := by
    simp only [List.all_map, List.all_eq_true, Function.comp_apply, decide_eq_true_eq]
    intro b _
    have hb := b.toNat_lt
    rw [UInt16.lt_iff_toNat_lt]
    simpa using hb
  have hback : (bytes.map UInt8.toUInt16).map UInt16.toUInt8 = bytes := by
    simp [List.map_map, Function.comp_def]
  rw [btoa, if_pos hall, hback]
  simp [atob, decode_encode]

/-! ## The URL-safe alphabet -/

/-- `+` and `/` have a meaning in URLs. -/
def urlUnit (u : UInt16) : UInt16 :=
  if u = unit '+' then unit '-' else if u = unit '/' then unit '_' else u

/-- The URL-safe text of the bytes, without its pads. -/
def encodeUrl (bytes : List UInt8) : Str := ((encode bytes).map urlUnit).rdropWhile (· == pad)

/-- The units of the URL-safe alphabet. -/
def isUrlUnit (u : UInt16) : Bool :=
  (0x30 ≤ u && u ≤ 0x39) || (0x41 ≤ u && u ≤ 0x5A) || (0x61 ≤ u && u ≤ 0x7A) ||
  u == unit '-' || u == unit '_'

theorem isUrlUnit_digit : ∀ n < 64, isUrlUnit (urlUnit (digit n)) = true := by decide +kernel

theorem urlUnit_digit_ne_pad : ∀ n < 64, urlUnit (digit n) ≠ pad := by decide +kernel

/-- The six bits of a unit of the URL-safe alphabet. -/
def urlValue (u : UInt16) : ℕ := (alphabet.map urlUnit).findIdx (· == u)

theorem urlValue_digit : ∀ n < 64, urlValue (urlUnit (digit n)) = n := by decide +kernel

theorem rdropWhile_append_replicate {s : Str} {u : UInt16} (h : s.getLast? ≠ some u) (k : ℕ) :
    (s ++ List.replicate k u).rdropWhile (· == u) = s := by
  induction k with
  | zero =>
    rw [List.replicate_zero, List.append_nil]
    rcases List.eq_nil_or_concat s with rfl | ⟨t, a, rfl⟩
    · rfl
    · have hne : (a == u) = false := by simpa using h
      simp [hne]
  | succ k ih =>
    rw [List.replicate_succ', ← List.append_assoc, List.rdropWhile_concat, if_pos (by simp)]
    exact ih

/-- Only the pads come off. -/
theorem encodeUrl_eq (bytes : List UInt8) :
    encodeUrl bytes = (sextets bytes).map fun n => urlUnit (digit n) := by
  have hpad : urlUnit pad = pad := by decide
  have hlast : ((sextets bytes).map fun n => urlUnit (digit n)).getLast? ≠ some pad := by
    intro h
    rcases List.mem_map.mp (List.mem_of_getLast? h) with ⟨n, hn, heq⟩
    exact urlUnit_digit_ne_pad n (sextets_lt bytes n hn) heq
  rw [encodeUrl, encode, List.map_append, List.map_map, List.map_replicate, hpad]
  exact rdropWhile_append_replicate hlast _

/-- The bytes come back, so no two byte strings have the same text. -/
theorem encodeUrl_injective : Function.Injective encodeUrl := by
  intro bytes bytes' h
  have hback : ∀ bytes, bytesOf ((encodeUrl bytes).map urlValue) = bytes := by
    intro bytes
    have hvalues : (encodeUrl bytes).map urlValue = sextets bytes := by
      rw [encodeUrl_eq, List.map_map]
      refine (List.map_congr_left fun n hn => ?_).trans (List.map_id _)
      exact urlValue_digit n (sextets_lt bytes n hn)
    rw [hvalues, bytesOf_sextets]
  rw [← hback bytes, h, hback]

theorem isUrlUnit_of_mem {bytes : List UInt8} {u : UInt16} (h : u ∈ encodeUrl bytes) :
    isUrlUnit u = true := by
  rw [encodeUrl_eq] at h
  rcases List.mem_map.mp h with ⟨n, hn, rfl⟩
  exact isUrlUnit_digit n (sextets_lt bytes n hn)

theorem encodeUrl_length (bytes : List UInt8) :
    (encodeUrl bytes).length = (4 * bytes.length + 2) / 3 := by
  rw [encodeUrl_eq, List.length_map]
  fun_induction sextets bytes with
  | case1 | case2 | case3 => simp
  | case4 a b c rest ih =>
    simp only [List.length_cons]
    omega

end Base64
