import Doppelganger.Lib.Text

/-!
# The text of an HTML element

What a parser makes of the characters between two tags: CR and CRLF become LF, a character
reference becomes the characters it stands for, and NUL is ignored. The table of named references is
a parameter; numeric references are read here.

A text is `Literal` when it means itself. `textOf_eq_self_iff` says that these are exactly the texts
without CR, NUL and character references, since a reference is always longer than what it stands
for.
-/

open Text

namespace Html

/-! ## Character references -/

def isHexDigit (u : UInt16) : Bool :=
  isDigit u || (0x41 ≤ u && u ≤ 0x46) || (0x61 ≤ u && u ≤ 0x66)

def hexDigitValue (u : UInt16) : ℕ :=
  if isDigit u then u.toNat - 0x30 else if u ≤ 0x46 then u.toNat - 0x37 else u.toNat - 0x57

def isAlphanumeric (u : UInt16) : Bool :=
  isDigit u || (0x41 ≤ u && u ≤ 0x5A) || (0x61 ≤ u && u ≤ 0x7A)

/-- The table of named references, from what follows the ampersand (with the semicolon, where the
name has one) to what it stands for. -/
structure NamedReferences where
  expansion : Str → Option Str
  /-- No reference stands for more than its name is long. -/
  expansion_length : ∀ name text, expansion name = some text → text.length ≤ name.length
  name_head : ∀ name text, expansion name = some text → ∃ u rest,
    name = u :: rest ∧ isAlphanumeric u = true
  name_units : ∀ name text, expansion name = some text →
    ∀ u ∈ name, isAlphanumeric u = true ∨ u = unit ';'

/-- The code points that numeric references to C1 controls stand for. -/
def c1Table : List (ℕ × ℕ) :=
  [(0x80, 0x20AC), (0x82, 0x201A), (0x83, 0x0192), (0x84, 0x201E), (0x85, 0x2026), (0x86, 0x2020),
   (0x87, 0x2021), (0x88, 0x02C6), (0x89, 0x2030), (0x8A, 0x0160), (0x8B, 0x2039), (0x8C, 0x0152),
   (0x8E, 0x017D), (0x91, 0x2018), (0x92, 0x2019), (0x93, 0x201C), (0x94, 0x201D), (0x95, 0x2022),
   (0x96, 0x2013), (0x97, 0x2014), (0x98, 0x02DC), (0x99, 0x2122), (0x9A, 0x0161), (0x9B, 0x203A),
   (0x9C, 0x0153), (0x9E, 0x017E), (0x9F, 0x0178)]

/-- What a numeric reference stands for. -/
def charRef (n : ℕ) : Str :=
  if n = 0 ∨ 0x10FFFF < n ∨ (0xD800 ≤ n ∧ n ≤ 0xDFFF) then [0xFFFD]
  else unitsOfChar (Char.ofNat ((c1Table.lookup n).getD n))

/-- A semicolon belongs to the reference it follows. -/
def semicolon (rest : Str) : ℕ := if rest.head? = some (unit ';') then 1 else 0

/-- A decimal reference after `&#`: its length and what it stands for. -/
def decimal (s : Str) : Option (ℕ × Str) :=
  let ds := s.takeWhile isDigit
  if ds = [] then none
  else some (ds.length + semicolon (s.drop ds.length), charRef (natOfDigits ds))

/-- A hexadecimal reference after `&#x`. -/
def hexadecimal (s : Str) : Option (ℕ × Str) :=
  let ds := s.takeWhile isHexDigit
  if ds = [] then none
  else some (ds.length + semicolon (s.drop ds.length),
    charRef (ds.foldl (fun acc d => acc * 16 + hexDigitValue d) 0))

section

variable (table : NamedReferences)

/-- The longest name that the text starts with. -/
def named (s : Str) : Option (ℕ × Str) :=
  (List.range (s.length + 1)).reverse.findSome? fun k =>
    (table.expansion (s.take k)).map fun text => (k, text)

/-- A reference, after its ampersand. -/
def reference : Str → Option (ℕ × Str)
  | [] => none
  | c :: s =>
    if c = unit '#' then
      match s with
      | [] => none
      | x :: t =>
        if x = unit 'x' ∨ x = unit 'X' then (hexadecimal t).map fun r => (r.1 + 2, r.2)
        else (decimal (x :: t)).map fun r => (r.1 + 1, r.2)
    else if isAlphanumeric c then named table (c :: s)
    else none

/-- Replace the references; the first argument counts the units that are already read. -/
def replaceFrom : ℕ → Str → Str
  | _, [] => []
  | k + 1, _ :: s => replaceFrom k s
  | 0, c :: s =>
    if c = unit '&' then
      match reference table s with
      | some (k, text) => text ++ replaceFrom k s
      | none => c :: replaceFrom 0 s
    else c :: replaceFrom 0 s

/-! ## The text -/

def normalizeNewlines : Str → Str
  | [] => []
  | [c] => [if c = 13 then 10 else c]
  | c :: d :: s =>
    if c = 13 then
      if d = 10 then 10 :: normalizeNewlines s else 10 :: normalizeNewlines (d :: s)
    else c :: normalizeNewlines (d :: s)

/-- The text that markup without tags stands for. -/
def textOf (s : Str) : Str := (replaceFrom table 0 (normalizeNewlines s)).filter (· ≠ 0)

/-- The shortest forms of a character reference, without the ampersand. -/
inductive Reference : Str → Prop
  | decimal (d : UInt16) : isDigit d = true → Reference [unit '#', d]
  | hexadecimal (x d : UInt16) : x = unit 'x' ∨ x = unit 'X' → isHexDigit d = true →
      Reference [unit '#', x, d]
  | named (name text : Str) : table.expansion name = some text → Reference name

/-- Nothing in the text is a character reference. -/
def NoReference (s : Str) : Prop := ∀ ref, Reference table ref → ¬ unit '&' :: ref <:+: s

/-- The text means itself. -/
structure Literal (s : Str) : Prop where
  cr : 13 ∉ s
  nul : 0 ∉ s
  reference : NoReference table s

end

/-! ## References shrink -/

section

variable {table : NamedReferences} {s t : Str} {k : ℕ} {text : Str}

theorem charRef_length (n : ℕ) : (charRef n).length ≤ 2 := by
  unfold charRef unitsOfChar
  split_ifs <;> simp

theorem named_eq_none : named table s = none ↔ ∀ name, name <+: s → table.expansion name = none := by
  simp only [named, List.findSome?_eq_none_iff, List.mem_reverse, List.mem_range,
    Option.map_eq_none_iff]
  constructor
  · intro h name hname
    have hlen := hname.length_le
    have htake := h name.length (by omega)
    rwa [← List.prefix_iff_eq_take.mp hname] at htake
  · intro h k _
    exact h _ (List.take_prefix k s)

theorem named_eq_some (h : named table s = some (k, text)) :
    ∃ name, name.length = k ∧ k ≤ s.length ∧ table.expansion name = some text := by
  rcases List.exists_of_findSome?_eq_some h with ⟨n, hn, hfound⟩
  rcases Option.map_eq_some_iff.mp hfound with ⟨text', htext, hpair⟩
  rcases Prod.mk.inj hpair with ⟨rfl, rfl⟩
  have hle : n ≤ s.length := by
    have hlt := List.mem_range.mp (List.mem_reverse.mp hn)
    omega
  exact ⟨s.take n, by simp [hle], hle, htext⟩

theorem decimal_eq_none : decimal s = none ↔ ∀ d t, s = d :: t → isDigit d = false := by
  cases s with
  | nil => simp [decimal]
  | cons d t => cases hd : isDigit d <;> simp [decimal, hd]

theorem hexadecimal_eq_none : hexadecimal s = none ↔ ∀ d t, s = d :: t → isHexDigit d = false := by
  cases s with
  | nil => simp [hexadecimal]
  | cons d t => cases hd : isHexDigit d <;> simp [hexadecimal, hd]

theorem semicolon_le (s : Str) : semicolon s ≤ s.length := by
  unfold semicolon
  cases s with
  | nil => simp
  | cons c s => split_ifs <;> simp

/-- A run of digits and its semicolon. -/
theorem digits_bounds {p : UInt16 → Bool} (hne : s.takeWhile p ≠ []) :
    1 ≤ (s.takeWhile p).length ∧
      (s.takeWhile p).length + semicolon (s.drop (s.takeWhile p).length) ≤ s.length := by
  have hpos := List.length_pos_of_ne_nil hne
  have hle := (List.takeWhile_prefix p (l := s)).length_le
  have hsemi := semicolon_le (s.drop (s.takeWhile p).length)
  rw [List.length_drop] at hsemi
  exact ⟨hpos, by omega⟩

theorem decimal_bounds (h : decimal s = some (k, text)) : text.length ≤ k + 1 ∧ k ≤ s.length := by
  simp only [decimal] at h
  split_ifs at h with hds
  rcases Prod.mk.inj (Option.some.inj h) with ⟨rfl, rfl⟩
  have hlen := charRef_length (natOfDigits (s.takeWhile isDigit))
  have hds := digits_bounds hds
  omega

theorem hexadecimal_bounds (h : hexadecimal s = some (k, text)) :
    text.length ≤ k + 1 ∧ k ≤ s.length := by
  simp only [hexadecimal] at h
  split_ifs at h with hds
  rcases Prod.mk.inj (Option.some.inj h) with ⟨rfl, rfl⟩
  have hlen := charRef_length
    ((s.takeWhile isHexDigit).foldl (fun acc d => acc * 16 + hexDigitValue d) 0)
  have hds := digits_bounds hds
  omega

theorem reference_hexadecimal {x : UInt16} (hx : x = unit 'x' ∨ x = unit 'X') (s : Str) :
    reference table (unit '#' :: x :: s) = (hexadecimal s).map fun r => (r.1 + 2, r.2) := by
  simp only [reference, if_true, hx]

theorem reference_decimal {d : UInt16} (hd : ¬ (d = unit 'x' ∨ d = unit 'X')) (s : Str) :
    reference table (unit '#' :: d :: s) = (decimal (d :: s)).map fun r => (r.1 + 1, r.2) := by
  simp only [reference, if_true, hd, if_false]

theorem reference_named {c : UInt16} (hc : isAlphanumeric c = true) (s : Str) :
    reference table (c :: s) = named table (c :: s) := by
  have hne : c ≠ unit '#' := by
    rintro rfl
    exact absurd hc (by decide)
  simp only [reference, hne, if_false, hc, if_true]

/-- A reference lies within the text, and what it stands for is not longer than what follows its
ampersand. -/
theorem reference_bounds (h : reference table s = some (k, text)) :
    text.length ≤ k ∧ k ≤ s.length := by
  cases s with
  | nil => cases h
  | cons c s =>
    by_cases hc : c = unit '#'
    · subst hc
      cases s with
      | nil => cases h
      | cons x t =>
        by_cases hx : x = unit 'x' ∨ x = unit 'X'
        · rw [reference_hexadecimal hx] at h
          rcases Option.map_eq_some_iff.mp h with ⟨⟨k', text'⟩, hread, hpair⟩
          rcases Prod.mk.inj hpair with ⟨rfl, rfl⟩
          rcases hexadecimal_bounds hread with ⟨htext, hk⟩
          simp only [List.length_cons]
          exact ⟨by omega, by omega⟩
        · rw [reference_decimal hx] at h
          rcases Option.map_eq_some_iff.mp h with ⟨⟨k', text'⟩, hread, hpair⟩
          rcases Prod.mk.inj hpair with ⟨rfl, rfl⟩
          rcases decimal_bounds hread with ⟨htext, hk⟩
          simp only [List.length_cons] at hk ⊢
          exact ⟨htext, by omega⟩
    · simp only [reference, hc, if_false] at h
      split_ifs at h with halpha
      rcases named_eq_some h with ⟨name, rfl, hle, htext⟩
      exact ⟨table.expansion_length name text htext, hle⟩

/-- The reader finds a reference exactly where one starts. -/
theorem reference_eq_none :
    reference table s = none ↔ ∀ ref, Reference table ref → ¬ ref <+: s := by
  constructor
  · rintro h ref href ⟨rest, rfl⟩
    cases href with
    | decimal d hd =>
      have hne : ¬ (d = unit 'x' ∨ d = unit 'X') := by
        rintro (rfl | rfl)
        · exact absurd hd (by decide)
        · exact absurd hd (by decide)
      simp only [List.cons_append, List.nil_append] at h
      rw [reference_decimal hne, Option.map_eq_none_iff, decimal_eq_none] at h
      simp [h d rest rfl] at hd
    | hexadecimal x d hx hd =>
      simp only [List.cons_append, List.nil_append] at h
      rw [reference_hexadecimal hx, Option.map_eq_none_iff, hexadecimal_eq_none] at h
      simp [h d rest rfl] at hd
    | named _ text htext =>
      rcases table.name_head ref text htext with ⟨u, tail, rfl, hu⟩
      rw [List.cons_append, reference_named hu, named_eq_none] at h
      rw [h _ (List.prefix_append (u :: tail) rest)] at htext
      cases htext
  · intro h
    cases s with
    | nil => rfl
    | cons c s =>
      by_cases hc : c = unit '#'
      · subst hc
        cases s with
        | nil => rfl
        | cons x t =>
          by_cases hx : x = unit 'x' ∨ x = unit 'X'
          · rw [reference_hexadecimal hx, Option.map_eq_none_iff, hexadecimal_eq_none]
            rintro d s rfl
            by_contra hd
            exact h _ (.hexadecimal x d hx (by simpa using hd)) ⟨s, rfl⟩
          · rw [reference_decimal hx, Option.map_eq_none_iff, decimal_eq_none]
            intro d s heq
            rcases List.cons.inj heq with ⟨rfl, rfl⟩
            by_contra hd
            exact h _ (.decimal x (by simpa using hd)) ⟨t, rfl⟩
      · cases halpha : isAlphanumeric c with
        | false => simp [reference, hc, halpha]
        | true =>
          rw [reference_named halpha, named_eq_none]
          intro name hname
          by_contra hne
          rcases Option.ne_none_iff_exists'.mp hne with ⟨text, htext⟩
          exact h name (.named name text htext) hname

theorem replaceFrom_length (k : ℕ) (s : Str) : (replaceFrom table k s).length ≤ s.length - k := by
  fun_induction replaceFrom table k s with
  | case1 => simp
  | case2 k c s ih =>
    simp only [List.length_cons]
    omega
  | case3 s k text href ih =>
    rcases reference_bounds href with ⟨htext, hk⟩
    simp only [List.length_append, List.length_cons]
    omega
  | case4 s href ih =>
    simp only [List.length_cons]
    omega
  | case5 c s hc ih =>
    simp only [List.length_cons]
    omega

/-! ## Texts that mean themselves -/

theorem noReference_cons {c : UInt16} : NoReference table (c :: s) ↔
    (c = unit '&' → reference table s = none) ∧ NoReference table s := by
  simp only [NoReference, List.infix_cons_iff, List.cons_prefix_cons, reference_eq_none]
  constructor
  · intro h
    exact ⟨fun hc ref href hpre => h ref href (Or.inl ⟨hc.symm, hpre⟩),
      fun ref href hin => h ref href (Or.inr hin)⟩
  · rintro ⟨hhead, htail⟩ ref href (⟨hc, hpre⟩ | hin)
    · exact hhead hc.symm ref href hpre
    · exact htail ref href hin

theorem replaceFrom_of_noReference (h : NoReference table s) : replaceFrom table 0 s = s := by
  induction s with
  | nil => rfl
  | cons c s ih =>
    rcases noReference_cons.mp h with ⟨hhead, htail⟩
    by_cases hc : c = unit '&'
    · simp [replaceFrom, hc, hhead hc, ih htail]
    · simp [replaceFrom, hc, ih htail]

/-- A text with a reference shrinks. -/
theorem replaceFrom_lt (h : ¬ NoReference table s) :
    (replaceFrom table 0 s).length < s.length := by
  induction s with
  | nil =>
    refine absurd ?_ h
    intro ref _ hin
    exact absurd (List.infix_nil.mp hin) (by simp)
  | cons c s ih =>
    by_cases hc : c = unit '&'
    · cases href : reference table s with
      | none =>
        -- no reference starts here, so it is further on
        have htail : ¬ NoReference table s := by
          intro htail
          exact h (noReference_cons.mpr ⟨fun _ => href, htail⟩)
        simpa [replaceFrom, hc, href] using ih htail
      | some r =>
        -- the ampersand goes, and the reference gets no longer
        rcases r with ⟨k, text⟩
        rcases reference_bounds href with ⟨htext, hk⟩
        have hrest : (replaceFrom table k s).length ≤ s.length - k := replaceFrom_length k s
        simp only [replaceFrom, hc, if_true, href, List.length_append, List.length_cons]
        omega
    · have htail : ¬ NoReference table s := by
        intro htail
        exact h (noReference_cons.mpr ⟨fun hc' => absurd hc' hc, htail⟩)
      simpa [replaceFrom, hc] using ih htail

theorem normalizeNewlines_length (s : Str) : (normalizeNewlines s).length ≤ s.length := by
  fun_induction normalizeNewlines s with
  | case1 => simp
  | case2 c => simp
  | case3 s ih =>
    simp only [List.length_cons]
    omega
  | case4 d s hd ih =>
    simp only [List.length_cons] at ih ⊢
    omega
  | case5 c d s hc ih =>
    simp only [List.length_cons] at ih ⊢
    omega

theorem cr_normalizeNewlines (s : Str) : 13 ∉ normalizeNewlines s := by
  fun_induction normalizeNewlines s with
  | case1 => simp
  | case2 c =>
    by_cases hc : c = 13
    · simp [hc]
    · simp [hc, Ne.symm hc]
  | case3 s ih => simp [ih]
  | case4 d s hd ih => simpa using ih
  | case5 c d s hc ih => simpa [Ne.symm hc] using ih

theorem normalizeNewlines_of_cr (h : 13 ∉ s) : normalizeNewlines s = s := by
  fun_induction normalizeNewlines s with
  | case1 => rfl
  | case2 c =>
    have hc : c ≠ 13 := by
      rintro rfl
      simp at h
    simp [hc]
  | case3 s ih => simp at h
  | case4 d s hd ih => simp at h
  | case5 c d s hc ih =>
    rw [ih]
    exact fun hm => h (List.mem_cons_of_mem _ hm)

/-- A text means itself exactly when it is literal: each step of the reading keeps the length or
shortens the text, so each must have kept it. -/
theorem textOf_eq_self_iff : textOf table s = s ↔ Literal table s := by
  constructor
  · intro h
    have hfilter := List.length_filter_le (· ≠ (0 : UInt16))
      (replaceFrom table 0 (normalizeNewlines s))
    have hreplace : (replaceFrom table 0 (normalizeNewlines s)).length ≤
        (normalizeNewlines s).length - 0 := replaceFrom_length 0 _
    have hnewlines := normalizeNewlines_length s
    have htext : ((replaceFrom table 0 (normalizeNewlines s)).filter (· ≠ 0)).length = s.length :=
      congrArg List.length h
    have hnone : NoReference table (normalizeNewlines s) := by
      by_contra hsome
      have hlt := replaceFrom_lt hsome
      omega
    have hkept : textOf table s = (normalizeNewlines s).filter (· ≠ 0) := by
      rw [textOf, replaceFrom_of_noReference hnone]
    have hall : (normalizeNewlines s).filter (· ≠ 0) = normalizeNewlines s := by
      apply List.filter_sublist.eq_of_length
      rw [← hkept, h]
      omega
    have hsame : normalizeNewlines s = s := by rw [← hall, ← hkept, h]
    constructor
    · rw [← hsame]
      exact cr_normalizeNewlines s
    · rw [← h]
      simp [textOf]
    · rwa [hsame] at hnone
  · intro h
    rw [textOf, normalizeNewlines_of_cr h.cr, replaceFrom_of_noReference h.reference,
      List.filter_eq_self]
    intro u hu
    have hne : u ≠ 0 := by
      rintro rfl
      exact h.nul hu
    simpa using hne

theorem isAlphanumeric_of_isHexDigit {u : UInt16} (h : isHexDigit u = true) :
    isAlphanumeric u = true := by
  have hupper : (0x46 : UInt16) ≤ 0x5A := by decide
  have hlower : (0x66 : UInt16) ≤ 0x7A := by decide
  simp only [isHexDigit, Bool.or_eq_true, Bool.and_eq_true, decide_eq_true_eq] at h
  simp only [isAlphanumeric, Bool.or_eq_true, Bool.and_eq_true, decide_eq_true_eq]
  rcases h with (h | h) | h
  · exact Or.inl (Or.inl h)
  · exact Or.inl (Or.inr ⟨h.1, UInt16.le_trans h.2 hupper⟩)
  · exact Or.inr ⟨h.1, UInt16.le_trans h.2 hlower⟩

theorem Reference.units {ref : Str} (h : Reference table ref) :
    ∀ u ∈ ref, isAlphanumeric u = true ∨ u = unit ';' ∨ u = unit '#' := by
  intro u hu
  cases h with
  | decimal d hd =>
    simp only [List.mem_cons, List.not_mem_nil, or_false] at hu
    rcases hu with rfl | rfl
    · exact Or.inr (Or.inr rfl)
    · exact Or.inl (by simp [isAlphanumeric, hd])
  | hexadecimal x d hx hd =>
    simp only [List.mem_cons, List.not_mem_nil, or_false] at hu
    rcases hu with rfl | rfl | rfl
    · exact Or.inr (Or.inr rfl)
    · exact Or.inl (by rcases hx with rfl | rfl <;> decide)
    · exact Or.inl (isAlphanumeric_of_isHexDigit hd)
  | named _ text htext =>
    rcases table.name_units ref text htext u hu with halpha | hsemi
    · exact Or.inl halpha
    · exact Or.inr (Or.inl hsemi)

/-- A unit that is part of no reference and means itself. -/
structure Delimiter (u : UInt16) : Prop where
  alphanumeric : isAlphanumeric u = false
  semicolon : u ≠ unit ';'
  hash : u ≠ unit '#'
  ampersand : u ≠ unit '&'
  cr : u ≠ 13
  nul : u ≠ 0

theorem Delimiter.notMem_reference {u : UInt16} (hu : Delimiter u) {ref : Str}
    (h : Reference table ref) : u ∉ unit '&' :: ref := by
  intro hm
  rcases List.mem_cons.mp hm with rfl | hm
  · exact hu.ampersand rfl
  · rcases h.units u hm with halpha | hsemi | hhash
    · exact absurd halpha (by simp [hu.alphanumeric])
    · exact hu.semicolon hsemi
    · exact hu.hash hhash

/-- A delimiter in front neither makes a reference nor breaks one. -/
theorem literal_cons {u : UInt16} (hu : Delimiter u) :
    Literal table (u :: s) ↔ Literal table s := by
  have href : NoReference table (u :: s) ↔ NoReference table s := by
    rw [noReference_cons]
    exact ⟨fun h => h.2, fun h => ⟨fun hamp => absurd hamp hu.ampersand, h⟩⟩
  constructor
  · intro h
    exact ⟨fun hm => h.cr (List.mem_cons_of_mem _ hm), fun hm => h.nul (List.mem_cons_of_mem _ hm),
      href.mp h.reference⟩
  · intro h
    exact ⟨by simp [hu.cr.symm, h.cr], by simp [hu.nul.symm, h.nul], href.mpr h.reference⟩

/-- Nor does one at the end. -/
theorem literal_concat {u : UInt16} (hu : Delimiter u) :
    Literal table (s ++ [u]) ↔ Literal table s := by
  have href : NoReference table (s ++ [u]) ↔ NoReference table s := by
    constructor
    · intro h ref hr hin
      exact h ref hr (hin.trans (List.prefix_append s [u]).isInfix)
    · intro h ref hr hin
      -- a reference at the end would contain the delimiter
      rcases List.infix_concat_iff.mp hin with hsuffix | hin
      · rcases List.suffix_concat_iff.mp hsuffix with hnil | ⟨t, ht, _⟩
        · cases hnil
        · exact hu.notMem_reference hr (ht ▸ by simp)
      · exact h ref hr hin
  constructor
  · intro h
    exact ⟨fun hm => h.cr (by simp [hm]), fun hm => h.nul (by simp [hm]), href.mp h.reference⟩
  · intro h
    exact ⟨by simp [hu.cr.symm, h.cr], by simp [hu.nul.symm, h.nul], href.mpr h.reference⟩

theorem literal_of_notMem (hamp : unit '&' ∉ s) (hcr : 13 ∉ s) (hnul : 0 ∉ s) :
    Literal table s := by
  refine ⟨hcr, hnul, ?_⟩
  intro ref _ hin
  exact hamp (hin.subset List.mem_cons_self)

end

end Html
