import Doppelganger.Lib.Text

/-!
# Rules for paths

A rule is a list of parts, one for each segment of a path: a text, or an argument that takes any
segment but an empty one. `bind` reads the arguments out of a path, `path` puts them in.
`bind_eq_some_iff`: each undoes the other. Two rules take the same path only if they `overlap`.
-/

open Text

namespace UrlMap

inductive Part where
  | text (s : Str)
  | arg
deriving DecidableEq

def slash : UInt16 := unit '/'

/-- A text is one segment. -/
def Part.clean : Part → Bool
  | .text s => slash ∉ s
  | .arg => true

/-- The segments of a path, which starts with a slash. -/
def segments : Str → Option (List Str)
  | [] => none
  | c :: s => if c = slash then some (s.splitOn slash) else none

def bindSegments : List Part → List Str → Option (List Str)
  | [], [] => some []
  | .text s :: parts, x :: xs => if x = s then bindSegments parts xs else none
  | .arg :: parts, x :: xs => if x = [] then none else (bindSegments parts xs).map (x :: ·)
  | _, _ => none

/-- The arguments of a path that follows the rule. -/
def bind (parts : List Part) (path : Str) : Option (List Str) :=
  (segments path).bind (bindSegments parts)

def fill : List Part → List Str → List Str
  | [], _ => []
  | .text s :: parts, args => s :: fill parts args
  | .arg :: parts, args => args.headD [] :: fill parts args.tail

/-- The path with these arguments. -/
def path (parts : List Part) (args : List Str) : Str :=
  slash :: [slash].intercalate (fill parts args)

/-- The arguments are as many as the rule has, and each of them is a segment. -/
def Fits : List Part → List Str → Prop
  | [], args => args = []
  | .text _ :: parts, args => Fits parts args
  | .arg :: parts, a :: args => a ≠ [] ∧ slash ∉ a ∧ Fits parts args
  | .arg :: _, [] => False

/-- There may be a path that follows both rules. -/
def overlap : List Part → List Part → Bool
  | [], [] => true
  | .text s :: parts, .text s' :: parts' => s == s' && overlap parts parts'
  | .text s :: parts, .arg :: parts' => s != [] && overlap parts parts'
  | .arg :: parts, .text s' :: parts' => s' != [] && overlap parts parts'
  | .arg :: parts, .arg :: parts' => overlap parts parts'
  | _, _ => false

variable {parts parts' : List Part} {args args' xs : List Str} {s : Str}

theorem slash_notMem_of_mem_splitOn {t : Str} (h : s ∈ t.splitOn slash) : slash ∉ s := by
  induction t generalizing s with
  | nil =>
    obtain rfl : s = [] := by simpa using h
    simp
  | cons c t ih =>
    rw [List.splitOn_cons_eq_if_modifyHead] at h
    split_ifs at h with hc
    · rcases List.mem_cons.mp h with rfl | h
      · simp
      · exact ih h
    · cases hsplit : t.splitOn slash with
      | nil => exact absurd hsplit (List.splitOn_ne_nil _ _)
      | cons x rest =>
        rw [hsplit] at h ih
        rcases List.mem_cons.mp h with rfl | h
        · have hx := ih List.mem_cons_self
          simp only [List.mem_cons, not_or]
          exact ⟨fun heq => hc (by simp [heq]), hx⟩
        · exact ih (List.mem_cons_of_mem _ h)

/-- Segments that a rule takes are those it has. -/
theorem bindSegments_eq_some_iff (hxs : ∀ x ∈ xs, slash ∉ x) :
    bindSegments parts xs = some args ↔ xs = fill parts args ∧ Fits parts args := by
  induction parts generalizing xs args with
  | nil =>
    cases xs with
    | nil => simp [bindSegments, fill, Fits, eq_comm]
    | cons x xs => simp [bindSegments, fill]
  | cons part parts ih =>
    cases xs with
    | nil => cases part <;> simp [bindSegments, fill]
    | cons x xs =>
      have ih' : ∀ {args}, bindSegments parts xs = some args ↔
          xs = fill parts args ∧ Fits parts args := fun {_} =>
        ih fun y hy => hxs y (List.mem_cons_of_mem _ hy)
      cases part with
      | text s =>
        simp only [bindSegments, fill, Fits, List.cons.injEq]
        split_ifs with hx
        · rw [ih']
          simp [hx]
        · simp [hx]
      | arg =>
        have hx := hxs x List.mem_cons_self
        cases args with
        | nil => simp [bindSegments, Fits]
        | cons a args =>
          simp only [bindSegments, fill, Fits, List.cons.injEq, List.headD_cons, List.tail_cons]
          split_ifs with hnil
          · subst hnil
            constructor
            · intro h
              cases h
            · rintro ⟨⟨rfl, _⟩, hne, _⟩
              exact absurd rfl hne
          · simp only [Option.map_eq_some_iff, List.cons.injEq]
            constructor
            · rintro ⟨args', hargs', rfl, rfl⟩
              rcases ih'.mp hargs' with ⟨hfill, hfits⟩
              exact ⟨⟨rfl, hfill⟩, hnil, hx, hfits⟩
            · rintro ⟨⟨rfl, hfill⟩, _, _, hfits⟩
              exact ⟨args, ih'.mpr ⟨hfill, hfits⟩, rfl, rfl⟩

theorem slash_notMem_fill (hclean : parts.all Part.clean = true) (hfits : Fits parts args) :
    ∀ x ∈ fill parts args, slash ∉ x := by
  induction parts generalizing args with
  | nil => simp [fill]
  | cons part parts ih =>
    simp only [List.all_cons, Bool.and_eq_true] at hclean
    cases part with
    | text s =>
      intro x hx
      rcases List.mem_cons.mp hx with rfl | hx
      · simpa [Part.clean] using hclean.1
      · exact ih hclean.2 hfits x hx
    | arg =>
      cases args with
      | nil => exact hfits.elim
      | cons a args =>
        intro x hx
        rcases List.mem_cons.mp hx with rfl | hx
        · exact hfits.2.1
        · exact ih hclean.2 hfits.2.2 x hx

/-- A path that follows a rule is the path with the arguments that are read out of it. -/
theorem bind_eq_some_iff {p : Str} (hparts : parts ≠ []) (hclean : parts.all Part.clean = true) :
    bind parts p = some args ↔ p = path parts args ∧ Fits parts args := by
  constructor
  · intro h
    rcases Option.bind_eq_some_iff.mp h with ⟨xs, hxs, hbind⟩
    cases p with
    | nil => cases hxs
    | cons c s =>
      simp only [segments] at hxs
      split_ifs at hxs with hc
      obtain rfl := Option.some.inj hxs
      rcases (bindSegments_eq_some_iff fun _ => slash_notMem_of_mem_splitOn).mp hbind with
        ⟨hfill, hfits⟩
      refine ⟨?_, hfits⟩
      rw [path, ← hfill, List.intercalate_splitOn, hc]
  · rintro ⟨rfl, hfits⟩
    have hfill := slash_notMem_fill hclean hfits
    have hne : fill parts args ≠ [] := by
      cases parts with
      | nil => exact absurd rfl hparts
      | cons part parts => cases part <;> simp [fill]
    have hsplit := List.splitOn_intercalate slash hfill hne
    simp only [bind, path, segments, if_true, Option.bind_some, hsplit]
    exact (bindSegments_eq_some_iff hfill).mpr ⟨rfl, hfits⟩

/-- Only rules that overlap take the same path. -/
theorem overlap_of_bindSegments (h : bindSegments parts xs = some args)
    (h' : bindSegments parts' xs = some args') : overlap parts parts' = true := by
  induction xs generalizing parts parts' args args' with
  | nil =>
    have hnil : ∀ {parts args}, bindSegments parts [] = some args → parts = [] := by
      intro parts args h
      rcases parts with _ | ⟨_ | _, rest⟩
      · rfl
      · cases h
      · cases h
    rw [hnil h, hnil h']
    rfl
  | cons x xs ih =>
    -- what either rule says of the first segment, and of the rest
    have hhead : ∀ {parts args}, bindSegments parts (x :: xs) = some args →
        ∃ part rest args', parts = part :: rest ∧ bindSegments rest xs = some args' ∧
          (part = .text x ∨ part = .arg ∧ x ≠ []) := by
      intro parts args h
      rcases parts with _ | ⟨s | _, rest⟩
      · cases h
      · simp only [bindSegments] at h
        split_ifs at h with hx
        exact ⟨_, rest, args, rfl, h, Or.inl (by rw [hx])⟩
      · simp only [bindSegments] at h
        split_ifs at h with hx
        rcases Option.map_eq_some_iff.mp h with ⟨args', hargs', _⟩
        exact ⟨_, rest, args', rfl, hargs', Or.inr ⟨rfl, hx⟩⟩
    rcases hhead h with ⟨part, rest, args₁, rfl, hrest, hpart⟩
    rcases hhead h' with ⟨part', rest', args₁', rfl, hrest', hpart'⟩
    have hoverlap := ih hrest hrest'
    rcases hpart with rfl | ⟨rfl, hne⟩ <;> rcases hpart' with rfl | ⟨rfl, hne'⟩ <;>
      simp_all [overlap]

end UrlMap
