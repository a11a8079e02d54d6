-- Documents: what a JSON text says, with every number as it is spelled. A text
-- may have blanks wherever JSON allows them and may spell its characters in any
-- way; what stands behind a document is told with it, so that a text is taken
-- apart from the front.
import Mathlib.Data.List.Forall2
import SeededStreams.Proofs.Json.Numbers

namespace SeededStreams.Json

/-! ## Blanks -/

/-- Nothing but blanks stands before the second text. -/
inductive Blanks : List Char → List Char → Prop where
  | none (s : List Char) : Blanks s s
  | more {c : Char} {s t : List Char} : isBlank c = true → Blanks s t → Blanks (c :: s) t

theorem Blanks.dropBlank_eq {s t : List Char} (h : Blanks s t) : dropBlank s = dropBlank t := by
  induction h with
  | none s => rfl
  | more hc _ ih => exact (List.dropWhile_cons_of_pos hc).trans ih

theorem Blanks.dropBlank_eq_cons {s t : List Char} {c : Char} (h : Blanks s (c :: t))
    (hc : isBlank c = false) : dropBlank s = c :: t :=
  h.dropBlank_eq.trans (dropBlank_cons t hc)

theorem Blanks.length_le {s t : List Char} (h : Blanks s t) : t.length ≤ s.length := by
  induction h with
  | none s => exact Nat.le_refl _
  | more _ _ ih => exact Nat.le_succ_of_le ih

/-! ## Strings -/

namespace Quoted

/-- A character is spelled at the front of a text, with the second text behind it. -/
inductive Spelled : Char → List Char → List Char → Prop where
  | plain {c : Char} {s : List Char} : 0x20 ≤ c.toNat → c ≠ '"' → c ≠ '\\' → Spelled c (c :: s) s
  | escaped {c letter : Char} {s : List Char} : escaped? letter = some c →
      Spelled c ('\\' :: letter :: s) s
  | codeUnit {a b c d : Char} {u : Nat} {s : List Char} : codeUnit? a b c d = some u →
      isFirstHalf u = false → isSecondHalf u = false →
      Spelled (Char.ofNat u) ('\\' :: 'u' :: a :: b :: c :: d :: s) s
  | pair {a b c d p q r z : Char} {u v : Nat} {s : List Char} : codeUnit? a b c d = some u →
      isFirstHalf u = true → codeUnit? p q r z = some v → isSecondHalf v = true →
      Spelled (pairChar u v)
        ('\\' :: 'u' :: a :: b :: c :: d :: '\\' :: 'u' :: p :: q :: r :: z :: s) s

/-- A string stands at the front of a text, from behind its opening quote. -/
inductive Stands : List Char → List Char → List Char → Prop where
  | nil (t : List Char) : Stands [] ('"' :: t) t
  | cons {c : Char} {w s u t : List Char} : Spelled c s u → Stands w u t → Stands (c :: w) s t

/-- Whether a character may stand for itself. -/
def isPlain (c : Char) : Bool := decide (0x20 ≤ c.toNat) && c != '"' && c != '\\'

/-- A string of plain characters stands as it is. -/
theorem stands_plain {w : List Char} (h : w.all isPlain = true) (t : List Char) :
    Stands w (w ++ '"' :: t) t := by
  induction w with
  | nil => exact .nil t
  | cons c w ih =>
    simp only [List.all_cons, isPlain, Bool.and_eq_true, decide_eq_true_eq, bne_iff_ne] at h
    obtain ⟨⟨⟨hcontrol, hquote⟩, hbackslash⟩, hw⟩ := h
    exact .cons (.plain hcontrol hquote hbackslash) (ih hw)

theorem not_isSecondHalf_of_isFirstHalf {u : Nat} (h : isFirstHalf u = true) :
    isSecondHalf u = false := by
  simp only [isFirstHalf, Bool.and_eq_true, decide_eq_true_eq] at h
  simp only [isSecondHalf, Bool.and_eq_false_iff, decide_eq_false_iff_not]
  omega

/-- A letter that may be escaped alone begins no code unit. -/
theorem ne_u_of_escaped? {c letter : Char} (h : escaped? letter = some c) : letter ≠ 'u' := by
  rintro rfl
  cases h

theorem Spelled.read {c : Char} {s u : List Char} (h : Spelled c s u) :
    Quoted.read s = push c (Quoted.read u) := by
  cases h with
  | plain hcontrol hquote hbackslash =>
    simp [Quoted.read, hbackslash, Nat.not_lt.mpr hcontrol]
  | escaped hletter =>
    have hu := ne_u_of_escaped? hletter
    simp [Quoted.read, hu, hletter]
  | codeUnit hunit hfirst hsecond => simp [Quoted.read, hunit, hfirst, hsecond]
  | pair hunit hfirst hnext hsecond =>
    simp [Quoted.read, hunit, hfirst, not_isSecondHalf_of_isFirstHalf hfirst, hnext, hsecond]

theorem Spelled.skip {c : Char} {s u : List Char} (h : Spelled c s u) :
    Quoted.skip s = Quoted.skip u := by
  cases h with
  | plain hcontrol hquote hbackslash =>
    simp [Quoted.skip, hbackslash, Nat.not_lt.mpr hcontrol]
  | escaped hletter =>
    have hu := ne_u_of_escaped? hletter
    simp [Quoted.skip, hu, hletter]
  | codeUnit hunit _ _ => simp [Quoted.skip, hunit]
  | pair hunit _ hnext _ => simp [Quoted.skip, hunit, hnext]

theorem Stands.read {w s t : List Char} (h : Stands w s t) : Quoted.read s = .ok (w, t) := by
  induction h with
  | nil t => rfl
  | cons hc _ ih =>
    rw [hc.read, ih]
    rfl

theorem Stands.skip {w s t : List Char} (h : Stands w s t) : Quoted.skip s = .ok t := by
  induction h with
  | nil t => rfl
  | cons hc _ ih => rw [hc.skip, ih]

theorem Spelled.length_lt {c : Char} {s u : List Char} (h : Spelled c s u) :
    u.length < s.length := by
  cases h <;> simp only [List.length_cons] <;> omega

theorem Stands.length_lt {w s t : List Char} (h : Stands w s t) : t.length < s.length := by
  induction h with
  | nil t => exact Nat.lt_succ_self _
  | cons hc _ ih => exact Nat.lt_trans ih hc.length_lt

end Quoted

/-! ## Lists and objects -/

/-- The way to the next part of a list or an object: blanks, and a comma among
them unless the part is the first one. -/
inductive Onward : (first : Bool) → List Char → List Char → Prop where
  | first {s t : List Char} : Blanks s t → Onward true s t
  | comma {s t u : List Char} : Blanks s (',' :: t) → Blanks t u → Onward false s u

section Parts

variable {δ : Type}

/-- Elements stand at the front of a text, with the end of their list. -/
inductive Elements (stands : δ → List Char → List Char → Prop) :
    (first : Bool) → List δ → List Char → List Char → Prop where
  | done {first : Bool} {s t : List Char} : Blanks s (']' :: t) → Elements stands first [] s t
  | more {first : Bool} {d : δ} {ds : List δ} {s u v t : List Char} : Onward first s u →
      stands d u v → Elements stands false ds v t → Elements stands first (d :: ds) s t

/-- Members stand at the front of a text, with the end of their object. -/
inductive Members (stands : δ → List Char → List Char → Prop) :
    (first : Bool) → List (List Char × δ) → List Char → List Char → Prop where
  | done {first : Bool} {s t : List Char} : Blanks s ('\x7d' :: t) → Members stands first [] s t
  | more {first : Bool} {key : List Char} {d : δ} {ms : List (List Char × δ)}
      {s k c w u v t : List Char} : Onward first s ('"' :: k) → Quoted.Stands key k c →
      Blanks c (':' :: w) → Blanks w u → stands d u v → Members stands false ms v t →
      Members stands first ((key, d) :: ms) s t

/-- What stands at the front of a text takes some of it, and begins with neither a
blank nor the end of a list. -/
structure Solid (stands : δ → List Char → List Char → Prop) : Prop where
  begins : ∀ d s t, stands d s t → ∃ c r, s = c :: r ∧ isBlank c = false ∧ c ≠ ']'
  length_lt : ∀ d s t, stands d s t → t.length < s.length

variable {stands other : δ → List Char → List Char → Prop}

theorem Onward.blanks {s t : List Char} (h : Onward true s t) : Blanks s t := by
  cases h with
  | first hblanks => exact hblanks

theorem Onward.length_le {first : Bool} {s t : List Char} (h : Onward first s t) :
    t.length ≤ s.length := by
  cases h with
  | first hblanks => exact hblanks.length_le
  | comma hcomma hblanks =>
    have hrest := hcomma.length_le
    rw [List.length_cons] at hrest
    exact Nat.le_trans hblanks.length_le (Nat.le_of_succ_le hrest)

/-- Every element takes some of the text, and so does the end of the list. -/
theorem Elements.length_lt (hsolid : Solid stands) {first : Bool} {ds : List δ} {s t : List Char}
    (h : Elements stands first ds s t) : ds.length + t.length < s.length := by
  induction h with
  | done hclose =>
    have hlength := hclose.length_le
    rw [List.length_cons] at hlength
    rw [List.length_nil]
    omega
  | more honward hstands _ ih =>
    have hlength := honward.length_le
    have hshorter := hsolid.length_lt _ _ _ hstands
    rw [List.length_cons]
    omega

theorem Members.length_lt (hsolid : Solid stands) {first : Bool} {ms : List (List Char × δ)}
    {s t : List Char} (h : Members stands first ms s t) : ms.length + t.length < s.length := by
  induction h with
  | done hclose =>
    have hlength := hclose.length_le
    rw [List.length_cons] at hlength
    rw [List.length_nil]
    omega
  | more honward hkey hcolon hblanks hstands _ ih =>
    have hlength := honward.length_le
    have hquoted := hkey.length_lt
    have hvalue := hcolon.length_le
    have hgap := hblanks.length_le
    have hshorter := hsolid.length_lt _ _ _ hstands
    rw [List.length_cons] at hlength hvalue ⊢
    omega

theorem Elements.mono (hmono : ∀ d s t, stands d s t → other d s t) {first : Bool} {ds : List δ}
    {s t : List Char} (h : Elements stands first ds s t) : Elements other first ds s t := by
  induction h with
  | done hclose => exact .done hclose
  | more honward hstands _ ih => exact .more honward (hmono _ _ _ hstands) ih

theorem Members.mono (hmono : ∀ d s t, stands d s t → other d s t) {first : Bool}
    {ms : List (List Char × δ)} {s t : List Char} (h : Members stands first ms s t) :
    Members other first ms s t := by
  induction h with
  | done hclose => exact .done hclose
  | more honward hkey hcolon hblanks hstands _ ih =>
    exact .more honward hkey hcolon hblanks (hmono _ _ _ hstands) ih

/-- A member without blanks, with a key of plain characters. -/
theorem Members.plain {key : List Char} (hkey : key.all Quoted.isPlain = true) {first : Bool}
    {d : δ} {ms : List (List Char × δ)} {s u v t : List Char}
    (honward : Onward first s ('"' :: (key ++ '"' :: ':' :: u))) (hd : stands d u v)
    (hms : Members stands false ms v t) : Members stands first ((key, d) :: ms) s t :=
  .more honward (Quoted.stands_plain hkey _) (.none _) (.none _) hd hms

end Parts

/-! ## Documents -/

/-- What a JSON text says, with every number as it is spelled. -/
inductive Document where
  | null
  | boolean (b : Bool)
  | number (n : Numeral)
  | text (w : List Char)
  | list (ds : List Document)
  | object (ms : List (List Char × Document))

namespace Document

/-- A document stands at the front of a text, when it is told how those inside it do. -/
inductive StandsWith (inside : Option (Document → List Char → List Char → Prop)) :
    Document → List Char → List Char → Prop where
  | null (t : List Char) : StandsWith inside null ('n' :: 'u' :: 'l' :: 'l' :: t) t
  | yes (t : List Char) : StandsWith inside (boolean true) ('t' :: 'r' :: 'u' :: 'e' :: t) t
  | no (t : List Char) :
      StandsWith inside (boolean false) ('f' :: 'a' :: 'l' :: 's' :: 'e' :: t) t
  | number {n : Numeral} {text t : List Char} : n.Spells text → Ended t →
      StandsWith inside (number n) (text ++ t) t
  | text {w s t : List Char} : Quoted.Stands w s t → StandsWith inside (text w) ('"' :: s) t
  | list {f : Document → List Char → List Char → Prop} {ds : List Document} {s t : List Char} :
      inside = some f → Elements f true ds s t → StandsWith inside (list ds) ('[' :: s) t
  | object {f : Document → List Char → List Char → Prop} {ms : List (List Char × Document)}
      {s t : List Char} : inside = some f → Members f true ms s t →
      StandsWith inside (object ms) ('\x7b' :: s) t

/-- A document with not more than `depth` lists and objects inside each other stands
at the front of a text. -/
def StandsUpTo : (depth : Nat) → Document → List Char → List Char → Prop
  | 0 => StandsWith none
  | depth + 1 => StandsWith (some (StandsUpTo depth))

/-- A document stands at the front of a text, with the second text behind it. -/
def Stands (d : Document) (s t : List Char) : Prop := ∃ depth, d.StandsUpTo depth s t

/-- The texts of a document. -/
def Text (d : Document) (s : List Char) : Prop :=
  ∃ u v, Blanks s u ∧ d.Stands u v ∧ Blanks v []

/-- The first character of a number begins nothing else. -/
theorem ne_of_begins_number {c b : Char} (hc : c = '-' ∨ c.isDigit = true)
    (hb : ¬(b = '-' ∨ b.isDigit = true)) : c ≠ b := by
  rintro rfl
  exact hb hc

theorem StandsWith.begins {inside : Option (Document → List Char → List Char → Prop)} {d : Document}
    {s t : List Char} (h : StandsWith inside d s t) :
    ∃ c r, s = c :: r ∧ isBlank c = false ∧ c ≠ ']' := by
  cases h with
  | number hn _ =>
    obtain ⟨c, r, rfl, hc⟩ := hn.head
    exact ⟨c, _, rfl, isBlank_of_number hc, ne_of_begins_number hc (by decide)⟩
  | _ => exact ⟨_, _, rfl, by decide, by decide⟩

theorem StandsWith.length_lt {inside : Option (Document → List Char → List Char → Prop)}
    (hinside : ∀ f, inside = some f → Solid f) {d : Document} {s t : List Char}
    (h : StandsWith inside d s t) : t.length < s.length := by
  cases h with
  | number hn _ =>
    obtain ⟨c, r, rfl, _⟩ := hn.head
    rw [List.length_append, List.length_cons]
    omega
  | text hw => exact Nat.lt_trans hw.length_lt (Nat.lt_succ_self _)
  | list hf hds =>
    have hlength := hds.length_lt (hinside _ hf)
    rw [List.length_cons]
    omega
  | object hf hms =>
    have hlength := hms.length_lt (hinside _ hf)
    rw [List.length_cons]
    omega
  | _ =>
    simp only [List.length_cons]
    omega

theorem standsUpTo_solid (depth : Nat) : Solid (StandsUpTo depth) := by
  induction depth with
  | zero =>
    exact ⟨fun _ _ _ h => StandsWith.begins h,
      fun _ _ _ h => StandsWith.length_lt (fun _ hf => by cases hf) h⟩
  | succ depth ih =>
    exact ⟨fun _ _ _ h => StandsWith.begins h,
      fun _ _ _ h => StandsWith.length_lt (fun _ hf => by cases hf; exact ih) h⟩

theorem stands_solid : Solid Stands where
  begins d s t := by
    rintro ⟨depth, h⟩
    exact (standsUpTo_solid depth).begins d s t h
  length_lt d s t := by
    rintro ⟨depth, h⟩
    exact (standsUpTo_solid depth).length_lt d s t h

theorem StandsWith.mono {inside : Option (Document → List Char → List Char → Prop)}
    {other : Document → List Char → List Char → Prop}
    (hmono : ∀ f, inside = some f → ∀ d s t, f d s t → other d s t) {d : Document} {s t : List Char}
    (h : StandsWith inside d s t) : StandsWith (some other) d s t := by
  cases h with
  | null t => exact .null t
  | yes t => exact .yes t
  | no t => exact .no t
  | number hn hended => exact .number hn hended
  | text hw => exact .text hw
  | list hf hds => exact .list rfl (hds.mono (hmono _ hf))
  | object hf hms => exact .object rfl (hms.mono (hmono _ hf))

/-- What is inside a document stands in the text as documents do. -/
theorem Stands.inside {d : Document} {s t : List Char} (h : d.Stands s t) :
    StandsWith (some Stands) d s t := by
  obtain ⟨depth, h⟩ := h
  cases depth with
  | zero => exact StandsWith.mono (fun _ hf => by cases hf) h
  | succ depth =>
    refine StandsWith.mono ?_ h
    intro f hf d s t hinside
    cases hf
    exact ⟨depth, hinside⟩

end Document

/-! ## Documents with a place left open -/

/-- A document in which the member of a name of a record is left open. -/
inductive MemberHole (names : List String) (name : String) : (Document → Document) → Prop where
  | object (before after : List (List Char × Document)) :
      MemberHole names name fun d => .object (before ++ (name.toList, d) :: after)
  | list {before : List Document} (after : List Document) : names[before.length]? = some name →
      MemberHole names name fun d => .list (before ++ d :: after)

/-- A list in which the element at an index is left open. -/
inductive ElementHole : (i : Nat) → (Document → Document) → Prop where
  | intro (before after : List Document) :
      ElementHole before.length fun d => .list (before ++ d :: after)

end SeededStreams.Json
