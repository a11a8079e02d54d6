-- Passing over documents. Whatever document a text says, and however deep it is, it
-- is passed over up to its end; so a member that nothing is done with may be anything.
import SeededStreams.Json.Skip
import SeededStreams.Proofs.Json.Documents

namespace SeededStreams.Json.Skip

/-! ## Going on -/

/-- What is done behind a value or a bracket: frames that end here are closed, and if one
is still open, the values in it are passed over. -/
def goOn (fuel : Nat) (frames : List Frame) (afterValue : Bool) (s : List Char) :
    Except Fault (List Char) := do
  let (frames, s) ← close frames afterValue (s.length + 1) s
  if frames.isEmpty then return s else values fuel frames s

/-- Fuel for more than the whole text is enough, and more of it changes nothing. -/
theorem close_congr (frames : List Frame) (afterValue : Bool) {fuel other : Nat} (s : List Char)
    (hfuel : s.length < fuel) (hother : s.length < other) :
    close frames afterValue fuel s = close frames afterValue other s := by
  induction frames generalizing afterValue fuel other s with
  | nil => cases fuel <;> cases other <;> rfl
  | cons frame outer ih =>
    obtain ⟨fuel, rfl⟩ := Nat.exists_eq_succ_of_ne_zero (Nat.ne_zero_of_lt hfuel)
    obtain ⟨other, rfl⟩ := Nat.exists_eq_succ_of_ne_zero (Nat.ne_zero_of_lt hother)
    have hlength : (dropBlank s).length ≤ s.length := (List.dropWhile_suffix isBlank).length_le
    unfold close
    cases hdrop : dropBlank s with
    | nil => rfl
    | cons c rest =>
      rw [hdrop, List.length_cons] at hlength
      have hclose : close outer true fuel rest = close outer true other rest :=
        ih true rest (by omega) (by omega)
      simp only [hclose]

section Frames

variable {fuel : Nat} {frames : List Frame} {s t u v : List Char}

theorem values_of_blanks (fuel : Nat) (frames : List Frame) (h : Blanks s t) :
    values fuel frames s = values fuel frames t := by
  cases fuel with
  | zero => rfl
  | succ fuel =>
    unfold values
    rw [h.dropBlank_eq]

theorem values_list (fuel : Nat) (frames : List Frame) (s : List Char) :
    values (fuel + 1) frames ('[' :: s) = goOn fuel (.list :: frames) false s := rfl

theorem values_object (fuel : Nat) (frames : List Frame) (s : List Char) :
    values (fuel + 1) frames ('\x7b' :: s) = goOn fuel (.object :: frames) false s := rfl

/-- What is no list and no object is passed over in one step. -/
theorem values_scalar (fuel : Nat) (frames : List Frame) {c : Char} (hblank : isBlank c = false)
    (hbracket : c ≠ '[') (hbrace : c ≠ '\x7b') (h : scalar (c :: s) = .ok t) :
    values (fuel + 1) frames (c :: s) = goOn fuel frames true t := by
  unfold values
  rw [dropBlank_cons s hblank]
  dsimp only
  split
  · rename_i heq
    cases heq
    exact absurd rfl hbracket
  · rename_i heq
    cases heq
    exact absurd rfl hbrace
  · rw [h]
    rfl

theorem goOn_nil (fuel : Nat) (afterValue : Bool) (s : List Char) :
    goOn fuel [] afterValue s = .ok s := rfl

/-- A frame that ends is closed, as it is behind a value. -/
theorem goOn_closing (fuel : Nat) (frame : Frame) (frames : List Frame) (afterValue : Bool)
    (h : Blanks s (frame.closing :: t)) :
    goOn fuel (frame :: frames) afterValue s = goOn fuel frames true t := by
  have hlength := h.length_le
  rw [List.length_cons] at hlength
  have hclosing : isBlank frame.closing = false := by cases frame <;> rfl
  have hcomma : ¬(frame.closing = ',' ∧ afterValue = true) := by
    rintro ⟨hc, _⟩
    cases frame <;> cases hc
  have hclose : close frames true s.length t = close frames true (t.length + 1) t :=
    close_congr frames true t (by omega) (by omega)
  unfold goOn
  rw [close.eq_def]
  dsimp only
  rw [h.dropBlank_eq_cons hclosing]
  simp only [if_neg hcomma, if_true, hclose]

/-- The first value of a frame. -/
theorem goOn_first (fuel : Nat) (frame : Frame) (frames : List Frame) {c : Char}
    (h : Blanks s (c :: t)) (hblank : isBlank c = false) (hclosing : c ≠ frame.closing)
    (henter : enter frame (c :: t) = .ok u) :
    goOn fuel (frame :: frames) false s = values fuel (frame :: frames) u := by
  unfold goOn
  rw [close.eq_def]
  dsimp only
  rw [h.dropBlank_eq_cons hblank]
  simp only [Bool.false_eq_true, and_false, if_false, if_neg hclosing, henter]
  rfl

/-- The next value of a frame. -/
theorem goOn_comma (fuel : Nat) (frame : Frame) (frames : List Frame) (h : Blanks s (',' :: t))
    (henter : enter frame t = .ok u) :
    goOn fuel (frame :: frames) true s = values fuel (frame :: frames) u := by
  unfold goOn
  rw [close.eq_def]
  dsimp only
  rw [h.dropBlank_eq_cons rfl]
  simp only [and_self, if_true, henter]
  rfl

end Frames

/-! ## Passing over documents -/

/-- What stands at the front of a text is passed over, whatever frames are open around
it, and enough fuel stays enough. -/
def PassesOver {δ : Type} (stands : δ → List Char → List Char → Prop) : Prop :=
  ∀ d s t, stands d s t → ∀ (frames : List Frame) (fuel : Nat), s.length < fuel →
    ∃ left, t.length < left ∧ values fuel frames s = goOn left frames true t

section Parts

variable {δ : Type} {stands : δ → List Char → List Char → Prop}

/-- The elements of a list and its end. A comma counts only behind the first element. -/
theorem PassesOver.elements (h : PassesOver stands) (hsolid : Solid stands) {first : Bool}
    {ds : List δ} {s t : List Char} (hds : Elements stands first ds s t) (frames : List Frame)
    (fuel : Nat) (hfuel : s.length < fuel) :
    ∃ left, t.length < left ∧ goOn fuel (.list :: frames) (!first) s = goOn left frames true t := by
  induction hds generalizing fuel with
  | @done first s t hclose =>
    have hlength := hclose.length_le
    rw [List.length_cons] at hlength
    exact ⟨fuel, by omega, goOn_closing fuel .list frames _ hclose⟩
  | @more first d ds s u v t honward hd _ ih =>
    have hlength := honward.length_le
    obtain ⟨left, hleft, hvalue⟩ := h d u v hd (.list :: frames) fuel (by omega)
    obtain ⟨last, hlast, hrest⟩ := ih left hleft
    refine ⟨last, hlast, ?_⟩
    rw [← hrest, Bool.not_false, ← hvalue]
    cases honward with
    | first hfront =>
      obtain ⟨c, r, rfl, hblank, hbracket⟩ := hsolid.begins d _ v hd
      exact goOn_first fuel .list frames hfront hblank hbracket rfl
    | comma hcomma hfront =>
      rw [← values_of_blanks fuel _ hfront]
      exact goOn_comma fuel .list frames hcomma rfl

/-- The key of a member and its colon. -/
theorem enter_object {s t u v w : List Char} (h : Blanks s ('"' :: t)) (hkey : Quoted.Stands w t u)
    (hcolon : Blanks u (':' :: v)) : enter .object s = .ok v := by
  unfold enter key
  dsimp only
  rw [h.dropBlank_eq_cons rfl]
  simp only [hkey.skip, bind, Except.bind]
  unfold colon
  rw [hcolon.dropBlank_eq_cons rfl]
  rfl

/-- The members of an object and its end. -/
theorem PassesOver.members (h : PassesOver stands) {first : Bool}
    {ms : List (List Char × δ)} {s t : List Char} (hms : Members stands first ms s t)
    (frames : List Frame) (fuel : Nat) (hfuel : s.length < fuel) :
    ∃ left, t.length < left ∧
      goOn fuel (.object :: frames) (!first) s = goOn left frames true t := by
  induction hms generalizing fuel with
  | @done first s t hclose =>
    have hlength := hclose.length_le
    rw [List.length_cons] at hlength
    exact ⟨fuel, by omega, goOn_closing fuel .object frames _ hclose⟩
  | @more first key d ms s k c w u v t honward hkey hcolon hblanks hd _ ih =>
    have hlength := honward.length_le
    have hquoted := hkey.length_lt
    have hvalue := hcolon.length_le
    have hgap := hblanks.length_le
    rw [List.length_cons] at hlength hvalue
    obtain ⟨left, hleft, hpassed⟩ := h d u v hd (.object :: frames) fuel (by omega)
    obtain ⟨last, hlast, hrest⟩ := ih left hleft
    refine ⟨last, hlast, ?_⟩
    rw [← hrest, Bool.not_false, ← hpassed, ← values_of_blanks fuel _ hblanks]
    cases honward with
    | first hfront =>
      exact goOn_first fuel .object frames hfront rfl (by decide)
        (enter_object (.none _) hkey hcolon)
    | comma hcomma hfront =>
      exact goOn_comma fuel .object frames hcomma (enter_object hfront hkey hcolon)

end Parts

/-- A number begins with a digit or with a minus sign. -/
theorem scalar_number {c : Char} (hc : c = '-' ∨ c.isDigit = true) {s t : List Char} {n : Numeral}
    (h : Numeral.read .badNumber (c :: s) = .ok (n, t)) : scalar (c :: s) = .ok t := by
  unfold scalar
  split
  case h_1 heq => cases heq
  case h_6 heq =>
    cases heq
    rw [if_pos hc, h]
    rfl
  all_goals
    rename_i heq
    cases heq
    exact absurd hc (by decide)

theorem passesOver_standsWith {inside : Option (Document → List Char → List Char → Prop)}
    (hsolid : ∀ f, inside = some f → Solid f) (hinside : ∀ f, inside = some f → PassesOver f) :
    PassesOver (Document.StandsWith inside) := by
  intro d s t hd frames fuel hfuel
  have hlength := hd.length_lt hsolid
  obtain ⟨fuel, rfl⟩ := Nat.exists_eq_succ_of_ne_zero (Nat.ne_zero_of_lt hfuel)
  cases hd with
  | null t => exact ⟨fuel, by omega, values_scalar fuel frames rfl (by decide) (by decide) rfl⟩
  | yes t => exact ⟨fuel, by omega, values_scalar fuel frames rfl (by decide) (by decide) rfl⟩
  | no t => exact ⟨fuel, by omega, values_scalar fuel frames rfl (by decide) (by decide) rfl⟩
  | @number n text t hn hended =>
    have hread := Numeral.read_of_spells .badNumber hn hended
    obtain ⟨c, r, rfl, hc⟩ := hn.head
    have hbracket : c ≠ '[' := Document.ne_of_begins_number hc (by decide)
    have hbrace : c ≠ '\x7b' := Document.ne_of_begins_number hc (by decide)
    exact ⟨fuel, by omega,
      values_scalar fuel frames (isBlank_of_number hc) hbracket hbrace (scalar_number hc hread)⟩
  | text hw =>
    exact ⟨fuel, by omega, values_scalar fuel frames rfl (by decide) (by decide) hw.skip⟩
  | list hf hds =>
    rw [List.length_cons] at hfuel
    rw [values_list]
    exact (hinside _ hf).elements (hsolid _ hf) hds frames fuel (by omega)
  | object hf hms =>
    rw [List.length_cons] at hfuel
    rw [values_object]
    exact (hinside _ hf).members hms frames fuel (by omega)

theorem passesOver_standsUpTo (depth : Nat) : PassesOver (Document.StandsUpTo depth) := by
  induction depth with
  | zero => exact passesOver_standsWith nofun nofun
  | succ depth ih =>
    refine passesOver_standsWith ?_ ?_
    · intro f hf
      cases hf
      exact Document.standsUpTo_solid depth
    · intro f hf
      cases hf
      exact ih

/-- Any document is passed over, up to its end. -/
theorem value_of_stands {d : Document} {s t u : List Char} (hblanks : Blanks s u)
    (hd : d.Stands u t) : value s = .ok t := by
  obtain ⟨depth, hd⟩ := hd
  have hlength := hblanks.length_le
  obtain ⟨left, _, hpassed⟩ := passesOver_standsUpTo depth d u t hd [] (s.length + 1) (by omega)
  unfold value
  rw [values_of_blanks _ _ hblanks, hpassed]
  exact goOn_nil left true t

end SeededStreams.Json.Skip
