-- Words in documents. Only a number that is spelled as a natural number and fits is
-- read as a word, and it is read as itself, whether straight from the text or out of
-- a value that has been kept.
import SeededStreams.Proofs.Json.Meanings

namespace SeededStreams.Json

/-! ## Natural numbers -/

/-- A numeral is a natural number: it has no sign, no point and no power, and its digits
have that value. -/
structure Numeral.IsNat (n : Numeral) (v : Nat) : Prop where
  unsigned : n.negative = false
  no_fraction : n.fraction = []
  no_power : n.power = none
  value : Numeral.digitsValue n.whole = v

namespace Numeral

theorem digitChar_of_isDigit {c : Char} (hc : c.isDigit = true) :
    48 ≤ c.toNat ∧ c.toNat < 58 ∧ Nat.digitChar (c.toNat - 48) = c := by
  have hall : ∀ k, 48 ≤ k → k < 58 → Nat.digitChar (k - 48) = Char.ofNat k := by decide
  simp only [Char.isDigit, Bool.and_eq_true, decide_eq_true_eq] at hc
  have hlow : 48 ≤ c.toNat := hc.1
  have hhigh : c.toNat < 58 := Nat.lt_succ_of_le hc.2
  exact ⟨hlow, hhigh, by rw [hall c.toNat hlow hhigh, Char.ofNat_toNat]⟩

/-- The last digit counts once, and those before it ten times as much. -/
theorem digitsValue_concat (ds : List Char) (c : Char) :
    digitsValue (ds ++ [c]) = 10 * digitsValue ds + (c.toNat - 48) := by
  unfold digitsValue
  rw [Nat.ofDigitChars_append, Nat.ofDigitChars_cons, Nat.ofDigitChars_nil]
  rfl

/-- Without needless zeros there is one way to spell a natural number. -/
theorem toDigits_digitsValue {ds : List Char} (h : Whole ds) :
    Nat.toDigits 10 (digitsValue ds) = ds := by
  induction ds using List.reverseRecOn with
  | nil => exact absurd rfl h.ne_nil
  | append_singleton ds c ih =>
    obtain ⟨hlow, hhigh, hchar⟩ := digitChar_of_isDigit (h.all c (by simp))
    rw [digitsValue_concat]
    by_cases hds : ds = []
    · subst hds
      have hvalue : 10 * digitsValue [] + (c.toNat - 48) = c.toNat - 48 := Nat.zero_add _
      rw [hvalue, Nat.toDigits_of_lt_base (by omega), hchar, List.nil_append]
    · have hfront : ∀ rest, ds ≠ '0' :: rest := by
        rintro rest rfl
        exact List.append_ne_nil_of_right_ne_nil rest (List.cons_ne_nil c [])
          (h.zero_alone (rest ++ [c]) rfl)
      have hwhole : Whole ds :=
        ⟨⟨hds, fun d hd => h.all d (List.mem_append_left _ hd)⟩,
          fun rest hrest => absurd hrest (hfront rest)⟩
      have hpos : digitsValue ds ≠ 0 := by
        intro hzero
        have htext := ih hwhole
        rw [hzero] at htext
        exact hfront [] htext.symm
      have hquotient : (10 * digitsValue ds + (c.toNat - 48)) / 10 = digitsValue ds := by omega
      have hremainder : (10 * digitsValue ds + (c.toNat - 48)) % 10 = c.toNat - 48 := by omega
      rw [Nat.toDigits_of_base_le (by decide) (by omega), hquotient, hremainder, ih hwhole, hchar]

/-- The one text of a natural number is its digits. -/
theorem Spells.isNat_iff {n : Numeral} {text : List Char} (h : n.Spells text) (v : Nat) :
    n.IsNat v ↔ text = Nat.toDigits 10 v := by
  constructor
  · intro hn
    obtain ⟨hwhole, hfraction, hpower⟩ := h
    obtain ⟨hsign, hnone, hnopower, rfl⟩ := hn
    dsimp only at hsign hnone hnopower ⊢
    subst hsign hnone hnopower
    rw [toDigits_digitsValue hwhole]
    cases hpower
    cases hfraction with
    | none => simp
    | some hds => exact absurd rfl hds.ne_nil
  · rintro rfl
    have hread := read_of_spells .valueCutShort h ended_nil
    rw [List.append_nil, ← List.append_nil (Nat.toDigits 10 v),
      read_of_spells .valueCutShort (spells_toDigits v) ended_nil] at hread
    cases hread
    exact ⟨rfl, rfl, rfl, Nat.ofDigitChars_ten_toDigits⟩

end Numeral

/-- Only natural numbers that fit are read as words, and each of them as itself. -/
theorem Numeral.number_eq_word_iff (n : Numeral) (w : Word) :
    n.number = .ok (.word w) ↔ n.IsNat w.toNat := by
  unfold number
  dsimp only
  split
  · rename_i h
    obtain ⟨hfraction, hpower, hsign, hlt⟩ := h
    constructor
    · intro hw
      cases hw
      exact ⟨by simpa using hsign, hfraction, hpower, (UInt64.toNat_ofNat_of_lt hlt).symm⟩
    · intro hw
      rw [hw.value, UInt64.ofNat_toNat]
  · rename_i h
    constructor
    · intro hw
      split at hw
      · cases hw
      · split at hw
        · cases hw
        · cases hw
    · intro hw
      refine absurd ⟨hw.no_fraction, hw.no_power, ?_, ?_⟩ h
      · rw [hw.unsigned]
        rfl
      · rw [hw.value]
        exact w.toNat_lt

namespace Document

/-- The word that a document is: a number that is a word. -/
def word? : Document → Option Word
  | number n =>
    match n.number with
    | .ok (.word w) => some w
    | _ => none
  | _ => none

theorem word?_eq_some_iff (d : Document) (w : Word) :
    d.word? = some w ↔ ∃ n, d = number n ∧ n.number = .ok (.word w) := by
  unfold word?
  split
  · rename_i n
    split
    · rename_i x hx
      simp [hx]
    · rename_i hno
      constructor
      · intro h
        cases h
      · rintro ⟨m, hm, hw⟩
        cases hm
        exact absurd hw (hno w)
  · rename_i hno
    constructor
    · intro h
      cases h
    · rintro ⟨n, hn, _⟩
      exact absurd hn (hno n)

theorem word?_number_eq_some_iff (n : Numeral) (w : Word) :
    (number n).word? = some w ↔ n.IsNat w.toNat := by
  rw [word?_eq_some_iff, ← Numeral.number_eq_word_iff]
  constructor
  · rintro ⟨_, hn, hw⟩
    cases hn
    exact hw
  · intro hw
    exact ⟨n, rfl, hw⟩

/-- The sizes that numerals spell are the natural numbers that fit a word. -/
theorem exists_size_iff {α : Type} (n : Numeral) (x : α) (f : Nat → α) :
    (∃ v, (number n).word?.map UInt64.toNat = some v ∧ x = f v) ↔
      ∃ v, v < UInt64.size ∧ n.IsNat v ∧ x = f v := by
  simp only [Option.map_eq_some_iff, word?_number_eq_some_iff]
  constructor
  · rintro ⟨_, ⟨w, hw, rfl⟩, rfl⟩
    exact ⟨w.toNat, w.toNat_lt, hw, rfl⟩
  · rintro ⟨v, hv, hn, rfl⟩
    have hvalue : (UInt64.ofNat v).toNat = v := UInt64.toNat_ofNat_of_lt hv
    exact ⟨v, ⟨UInt64.ofNat v, by rwa [hvalue], hvalue⟩, rfl⟩

/-- The words that numerals spell are the natural numbers that fit. -/
theorem exists_word_iff {α : Type} (n : Numeral) (x : α) (f : Word → α) :
    (∃ w, (number n).word? = some w ∧ x = f w) ↔
      ∃ v, v < UInt64.size ∧ n.IsNat v ∧ x = f (UInt64.ofNat v) := by
  rw [← exists_size_iff n x fun v => f (UInt64.ofNat v)]
  simp only [Option.map_eq_some_iff]
  constructor
  · rintro ⟨w, hw, rfl⟩
    exact ⟨w.toNat, ⟨w, hw, rfl⟩, by rw [UInt64.ofNat_toNat]⟩
  · rintro ⟨_, ⟨w, hw, rfl⟩, rfl⟩
    exact ⟨w, hw, by rw [UInt64.ofNat_toNat]⟩

theorem value?_number (room : Nat) (n : Numeral) :
    value? room (number n) = n.number.toOption.map .number := by
  cases room <;> rfl

theorem value?_eq_word_iff (room : Nat) (d : Document) (w : Word) :
    d.value? room = some (.number (.word w)) ↔ d.word? = some w := by
  rw [word?_eq_some_iff]
  cases d with
  | number n => simp [value?_number, toOption_eq_some_iff]
  | _ => cases room <;> simp [value?, valueWith]

end Document

theorem understands_word (room : Nat) : Understands (word room) Document.word? := by
  refine understands_scalar ?_ 0 ?_ room
  · intro v w hw
    rw [(Value.word_eq_ok_iff _ v w).mp hw]
    trivial
  · intro d w
    simp [Value.word_eq_ok_iff, Document.value?_eq_word_iff]

theorem understands_size (room : Nat) :
    Understands (size room) fun d => d.word?.map UInt64.toNat := by
  refine understands_scalar ?_ 0 ?_ room
  · intro v n h
    obtain ⟨w, hw, _⟩ := (bind_eq_ok_iff _ _ _).mp h
    rw [(Value.word_eq_ok_iff _ v w).mp hw]
    trivial
  · intro d n
    simp only [bind_eq_ok_iff, Value.word_eq_ok_iff, Option.map_eq_some_iff,
      ← Document.value?_eq_word_iff 0]
    constructor
    · rintro ⟨w, hw, rfl⟩
      exact ⟨_, hw, w, rfl, rfl⟩
    · rintro ⟨_, hv, w, rfl, h⟩
      cases h
      exact ⟨w, hv, rfl⟩

/-! ## Lists of words -/

theorem mapM_append_cons_eq_some_iff {α β : Type} (f : α → Option β) (before after : List α) (a : α)
    (ys : List β) :
    (before ++ a :: after).mapM f = some ys ↔ ∃ bs y cs, before.mapM f = some bs ∧
      f a = some y ∧ after.mapM f = some cs ∧ ys = bs ++ y :: cs := by
  simp only [List.mapM_append, Option.bind_eq_bind, Option.bind_eq_some_iff, mapM_cons_eq_some_iff]
  constructor
  · rintro ⟨bs, hbs, _, ⟨y, cs, hy, hcs, rfl⟩, hys⟩
    cases hys
    exact ⟨bs, y, cs, hbs, hy, hcs, rfl⟩
  · rintro ⟨bs, y, cs, hbs, hy, hcs, rfl⟩
    exact ⟨bs, hbs, y :: cs, ⟨y, cs, hy, hcs, rfl⟩, rfl⟩

theorem length_of_mapM_eq_some {α β : Type} {f : α → Option β} {xs : List α} {ys : List β}
    (h : xs.mapM f = some ys) : ys.length = xs.length := by
  induction xs generalizing ys with
  | nil =>
    cases h
    rfl
  | cons x xs ih =>
    obtain ⟨y, tail, _, htail, rfl⟩ := (mapM_cons_eq_some_iff f x xs ys).mp h
    rw [List.length_cons, List.length_cons, ih htail]

/-- Another element in one place changes the list that is read in that place only. -/
theorem listOf?_hole {β : Type} {meaning : Document → Option β} {i : Nat}
    {hole : Document → Document} (hhole : ElementHole i hole) {d₀ : Document} {ys₀ : List β}
    (h₀ : (hole d₀).listOf? meaning = some ys₀) (d : Document) (ys : List β) :
    (hole d).listOf? meaning = some ys ↔ ∃ y, meaning d = some y ∧ ys = ys₀.set i y := by
  obtain ⟨before, after⟩ := hhole
  obtain ⟨bs, y₀, cs, hbs, _, hcs, rfl⟩ := (mapM_append_cons_eq_some_iff _ _ _ _ _).mp h₀
  have hset : ∀ y, (bs ++ y₀ :: cs).set before.length y = bs ++ y :: cs := by
    intro y
    rw [← length_of_mapM_eq_some hbs, List.set_append_right _ _ (Nat.le_refl _), Nat.sub_self,
      List.set_cons_zero]
  simp only [Document.listOf?, mapM_append_cons_eq_some_iff, hset]
  constructor
  · rintro ⟨bs', y, cs', hbs', hy, hcs', rfl⟩
    rw [hbs] at hbs'
    rw [hcs] at hcs'
    cases hbs'
    cases hcs'
    exact ⟨y, hy, rfl⟩
  · rintro ⟨y, hy, rfl⟩
    exact ⟨bs, y, cs, hbs, hy, hcs, rfl⟩

end SeededStreams.Json
