-- What a comparison tells. It names the first position at which both lists have a draw
-- and the bytes of the two differ; when there is none, it tells whether draws are
-- lacking. A known answer that is right is no longer so when the bits of one draw of it
-- are changed, and the fault is told at that draw.
import SeededStreams.Proofs.KnownAnswer.Comparison
import SeededStreams.Proofs.Stream.Draws
import SeededStreams.Proofs.Word.Lossless

namespace SeededStreams.KnownAnswer

/-! ## Positions that differ -/

/-- At position `n` both lists have a draw, and the bytes of the two differ. -/
def DifferAt (expected actual : List Draw) (n : Nat) : Prop :=
  ∃ e a, expected[n]? = some e ∧ actual[n]? = some a ∧ e.bytes ≠ a.bytes

/-- Position `n` is the first that differs, and `e` and `a` are the draws there. -/
structure FirstDiffer (expected actual : List Draw) (n : Nat) (e a : Draw) : Prop where
  expected_eq : expected[n]? = some e
  actual_eq : actual[n]? = some a
  bytes_ne : e.bytes ≠ a.bytes
  least : ∀ j < n, ¬ DifferAt expected actual j

theorem differAt_zero {e a : Draw} {expected actual : List Draw} :
    DifferAt (e :: expected) (a :: actual) 0 ↔ e.bytes ≠ a.bytes := by
  simp [DifferAt]

theorem differAt_succ {e a : Draw} {expected actual : List Draw} {n : Nat} :
    DifferAt (e :: expected) (a :: actual) (n + 1) ↔ DifferAt expected actual n := by
  simp [DifferAt]

theorem firstDiffer_zero_iff {e a x y : Draw} {expected actual : List Draw} :
    FirstDiffer (e :: expected) (a :: actual) 0 x y ↔ e = x ∧ a = y ∧ e.bytes ≠ a.bytes := by
  constructor
  · rintro ⟨hx, hy, hbytes, _⟩
    cases hx
    cases hy
    exact ⟨rfl, rfl, hbytes⟩
  · rintro ⟨rfl, rfl, hbytes⟩
    exact ⟨rfl, rfl, hbytes, fun j hj => absurd hj (Nat.not_lt_zero j)⟩

/-- Equal draws at the head only move the position. -/
theorem firstDiffer_succ_iff {e a x y : Draw} {expected actual : List Draw} {n : Nat} :
    FirstDiffer (e :: expected) (a :: actual) (n + 1) x y ↔
      e.bytes = a.bytes ∧ FirstDiffer expected actual n x y := by
  constructor
  · rintro ⟨hx, hy, hbytes, hleast⟩
    have hhead : e.bytes = a.bytes := by
      by_contra hne
      exact hleast 0 (Nat.succ_pos n) (differAt_zero.mpr hne)
    refine ⟨hhead, hx, hy, hbytes, ?_⟩
    intro j hj hdiffer
    exact hleast (j + 1) (Nat.succ_lt_succ hj) (differAt_succ.mpr hdiffer)
  · rintro ⟨hhead, hx, hy, hbytes, hleast⟩
    refine ⟨hx, hy, hbytes, ?_⟩
    intro j hj
    cases j with
    | zero => simp [differAt_zero, hhead]
    | succ j =>
      rw [differAt_succ]
      exact hleast j (Nat.lt_of_succ_lt_succ hj)

/-! ## What the scan finds -/

theorem firstDifference_eq_some_iff {index m : Nat} {expected actual : List Draw} {e a : Draw} :
    firstDifference index expected actual = some (m, e, a) ↔
      ∃ n, m = index + n ∧ FirstDiffer expected actual n e a := by
  induction expected generalizing index actual with
  | nil =>
    constructor
    · intro h
      cases h
    · rintro ⟨n, _, h⟩
      cases h.expected_eq
  | cons x expected ih =>
    cases actual with
    | nil =>
      constructor
      · intro h
        cases h
      · rintro ⟨n, _, h⟩
        cases h.actual_eq
    | cons y actual =>
      unfold firstDifference
      by_cases hbytes : x.bytes = y.bytes
      · rw [if_pos hbytes, ih]
        constructor
        · rintro ⟨n, rfl, h⟩
          exact ⟨n + 1, by omega, firstDiffer_succ_iff.mpr ⟨hbytes, h⟩⟩
        · rintro ⟨n, rfl, h⟩
          cases n with
          | zero => exact absurd hbytes (firstDiffer_zero_iff.mp h).2.2
          | succ n => exact ⟨n, by omega, (firstDiffer_succ_iff.mp h).2⟩
      · rw [if_neg hbytes]
        constructor
        · intro h
          cases h
          exact ⟨0, rfl, firstDiffer_zero_iff.mpr ⟨rfl, rfl, hbytes⟩⟩
        · rintro ⟨n, rfl, h⟩
          cases n with
          | zero =>
            obtain ⟨rfl, rfl, _⟩ := firstDiffer_zero_iff.mp h
            rfl
          | succ n => exact absurd (firstDiffer_succ_iff.mp h).1 hbytes

theorem firstDifference_zero_eq_some_iff {m : Nat} {expected actual : List Draw} {e a : Draw} :
    firstDifference 0 expected actual = some (m, e, a) ↔ FirstDiffer expected actual m e a := by
  simp [firstDifference_eq_some_iff]

theorem firstDifference_eq_none_iff_differAt {index : Nat} {expected actual : List Draw} :
    firstDifference index expected actual = none ↔ ∀ n, ¬ DifferAt expected actual n := by
  rw [firstDifference_eq_none_iff]
  constructor
  · rintro h n ⟨e, a, he, ha, hbytes⟩
    have hpair : (e, a) ∈ expected.zip actual :=
      List.mem_of_getElem? (List.getElem?_zip_eq_some.mpr ⟨he, ha⟩)
    exact hbytes (h (e, a) hpair)
  · intro h p hp
    obtain ⟨n, hn⟩ := List.mem_iff_getElem?.mp hp
    obtain ⟨he, ha⟩ := List.getElem?_zip_eq_some.mp hn
    by_contra hbytes
    exact h n ⟨p.1, p.2, he, ha, hbytes⟩

/-! ## What is told -/

/-- The three ways a comparison can end. -/
theorem compare_cases (k : KnownAnswer) (actual : List Draw) :
    (∃ m e a, FirstDiffer k.expected actual m e a ∧
      k.compare actual = .error (.mismatch k.name m e a)) ∨
    ((∀ n, ¬ DifferAt k.expected actual n) ∧ actual.length < k.expected.length ∧
      k.compare actual = .error (.truncated k.name k.expected.length actual.length)) ∨
    ((∀ n, ¬ DifferAt k.expected actual n) ∧ k.expected.length ≤ actual.length ∧
      k.compare actual = .ok ()) := by
  unfold compare
  cases h : firstDifference 0 k.expected actual with
  | some difference =>
    obtain ⟨m, e, a⟩ := difference
    exact Or.inl ⟨m, e, a, firstDifference_zero_eq_some_iff.mp h, rfl⟩
  | none =>
    have hnone := firstDifference_eq_none_iff_differAt.mp h
    by_cases hshort : actual.length < k.expected.length
    · exact Or.inr (Or.inl ⟨hnone, hshort, by simp [hshort]⟩)
    · exact Or.inr (Or.inr ⟨hnone, Nat.not_lt.mp hshort, by simp [hshort]⟩)

theorem FirstDiffer.differAt {expected actual : List Draw} {n : Nat} {e a : Draw}
    (h : FirstDiffer expected actual n e a) : DifferAt expected actual n :=
  ⟨e, a, h.expected_eq, h.actual_eq, h.bytes_ne⟩

/-- There is only one first difference. -/
theorem FirstDiffer.unique {expected actual : List Draw} {m n : Nat} {e a x y : Draw}
    (h : FirstDiffer expected actual m e a) (h' : FirstDiffer expected actual n x y) :
    m = n ∧ e = x ∧ a = y := by
  have hfirst := firstDifference_zero_eq_some_iff.mpr h
  rw [firstDifference_zero_eq_some_iff.mpr h'] at hfirst
  cases hfirst
  exact ⟨rfl, rfl, rfl⟩

variable {k : KnownAnswer} {actual : List Draw}

theorem compare_eq_mismatch_iff {name : String} {m : Nat} {e a : Draw} :
    k.compare actual = .error (.mismatch name m e a) ↔
      name = k.name ∧ FirstDiffer k.expected actual m e a := by
  rcases compare_cases k actual with ⟨n, x, y, hfirst, h⟩ | ⟨hnone, _, h⟩ | ⟨hnone, _, h⟩
  · rw [h]
    constructor
    · intro hfault
      cases hfault
      exact ⟨rfl, hfirst⟩
    · rintro ⟨rfl, hother⟩
      obtain ⟨rfl, rfl, rfl⟩ := hfirst.unique hother
      rfl
  · simp only [h, Except.error.injEq, reduceCtorEq, false_iff]
    rintro ⟨_, hfirst⟩
    exact hnone m hfirst.differAt
  · simp only [h, reduceCtorEq, false_iff]
    rintro ⟨_, hfirst⟩
    exact hnone m hfirst.differAt

theorem compare_eq_truncated_iff {name : String} {n n' : Nat} :
    k.compare actual = .error (.truncated name n n') ↔
      (name = k.name ∧ n = k.expected.length ∧ n' = actual.length) ∧
        (∀ j, ¬ DifferAt k.expected actual j) ∧ actual.length < k.expected.length := by
  rcases compare_cases k actual with ⟨m, x, y, hfirst, h⟩ | ⟨hnone, hshort, h⟩ | ⟨hnone, hlong, h⟩
  · simp only [h, Except.error.injEq, reduceCtorEq, false_iff]
    rintro ⟨_, hnone, _⟩
    exact hnone m hfirst.differAt
  · simp [h, hnone, hshort, eq_comm]
  · simp [h, hlong]

theorem not_differAt_self (draws : List Draw) (n : Nat) : ¬ DifferAt draws draws n := by
  rintro ⟨e, a, he, ha, hbytes⟩
  rw [he] at ha
  cases ha
  exact hbytes rfl

/-- With other bits in one draw of it, a list first differs from itself at that draw. -/
theorem firstDiffer_set {draws : List Draw} {m : Nat} {e d : Draw} (he : draws[m]? = some e)
    (hbits : d.bits ≠ e.bits) : FirstDiffer (draws.set m d) draws m d e where
  expected_eq := by
    have hm : m < draws.length := (List.getElem?_eq_some_iff.mp he).1
    simp [hm]
  actual_eq := he
  bytes_ne := fun hbytes => hbits (Word.bytes_inj.mp hbytes)
  least := by
    intro j hj hdiffer
    unfold DifferAt at hdiffer
    rw [List.getElem?_set_ne (Nat.ne_of_gt hj)] at hdiffer
    exact not_differAt_self draws j hdiffer

/-- As many words are asked for as are expected, so none is lacking. -/
theorem verify_ofWords_ne_truncated (name : String) (source : Source) (skip : Nat)
    (expected : List Word) (name' : String) (n n' : Nat) :
    (ofWords name source skip expected).verify ≠ .error (.truncated name' n n') := by
  intro h
  cases hstream : (ofWords name source skip expected).request.stream with
  | error fault =>
    rw [verify_of_fault hstream] at h
    cases h
  | ok draws =>
    rw [verify_of_stream hstream] at h
    obtain ⟨_, _, hshort⟩ := compare_eq_truncated_iff.mp h
    obtain ⟨g, _, rfl⟩ := Request.eq_of_stream hstream
    simp [ofWords] at hshort

/-! ## The law -/

/-- A comparison tells the first difference, and a lack of draws only where there is none;
it is content with the same bytes, and with more of them. A known answer is compared
with the stream that its request gives, if there is one. So a known answer of the
stream's own draws is right; with other bits in one of them the fault is told just
there; and known answers of words never find a draw lacking. -/
theorem a_comparison_tells_the_first_difference (k : KnownAnswer) :
    (∀ actual,
      (∀ name m e a, k.compare actual = .error (.mismatch name m e a) ↔
        name = k.name ∧ FirstDiffer k.expected actual m e a) ∧
      (∀ name n n', k.compare actual = .error (.truncated name n n') ↔
        (name = k.name ∧ n = k.expected.length ∧ n' = actual.length) ∧
          (∀ j, ¬ DifferAt k.expected actual j) ∧ actual.length < k.expected.length) ∧
      (k.compare actual = .ok () ↔
        (∀ j, ¬ DifferAt k.expected actual j) ∧ k.expected.length ≤ actual.length)) ∧
    (∀ fault, k.request.stream = .error fault → k.verify = .error (.noStream fault)) ∧
    (∀ draws, k.request.stream = .ok draws →
      draws.length = k.request.count ∧ k.verify = k.compare draws) ∧
    (k.request.stream = .ok k.expected → k.verify = .ok () ∧
      ∀ m e d, k.expected[m]? = some e → d.bits ≠ e.bits →
        verify { k with expected := k.expected.set m d } =
          .error (.mismatch k.name m d e)) ∧
    (∀ name source skip expected name' n n',
      (ofWords name source skip expected).verify ≠ .error (.truncated name' n n')) := by
  have hok : ∀ actual, k.compare actual = .ok () ↔
      (∀ j, ¬ DifferAt k.expected actual j) ∧ k.expected.length ≤ actual.length := by
    intro actual
    rw [compare_eq_ok_iff, ← firstDifference_eq_none_iff 0, firstDifference_eq_none_iff_differAt]
  refine ⟨fun actual => ⟨?_, ?_, hok actual⟩, fun fault => verify_of_fault, ?_, ?_,
    verify_ofWords_ne_truncated⟩
  · intro name m e a
    exact compare_eq_mismatch_iff
  · intro name n n'
    exact compare_eq_truncated_iff
  · intro draws hstream
    obtain ⟨g, _, rfl⟩ := Request.eq_of_stream hstream
    exact ⟨by simp, verify_of_stream hstream⟩
  · intro hown
    constructor
    · rw [verify_of_stream hown]
      exact (hok _).mpr ⟨not_differAt_self k.expected, Nat.le_refl _⟩
    · intro m e d he hbits
      have hstream :
          ({ k with expected := k.expected.set m d } : KnownAnswer).request.stream = .ok k.expected :=
        hown
      rw [verify_of_stream hstream]
      exact compare_eq_mismatch_iff.mpr ⟨rfl, firstDiffer_set he hbits⟩

/-- The first three words from the state 1, 2, 3, 4. -/
def threeWords : KnownAnswer :=
  ofWords "three words" (.xoshiroState ⟨1, 2, 3, 4⟩) 0 [11520, 0, 1509978240]

/-- The same words, asked of a state that is refused. -/
def wordsOfZeros : KnownAnswer := ofWords "no words" (.xoshiroState .zero) 0 [11520, 0, 1509978240]

/-- The law at a known answer that is right, at the same one with -1 for its second word,
and at one without a stream. -/
theorem a_changed_word_is_told_at_its_place :
    threeWords.request.stream = .ok threeWords.expected ∧
    threeWords.verify = .ok () ∧
    threeWords.expected[1]? = some (.word 0) ∧ (Draw.signed (-1)).bits ≠ (Draw.word 0).bits ∧
    verify { threeWords with expected := threeWords.expected.set 1 (.signed (-1)) } =
      .error (.mismatch "three words" 1 (.signed (-1)) (.word 0)) ∧
    wordsOfZeros.request.stream = .error (.seed .zeroState) ∧
    wordsOfZeros.verify = .error (.noStream (.seed .zeroState)) := by
  obtain ⟨_, _, _, hown, _⟩ := a_comparison_tells_the_first_difference threeWords
  obtain ⟨_, hfault, _⟩ := a_comparison_tells_the_first_difference wordsOfZeros
  have hstream : threeWords.request.stream = .ok threeWords.expected := by decide
  have hbits : (Draw.signed (-1)).bits ≠ (Draw.word 0).bits := by decide
  have hrefused : wordsOfZeros.request.stream = .error (.seed .zeroState) := by decide
  obtain ⟨hright, hchanged⟩ := hown hstream
  exact ⟨hstream, hright, rfl, hbits, hchanged 1 _ _ rfl hbits, hrefused, hfault _ hrefused⟩

end SeededStreams.KnownAnswer
