-- Known answers of reals as texts. Each real is read back as the quotient of
-- its digits and a power of ten, which is not always the real that was written.
-- So a known answer of reals is still right after reading when the quotients
-- are the reals themselves, and only then.
import SeededStreams.Proofs.Draw.Rereading
import SeededStreams.Proofs.KnownAnswer.Comparison
import SeededStreams.Proofs.KnownAnswer.Json
import SeededStreams.Proofs.Stream.Draws

namespace SeededStreams

/-- The kinds whose draws are reals. -/
def Kind.reals : List Kind := [realClosed, realHalfOpen, realOpen]

theorem Kind.exists_unitReal {kind : Kind} (hkind : kind ∈ Kind.reals) (w : Word) :
    ∃ x, kind.draw w = .real x ∧ UnitReal x := by
  have hreal : ∃ x, kind.draw w = .real x := by
    simp only [Kind.reals, List.mem_cons, List.not_mem_nil, or_false] at hkind
    rcases hkind with rfl | rfl | rfl
    all_goals exact ⟨_, rfl⟩
  obtain ⟨x, hx⟩ := hreal
  exact ⟨x, hx, unitReal_of_draw hx⟩

namespace KnownAnswer

/-- A draw is read back from a text when its kind gives reals. -/
theorem reads_of_word (room : Nat) {kind : Kind} (hkind : kind ∈ Kind.reals) (w : Word) :
    Json.Reads (Draw.read room) (kind.draw w).write (kind.draw w).reread := by
  obtain ⟨x, hx, hunit⟩ := Kind.exists_unitReal hkind w
  rw [hx]
  exact Draw.reads_real room hunit

variable {k : KnownAnswer}

theorem reads_expected (room : Nat) (hkind : k.request.kind ∈ Kind.reals)
    (hown : k.request.stream = .ok k.expected) :
    List.Forall₂ (Json.Reads (Draw.read room)) (k.expected.map Draw.write)
      (k.expected.map Draw.reread) := by
  rw [List.forall₂_map_left_iff, List.forall₂_map_right_iff, List.forall₂_same]
  intro d hd
  obtain ⟨w, rfl⟩ := Request.exists_word_of_mem_stream hown hd
  exact reads_of_word room hkind w

/-- The known answer that is read is right when every real is again the one
that was written. -/
theorem verify_reread_eq_ok_iff (hkind : k.request.kind ∈ Kind.reals)
    (hown : k.request.stream = .ok k.expected) :
    ({ k with expected := k.expected.map Draw.reread } : KnownAnswer).verify = .ok () ↔
      ∀ x, .real x ∈ k.expected → x.reread = x := by
  have hpairs : (k.expected.map Draw.reread).zip k.expected =
      k.expected.map fun d => (d.reread, d) := by
    have h : (k.expected.map Draw.reread).zip (k.expected.map id) =
        k.expected.map fun d => (d.reread, id d) := List.zip_map'
    rwa [List.map_id] at h
  have hverify := verify_eq_ok_iff
    (k := { k with expected := k.expected.map Draw.reread }) hown
  rw [hverify, hpairs, List.length_map]
  constructor
  · rintro ⟨hbytes, _⟩ x hx
    exact (Draw.bytes_real_eq_iff _ _).mp (hbytes _ (List.mem_map_of_mem hx))
  · intro h
    refine ⟨?_, Nat.le_refl _⟩
    intro p hp
    obtain ⟨d, hd, rfl⟩ := List.mem_map.mp hp
    obtain ⟨w, rfl⟩ := Request.exists_word_of_mem_stream hown hd
    obtain ⟨x, hx, _⟩ := Kind.exists_unitReal hkind w
    rw [hx] at hd ⊢
    exact (Draw.bytes_real_eq_iff _ _).mpr (h x hd)

/-! ## The law -/

/-- A real that is drawn is always read back from its text as a real: as the
quotient of the digits of its shortest decimal by a power of ten, of which both
are rounded first. That is off by the 2^-50th part of it at most, and it is the
same real if the digits have at most 53 bits and stand among the first 22
places. A known answer of a stream's own reals is still right after reading if
each of them is read back as itself, and only then. -/
theorem reals_survive_reading_iff_their_quotients_do {kind : Kind} (hkind : kind ∈ Kind.reals) :
    (∀ w, ∃ x, kind.draw w = .real x ∧
      Json.parse Draw.read (kind.draw w).write = .ok (.real x.reread) ∧
      ((Draw.real x.reread).bytes = (kind.draw w).bytes ↔ x.reread = x) ∧
      |x.reread.toRat - x.toRat| ≤ x.toRat * 2 ^ (-50 : Int) ∧
      ((Decimal.shortest .toEven x.rank).digits ≤ 2 ^ 53 →
        -22 ≤ (Decimal.shortest .toEven x.rank).exponent → x.reread = x)) ∧
    ∀ k : KnownAnswer, k.request.kind = kind → k.request.count < 2 ^ 64 →
      k.request.skip < 2 ^ 64 → k.request.stream = .ok k.expected →
      ∃ k', Json.parse read k.write = .ok k' ∧ k'.name = k.name ∧ k'.request = k.request ∧
        (k'.verify = .ok () ↔ ∀ x, .real x ∈ k.expected → x.reread = x) := by
  constructor
  · intro w
    obtain ⟨x, hx, hunit⟩ := Kind.exists_unitReal hkind w
    refine ⟨x, hx, ?_, ?_, hunit.toRat_reread_near, ?_⟩
    · have hreads := reads_of_word Json.depthLimit hkind w
      rw [hx] at hreads ⊢
      exact Json.parse_of_reads hreads
    · rw [hx]
      exact Draw.bytes_real_eq_iff _ _
    · exact hunit.reread_eq_of_few_digits
  · rintro k rfl hcount hskip hown
    -- The answer, its request, the source and a key in it are four levels of the 127.
    have hreads := reads_write 123 hcount hskip (reads_expected 125 hkind hown)
    exact ⟨_, Json.parse_of_reads hreads, rfl, rfl, verify_reread_eq_ok_iff hkind hown⟩

/-- A known answer of one real: the first one from the seed 2. -/
def firstReal : KnownAnswer where
  name := "first real"
  request := { source := .twisterSeed 2, kind := .realHalfOpen, count := 1 }
  expected := [Kind.realHalfOpen.draw 16668552215174154828]

theorem stream_firstReal : firstReal.request.stream = .ok firstReal.expected := by decide +kernel

/-- Its 16 digits are more than 53 bits, and its last bit is lost. -/
theorem reread_firstReal :
    (Kind.halfOpenReal 16668552215174154828).reread ≠ Kind.halfOpenReal 16668552215174154828 := by
  decide +kernel

/-- One half survives reading, and a first real does not. -/
theorem a_half_survives_reading_and_a_first_real_does_not :
    Kind.realHalfOpen ∈ Kind.reals ∧
    (Kind.halfOpenReal 0x8000000000000000).reread = Kind.halfOpenReal 0x8000000000000000 ∧
    firstReal.request.kind = .realHalfOpen ∧ firstReal.request.count < 2 ^ 64 ∧
    firstReal.request.skip < 2 ^ 64 ∧ firstReal.request.stream = .ok firstReal.expected ∧
    ∃ k', Json.parse read firstReal.write = .ok k' ∧ k'.name = firstReal.name ∧
      k'.request = firstReal.request ∧ k'.verify ≠ .ok () := by
  have hkind : Kind.realHalfOpen ∈ Kind.reals := by decide
  obtain ⟨hdraws, hanswers⟩ := reals_survive_reading_iff_their_quotients_do hkind
  refine ⟨hkind, ?_, rfl, by decide, by decide, stream_firstReal, ?_⟩
  · obtain ⟨x, hx, _, _, _, hfew⟩ := hdraws 0x8000000000000000
    cases hx
    exact hfew (by decide +kernel) (by decide +kernel)
  · obtain ⟨k', hread, hname, hrequest, hverify⟩ :=
      hanswers firstReal rfl (by decide) (by decide) stream_firstReal
    refine ⟨k', hread, hname, hrequest, ?_⟩
    intro hok
    exact reread_firstReal (hverify.mp hok _ List.mem_cons_self)

/-- A real can be read back as another one from its own text, and then a known
answer with that real is wrong after reading though it was right before. -/
theorem a_first_real_is_read_back_as_another :
    (∃ y, Json.parse Draw.read (Kind.realHalfOpen.draw 16668552215174154828).write = .ok y ∧
      y.bytes ≠ (Kind.realHalfOpen.draw 16668552215174154828).bytes) ∧
    firstReal.request.stream = .ok firstReal.expected ∧
    ∃ k', Json.parse read firstReal.write = .ok k' ∧ k'.verify ≠ .ok () := by
  have hkind : Kind.realHalfOpen ∈ Kind.reals := by decide
  refine ⟨⟨_, Json.parse_of_reads (reads_of_word Json.depthLimit hkind _), ?_⟩, stream_firstReal,
    ⟨_, Json.parse_of_reads (reads_write 123 (by decide) (by decide)
      (reads_expected 125 hkind stream_firstReal)), ?_⟩⟩
  · intro hbytes
    exact reread_firstReal ((Draw.bytes_real_eq_iff _ _).mp hbytes)
  · intro hok
    exact reread_firstReal
      ((verify_reread_eq_ok_iff hkind stream_firstReal).mp hok _ List.mem_cons_self)

end KnownAnswer

end SeededStreams
