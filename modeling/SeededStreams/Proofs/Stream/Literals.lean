-- Numbers in requests and checkpoints. Wherever a natural number is wanted, a numeral is
-- read as exactly the number that it spells, or the text is refused; no numeral is
-- rounded, cut off or taken for another one, however long it is.
import SeededStreams.Proofs.Stream.Documents
import SeededStreams.Proofs.Twister.Documents

namespace SeededStreams.Literals

/-! ## Texts with numbers left open -/

/-- A member of plain characters, with the text of its value and what follows. -/
def member (key : String) (rest : List Char) : List Char :=
  '"' :: (key.toList ++ '"' :: ':' :: rest)

/-- The text of a source from a seed that is left open, and what follows. -/
def sourceText (seed rest : List Char) : List Char :=
  '\x7b' :: member "algorithm" ('"' :: ("mt19937_64".toList ++ '"' ::
    ',' :: member "seed" (seed ++ '\x7d' :: rest)))

/-- The text of a request whose seed and count are left open. -/
def requestText (seed count : List Char) : List Char :=
  '\x7b' :: member "generator" (sourceText seed (',' :: member "count" (count ++ ['\x7d'])))

/-- The document of a source from a seed that is left open. -/
def sourceDocument (seed : Json.Document) : Json.Document :=
  .object [("algorithm".toList, .text "mt19937_64".toList), ("seed".toList, seed)]

/-- The document of a request whose seed and count are left open. -/
def requestDocument (seed count : Json.Document) : Json.Document :=
  .object [("generator".toList, sourceDocument seed), ("count".toList, count)]

theorem stands_sourceDocument {n : Json.Numeral} {seed : List Char} (hn : n.Spells seed)
    (rest : List Char) :
    Json.Document.StandsUpTo 1 (sourceDocument (.number n)) (sourceText seed rest) rest := by
  have hnumber : Json.Document.StandsUpTo 0 (.number n) (seed ++ '\x7d' :: rest) ('\x7d' :: rest) :=
    Json.Document.StandsWith.number hn (Json.ended_brace rest)
  have hname : ∀ t, Json.Document.StandsUpTo 0 (.text "mt19937_64".toList)
      ('"' :: ("mt19937_64".toList ++ '"' :: t)) t :=
    fun t => Json.Document.StandsWith.text (Json.Quoted.stands_plain rfl t)
  exact Json.Document.StandsWith.object rfl (.plain rfl (.first (.none _)) (hname _)
    (.plain rfl (.comma (.none _) (.none _)) hnumber (.done (.none _))))

theorem text_requestDocument {m n : Json.Numeral} {seed count : List Char} (hm : m.Spells seed)
    (hn : n.Spells count) :
    (requestDocument (.number m) (.number n)).Text (requestText seed count) := by
  have hnumber : Json.Document.StandsUpTo 1 (.number n) (count ++ ['\x7d']) ['\x7d'] :=
    Json.Document.StandsWith.number hn (Json.ended_brace [])
  exact ⟨_, [], .none _, ⟨2, Json.Document.StandsWith.object rfl (.plain rfl
    (.first (.none _)) (stands_sourceDocument hm _)
    (.plain rfl (.comma (.none _) (.none _)) hnumber (.done (.none _))))⟩, .none _⟩

/-- The text of a checkpoint of one word, where the word and the index are left open. -/
def checkpointText (word index : List Char) : List Char :=
  '\x7b' :: member "words" ('[' :: (word ++ ']' :: ',' :: member "index" (index ++ ['\x7d'])))

/-- The document of such a checkpoint. -/
def checkpointDocument (word index : Json.Document) : Json.Document :=
  .object [("words".toList, .list [word]), ("index".toList, index)]

theorem text_checkpointDocument {m n : Json.Numeral} {word index : List Char} (hm : m.Spells word)
    (hn : n.Spells index) :
    (checkpointDocument (.number m) (.number n)).Text (checkpointText word index) := by
  have hnumber : Json.Document.StandsUpTo 1 (.number n) (index ++ ['\x7d']) ['\x7d'] :=
    Json.Document.StandsWith.number hn (Json.ended_brace [])
  have helement : ∀ t, Json.Document.StandsUpTo 0 (.number m) (word ++ ']' :: t) (']' :: t) :=
    fun t => Json.Document.StandsWith.number hm (Json.ended_bracket t)
  have hlist : ∀ t, Json.Document.StandsUpTo 1 (.list [.number m]) ('[' :: (word ++ ']' :: t)) t :=
    fun t => Json.Document.StandsWith.list rfl
      (.more (.first (.none _)) (helement t) (.done (.none _)))
  exact ⟨_, [], .none _, ⟨2, Json.Document.StandsWith.object rfl (.plain rfl
    (.first (.none _)) (hlist _)
    (.plain rfl (.comma (.none _) (.none _)) hnumber (.done (.none _))))⟩, .none _⟩

/-- Numerals that are no natural number, or that do not fit a word. -/
def unfitTexts : List (List Char) :=
  ["-0".toList, "1.0".toList, "1e3".toList, Nat.toDigits 10 UInt64.size,
    Nat.toDigits 10 1000000000000000000000000]

theorem unfit_spelled : ∀ text ∈ unfitTexts, ∃ n : Json.Numeral, n.Spells text ∧
    ∀ v, v < UInt64.size → ¬ n.IsNat v := by
  have hlarge : ∀ k, UInt64.size ≤ k → ∃ n : Json.Numeral, n.Spells (Nat.toDigits 10 k) ∧
      ∀ v, v < UInt64.size → ¬ n.IsNat v := by
    intro k hk
    refine ⟨_, Json.Numeral.spells_toDigits k, ?_⟩
    intro v hv hn
    have hvalue : k = v := Nat.ofDigitChars_ten_toDigits.symm.trans hn.value
    omega
  have hone : Json.Numeral.Whole ['1'] := Json.Numeral.whole_toDigits 1
  have hzero : Json.Digits ['0'] := Json.digits_toDigits 0
  have hthree : Json.Digits ['3'] := Json.digits_toDigits 3
  simp only [unfitTexts, List.forall_mem_cons]
  refine ⟨?_, ?_, ?_, hlarge _ (Nat.le_refl _), hlarge _ (by decide), List.forall_mem_nil _⟩
  · exact ⟨_, Json.Numeral.spells_signed true 0, fun v _ hn => nomatch hn.unsigned⟩
  · exact ⟨⟨false, ['1'], ['0'], none⟩, .intro hone (.some hzero) .none,
      fun v _ hn => nomatch hn.no_fraction⟩
  · exact ⟨⟨false, ['1'], [], some (false, ['3'])⟩, .intro hone .none (.bare (.inl rfl) hthree),
      fun v _ hn => nomatch hn.no_power⟩

/-- Nothing is read in place of a numeral that does not fit. -/
theorem all_isNone {α : Type} {reader : List Char → Except Json.Fault α} {put : Nat → α}
    (h : ∀ (n : Json.Numeral) (text : List Char), n.Spells text → ∀ x,
      reader text = .ok x ↔ ∃ v, v < UInt64.size ∧ n.IsNat v ∧ x = put v) :
    (unfitTexts.all fun text => (reader text).toOption.isNone) = true := by
  rw [List.all_eq_true]
  intro text htext
  obtain ⟨n, hspells, hunfit⟩ := unfit_spelled text htext
  cases hread : reader text with
  | error e => rfl
  | ok x =>
    obtain ⟨v, hv, hn, _⟩ := (h n text hspells x).mp hread
    exact absurd hn (hunfit v hv)

/-- The largest number that fits a word, as a text. -/
def largest : List Char := Nat.toDigits 10 (UInt64.size - 1)

/-! ## The law -/

/-- Take a text that is read as a request or as a checkpoint, and in it a number that is the
seed, a word of the key or of the state, the count or the count to skip, or a word, the
index or the batches. With any other numeral in its place, the text is read if and only
if the numeral has no sign, no point and no power and its value fits a word; and then
exactly this value stands in that place, and everything else is as before. The text may
have blanks anywhere, spell its strings in any way, be made of objects or of lists, and
hold further members; so it is for the numbers that are read straight from the text and
for those of a source, which are read out of a value that has been kept. A numeral that
is read is the digits of its value, and no other text. -/
theorem a_number_is_read_exactly_or_not_at_all :
    (∀ (r₀ : Request) (put : Nat → Request) (hole : Json.Document → Json.Document),
      Request.Place r₀ put hole → ∀ (n₀ : Json.Numeral) (s₀ : List Char),
      (hole (.number n₀)).Text s₀ → Json.parse Request.read s₀ = .ok r₀ →
      ∀ (n : Json.Numeral) (s : List Char), (hole (.number n)).Text s → ∀ r,
        Json.parse Request.read s = .ok r ↔ ∃ v, v < UInt64.size ∧ n.IsNat v ∧ r = put v) ∧
    (∀ (c₀ : Checkpoint) (put : Nat → Checkpoint) (hole : Json.Document → Json.Document),
      Checkpoint.Place c₀ put hole → ∀ (n₀ : Json.Numeral) (s₀ : List Char),
      (hole (.number n₀)).Text s₀ → Json.parse Checkpoint.read s₀ = .ok c₀ →
      ∀ (n : Json.Numeral) (s : List Char), (hole (.number n)).Text s → ∀ c,
        Json.parse Checkpoint.read s = .ok c ↔ ∃ v, v < UInt64.size ∧ n.IsNat v ∧ c = put v) ∧
    (∀ (n : Json.Numeral) (text : List Char), n.Spells text → ∀ v,
      n.IsNat v ↔ text = Nat.toDigits 10 v) := by
  refine ⟨?_, ?_, fun n text h => h.isNat_iff⟩
  · intro r₀ put hole hplace n₀ s₀ hs₀ h₀ n s hs r
    rw [Request.parse_eq_ok_iff hs₀] at h₀
    rw [Request.parse_eq_ok_iff hs]
    exact hplace.ofDocument_eq_some_iff h₀ n r
  · intro c₀ put hole hplace n₀ s₀ hs₀ h₀ n s hs c
    rw [Checkpoint.parse_eq_ok_iff hs₀] at h₀
    rw [Checkpoint.parse_eq_ok_iff hs]
    exact hplace.ofDocument_eq_some_iff h₀ n c

/-- The law at the seed and at the count of one request, and at the word and at the index
of one checkpoint: the largest number that fits is read, and what does not fit is not. -/
theorem the_largest_number_is_read_and_no_larger_one :
    (Json.parse Request.read (requestText ['1'] ['1']) = .ok ⟨.twisterSeed 1, .u64, 1, 0⟩ ∧
      Json.parse Checkpoint.read (checkpointText ['1'] ['1']) = .ok ⟨[1], 1, 0⟩) ∧
    (Json.parse Request.read (requestText largest ['1']) =
        .ok ⟨.twisterSeed 18446744073709551615, .u64, 1, 0⟩ ∧
      unfitTexts.all (fun text =>
        (Json.parse Request.read (requestText text ['1'])).toOption.isNone) = true) ∧
    (Json.parse Request.read (requestText ['1'] largest) =
        .ok ⟨.twisterSeed 1, .u64, 18446744073709551615, 0⟩ ∧
      unfitTexts.all (fun text =>
        (Json.parse Request.read (requestText ['1'] text)).toOption.isNone) = true) ∧
    (Json.parse Checkpoint.read (checkpointText largest ['1']) =
        .ok ⟨[18446744073709551615], 1, 0⟩ ∧
      unfitTexts.all (fun text =>
        (Json.parse Checkpoint.read (checkpointText text ['1'])).toOption.isNone) = true) ∧
    (Json.parse Checkpoint.read (checkpointText ['1'] largest) =
        .ok ⟨[1], 18446744073709551615, 0⟩ ∧
      unfitTexts.all (fun text =>
        (Json.parse Checkpoint.read (checkpointText ['1'] text)).toOption.isNone) = true) := by
  obtain ⟨hrequest, hcheckpoint, htext⟩ := a_number_is_read_exactly_or_not_at_all
  have hone : Json.Numeral.Spells ⟨false, ['1'], [], none⟩ ['1'] := Json.Numeral.spells_toDigits 1
  have hread : Json.parse Request.read (requestText ['1'] ['1']) =
      .ok ⟨.twisterSeed 1, .u64, 1, 0⟩ := rfl
  have hrestored : Json.parse Checkpoint.read (checkpointText ['1'] ['1']) = .ok ⟨[1], 1, 0⟩ := rfl
  have hseed := fun n text (h : Json.Numeral.Spells n text) => hrequest _ _ _
    (.source (.object [] _) (.seed (.object [_] []))) _ _ (text_requestDocument hone hone) hread n _
    (text_requestDocument h hone)
  have hcount := fun n text (h : Json.Numeral.Spells n text) => hrequest _ _ _
    (.count (.object [_] [])) _ _ (text_requestDocument hone hone) hread n _
    (text_requestDocument hone h)
  have hword := fun n text (h : Json.Numeral.Spells n text) => hcheckpoint _ _ _
    (.word (.object [] _) (.intro [] [])) _ _ (text_checkpointDocument hone hone) hrestored n _
    (text_checkpointDocument h hone)
  have hindex := fun n text (h : Json.Numeral.Spells n text) => hcheckpoint _ _ _
    (.index (.object [_] [])) _ _ (text_checkpointDocument hone hone) hrestored n _
    (text_checkpointDocument hone h)
  have hlargest := Json.Numeral.spells_toDigits (UInt64.size - 1)
  have hvalue := (htext _ _ hlargest _).mpr rfl
  exact ⟨⟨hread, hrestored⟩,
    ⟨(hseed _ _ hlargest _).mpr ⟨_, by decide, hvalue, rfl⟩, all_isNone hseed⟩,
    ⟨(hcount _ _ hlargest _).mpr ⟨_, by decide, hvalue, rfl⟩, all_isNone hcount⟩,
    ⟨(hword _ _ hlargest _).mpr ⟨_, by decide, hvalue, rfl⟩, all_isNone hword⟩,
    ⟨(hindex _ _ hlargest _).mpr ⟨_, by decide, hvalue, rfl⟩, all_isNone hindex⟩⟩

end SeededStreams.Literals
