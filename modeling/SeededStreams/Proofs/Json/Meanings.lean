-- What readers make of documents. A reader gives every document a meaning or none,
-- whatever text says the document; so two texts of one document are read alike,
-- and what a reader does is told by what it does with documents.
import SeededStreams.Proofs.Json.Documents
import SeededStreams.Proofs.Json.Objects
import SeededStreams.Proofs.Json.Records

namespace SeededStreams.Json

/-! ## Readers and documents -/

/-- Where a document stands behind blanks, the reader reads what the document means to
it, up to the end of the document, and reads nothing if it means nothing. -/
def Understands {α : Type} (reader : List Char → Except Fault (α × List Char))
    (meaning : Document → Option α) : Prop :=
  ∀ (d : Document) (s u t : List Char), Blanks s u → d.Stands u t → ∀ x rest,
    reader s = .ok (x, rest) ↔ meaning d = some x ∧ rest = t

theorem endOfText_of_blanks {s : List Char} (h : Blanks s []) : endOfText s = .ok () := by
  unfold endOfText
  rw [h.dropBlank_eq]
  rfl

/-- A whole text is read as what its document means. -/
theorem Understands.parse_eq_ok_iff {α : Type} {reader : Reader α} {meaning : Document → Option α}
    (h : Understands (reader depthLimit) meaning) {d : Document} {s : List Char} (hs : d.Text s)
    (x : α) : parse reader s = .ok x ↔ meaning d = some x := by
  obtain ⟨u, v, hfront, hstands, hback⟩ := hs
  simp only [Json.parse_eq_ok_iff, h d s u v hfront hstands]
  constructor
  · rintro ⟨_, ⟨hx, _⟩, _⟩
    exact hx
  · intro hx
    exact ⟨v, ⟨hx, rfl⟩, endOfText_of_blanks hback⟩

/-- What is made of a document that has been read. -/
theorem Understands.map {α β : Type} {reader : List Char → Except Fault (α × List Char)}
    {meaning : Document → Option α} (h : Understands reader meaning) (f : α → β) :
    Understands (fun s => do let (x, s) ← reader s; return (f x, s))
      fun d => (meaning d).map f := by
  intro d s u t hblanks hd y rest
  simp only [bind_eq_ok_iff, Prod.exists, h d s u t hblanks hd, Option.map_eq_some_iff]
  constructor
  · rintro ⟨x, _, ⟨hx, rfl⟩, hy⟩
    cases hy
    exact ⟨⟨x, hx, rfl⟩, rfl⟩
  · rintro ⟨⟨x, hx, rfl⟩, rfl⟩
    exact ⟨x, rest, ⟨hx, rfl⟩, rfl⟩

theorem dropBlank_dropBlank (s : List Char) : dropBlank (dropBlank s) = dropBlank s :=
  List.dropWhile_idempotent isBlank s

/-- A list begins with a bracket, an object with a brace, and nothing else with either. -/
theorem Document.Stands.sorts {d : Document} {s t : List Char} (h : d.Stands s t) :
    (∃ ds r, d = .list ds ∧ s = '[' :: r ∧ Elements Document.Stands true ds r t) ∨
    (∃ ms r, d = .object ms ∧ s = '\x7b' :: r ∧ Members Document.Stands true ms r t) ∨
    ∃ c r, s = c :: r ∧ isBlank c = false ∧ c ≠ '[' ∧ c ≠ '\x7b' ∧
      (∀ ds, d ≠ .list ds) ∧ ∀ ms, d ≠ .object ms := by
  cases h.inside with
  | list hf hds =>
    cases hf
    exact Or.inl ⟨_, _, rfl, rfl, hds⟩
  | object hf hms =>
    cases hf
    exact Or.inr (Or.inl ⟨_, _, rfl, rfl, hms⟩)
  | number hn _ =>
    obtain ⟨c, r, rfl, hc⟩ := hn.head
    exact Or.inr (Or.inr ⟨c, _, rfl, isBlank_of_number hc,
      Document.ne_of_begins_number hc (by decide), Document.ne_of_begins_number hc (by decide),
      nofun, nofun⟩)
  | _ =>
    exact Or.inr (Or.inr ⟨_, _, rfl, by decide, by decide, by decide, nofun, nofun⟩)

section Front

variable {α : Type} {reader : List Char → Except Fault (α × List Char)}
  {meaning : Document → Option α}

/-- A reader that passes over blanks need only be looked at where a document begins. -/
theorem understands_of_front (hblank : ∀ s, reader (dropBlank s) = reader s)
    (h : ∀ d s t, Document.Stands d s t → ∀ x rest,
      reader s = .ok (x, rest) ↔ meaning d = some x ∧ rest = t) : Understands reader meaning := by
  intro d s u t hblanks hstands x rest
  rw [← hblank s, hblanks.dropBlank_eq, hblank u]
  exact h d u t hstands x rest

/-- A reader that wants a list or an object need only be looked at behind the bracket
and behind the brace. -/
theorem understands_of_brackets (hblank : ∀ s, reader (dropBlank s) = reader s)
    (hlist : ∀ ds s t, Elements Document.Stands true ds s t → ∀ x rest,
      reader ('[' :: s) = .ok (x, rest) ↔ meaning (.list ds) = some x ∧ rest = t)
    (hobject : ∀ ms s t, Document.Stands (.object ms) ('\x7b' :: s) t →
      Members Document.Stands true ms s t → ∀ x rest,
        reader ('\x7b' :: s) = .ok (x, rest) ↔ meaning (.object ms) = some x ∧ rest = t)
    (hother : ∀ s, (∀ r, dropBlank s ≠ '[' :: r) → (∀ r, dropBlank s ≠ '\x7b' :: r) →
      ∀ p, reader s ≠ .ok p)
    (hnone : ∀ d, (∀ ds, d ≠ .list ds) → (∀ ms, d ≠ .object ms) → meaning d = none) :
    Understands reader meaning := by
  apply understands_of_front hblank
  intro d s t hstands x rest
  rcases hstands.sorts with ⟨ds, r, rfl, rfl, hds⟩ | ⟨ms, r, rfl, rfl, hms⟩ | hplain
  · exact hlist ds r t hds x rest
  · exact hobject ms r t hstands hms x rest
  · obtain ⟨c, r, rfl, hc, hbracket, hbrace, hlist, hobject⟩ := hplain
    have hdrop := dropBlank_cons r hc
    have hno : reader (c :: r) ≠ .ok (x, rest) := by
      apply hother
      all_goals
        intro r' heq
        rw [hdrop] at heq
        cases heq
      · exact hbracket rfl
      · exact hbrace rfl
    rw [hnone d hlist hobject]
    simp [hno]

end Front

/-! ## Lists and objects -/

section Parts

variable {first : Bool} {s t u v : List Char}

theorem nextElement_done (first : Bool) (h : Blanks s (']' :: t)) :
    nextElement first s = .ok (.done t) := by
  unfold nextElement
  rw [h.dropBlank_eq_cons rfl]
  rfl

theorem nextElement_more {d : Document} (honward : Onward first s u) (hd : d.Stands u v) :
    nextElement first s = .ok (.more u) := by
  obtain ⟨c, r, rfl, hblank, hclose⟩ := Document.stands_solid.begins _ _ _ hd
  cases honward with
  | first hfront =>
    unfold nextElement
    rw [hfront.dropBlank_eq_cons hblank]
    split
    case h_1 heq => cases heq
    case h_2 heq =>
      cases heq
      exact absurd rfl hclose
    case h_3 heq =>
      cases heq
      rfl
  | comma hcomma hfront =>
    unfold nextElement
    rw [hcomma.dropBlank_eq_cons rfl]
    split
    case h_1 heq => cases heq
    case h_2 heq => cases heq
    case h_3 heq =>
      cases heq
      rw [if_neg Bool.false_ne_true, if_pos rfl, hfront.dropBlank_eq_cons hblank]
      split
      case h_1 heq => cases heq
      case h_2 heq =>
        cases heq
        exact absurd rfl hclose
      case h_3 => rfl

theorem nextMember_done (first : Bool) (h : Blanks s ('\x7d' :: t)) :
    nextMember first s = .ok (.done t) := by
  unfold nextMember
  rw [h.dropBlank_eq_cons rfl]
  rfl

theorem nextMember_more (h : Onward first s ('"' :: t)) : nextMember first s = .ok (.more t) := by
  cases h with
  | first hfront =>
    unfold nextMember
    rw [hfront.dropBlank_eq_cons rfl]
    rfl
  | comma hcomma hfront =>
    unfold nextMember
    rw [hcomma.dropBlank_eq_cons rfl]
    split
    case h_1 heq => cases heq
    case h_2 heq => cases heq
    case h_3 heq =>
      cases heq
      rw [if_neg Bool.false_ne_true, if_pos rfl, hfront.dropBlank_eq_cons rfl]
      rfl

theorem colon_of_blanks (h : Blanks s (':' :: t)) : colon s = .ok t := by
  unfold colon
  rw [h.dropBlank_eq_cons rfl]
  rfl

end Parts

theorem elements_succ_eq_ok_iff {α : Type} (element : List Char → Except Fault (α × List Char))
    (fuel : Nat) (first : Bool) (s : List Char) (xs : List α) (rest : List Char) :
    elements element (fuel + 1) first s = .ok (xs, rest) ↔
      (nextElement first s = .ok (.done rest) ∧ xs = []) ∨
      ∃ t x u tail, nextElement first s = .ok (.more t) ∧ element t = .ok (x, u) ∧
        elements element fuel false u = .ok (tail, rest) ∧ xs = x :: tail := by
  simp only [elements, bind_eq_ok_iff]
  constructor
  · rintro ⟨next, hnext, h⟩
    cases next with
    | done after =>
      cases h
      exact Or.inl ⟨hnext, rfl⟩
    | more t =>
      simp only [bind_eq_ok_iff, Prod.exists] at h
      obtain ⟨x, u, hx, tail, _, htail, h⟩ := h
      cases h
      exact Or.inr ⟨t, x, u, tail, hnext, hx, htail, rfl⟩
  · rintro (⟨hnext, rfl⟩ | ⟨t, x, u, tail, hnext, hx, htail, rfl⟩)
    · exact ⟨_, hnext, rfl⟩
    · refine ⟨_, hnext, ?_⟩
      simp only [bind_eq_ok_iff, Prod.exists]
      exact ⟨x, u, hx, tail, rest, htail, rfl⟩

theorem mapM_cons_eq_some_iff {α β : Type} (f : α → Option β) (a : α) (as : List α) (ys : List β) :
    (a :: as).mapM f = some ys ↔
      ∃ y zs, f a = some y ∧ as.mapM f = some zs ∧ y :: zs = ys := by
  simp only [List.mapM_cons, Option.bind_eq_bind, Option.bind_eq_some_iff, Option.pure_def,
    Option.some.injEq]
  constructor
  · rintro ⟨y, hy, zs, hzs, h⟩
    exact ⟨y, zs, hy, hzs, h⟩
  · rintro ⟨y, zs, hy, hzs, h⟩
    exact ⟨y, hy, zs, hzs, h⟩

section Runs

variable {α σ : Type} {first : Bool} {s t : List Char}

theorem Understands.elements_eq_ok_iff {element : List Char → Except Fault (α × List Char)}
    {meaning : Document → Option α} (h : Understands element meaning) {ds : List Document}
    (hds : Elements Document.Stands first ds s t) {fuel : Nat} (hfuel : ds.length < fuel)
    (xs : List α) (rest : List Char) :
    elements element fuel first s = .ok (xs, rest) ↔ ds.mapM meaning = some xs ∧ rest = t := by
  induction hds generalizing fuel xs with
  | @done first s t hclose =>
    obtain ⟨fuel, rfl⟩ := Nat.exists_eq_succ_of_ne_zero (Nat.ne_zero_of_lt hfuel)
    rw [elements_succ_eq_ok_iff, nextElement_done first hclose]
    constructor
    · rintro (⟨hnext, rfl⟩ | ⟨_, _, _, _, hnext, _⟩)
      · cases hnext
        exact ⟨rfl, rfl⟩
      · cases hnext
    · rintro ⟨hxs, rfl⟩
      cases hxs
      exact Or.inl ⟨rfl, rfl⟩
  | @more first d ds s u v t honward hd _ ih =>
    obtain ⟨fuel, rfl⟩ := Nat.exists_eq_succ_of_ne_zero (Nat.ne_zero_of_lt hfuel)
    have htail := ih (Nat.lt_of_succ_lt_succ hfuel)
    have hhead := h d u u v (.none u) hd
    simp only [elements_succ_eq_ok_iff, nextElement_more honward hd, mapM_cons_eq_some_iff]
    constructor
    · rintro (⟨hnext, _⟩ | ⟨_, x, w, tail, hnext, hx, hxs, rfl⟩)
      · cases hnext
      · cases hnext
        obtain ⟨hx, rfl⟩ := (hhead x w).mp hx
        obtain ⟨hxs, rfl⟩ := (htail tail).mp hxs
        exact ⟨⟨x, tail, hx, hxs, rfl⟩, rfl⟩
    · rintro ⟨⟨x, tail, hx, hxs, rfl⟩, rfl⟩
      exact Or.inr ⟨u, x, v, tail, rfl, (hhead x v).mpr ⟨hx, rfl⟩, (htail tail).mpr ⟨hxs, rfl⟩, rfl⟩

/-- A list from behind its bracket. -/
theorem Understands.list_eq_ok_iff {element : List Char → Except Fault (α × List Char)}
    {meaning : Document → Option α} (h : Understands element meaning) {ds : List Document}
    (hds : Elements Document.Stands true ds s t) (xs : List α) (rest : List Char) :
    list element s = .ok (xs, rest) ↔ ds.mapM meaning = some xs ∧ rest = t := by
  have hlength := hds.length_lt Document.stands_solid
  exact h.elements_eq_ok_iff hds (by omega) xs rest

/-- A reader of members takes each of them, from behind its key, as a step tells. -/
def TakesDocuments (member : σ → List Char → List Char → Except Fault (σ × List Char))
    (step : σ → List Char × Document → Option σ) : Prop :=
  ∀ (state : σ) (key : List Char) (d : Document) (s t u v : List Char), Blanks s (':' :: t) →
    Blanks t u → d.Stands u v → ∀ next rest,
      member state key s = .ok (next, rest) ↔ step state (key, d) = some next ∧ rest = v

theorem TakesDocuments.members_eq_ok_iff
    {member : σ → List Char → List Char → Except Fault (σ × List Char)}
    {step : σ → List Char × Document → Option σ} (h : TakesDocuments member step)
    {ms : List (List Char × Document)} (hms : Members Document.Stands first ms s t) {fuel : Nat}
    (hfuel : ms.length < fuel) (state last : σ) (rest : List Char) :
    members member fuel first state s = .ok (last, rest) ↔
      ms.foldlM step state = some last ∧ rest = t := by
  induction hms generalizing fuel state with
  | @done first s t hclose =>
    obtain ⟨fuel, rfl⟩ := Nat.exists_eq_succ_of_ne_zero (Nat.ne_zero_of_lt hfuel)
    rw [members_succ_eq_ok_iff, nextMember_done first hclose]
    constructor
    · rintro (⟨hnext, rfl⟩ | ⟨_, _, _, _, _, hnext, _⟩)
      · cases hnext
        exact ⟨rfl, rfl⟩
      · cases hnext
    · rintro ⟨hlast, rfl⟩
      cases hlast
      exact Or.inl ⟨rfl, rfl⟩
  | @more first key d ms s k c w u v t honward hkey hcolon hblanks hd _ ih =>
    obtain ⟨fuel, rfl⟩ := Nat.exists_eq_succ_of_ne_zero (Nat.ne_zero_of_lt hfuel)
    have htail := ih (Nat.lt_of_succ_lt_succ hfuel)
    have hhead := h state key d c w u v hcolon hblanks hd
    simp only [members_succ_eq_ok_iff, nextMember_more honward, List.foldlM_cons,
      Option.bind_eq_bind, Option.bind_eq_some_iff]
    constructor
    · rintro (⟨hnext, _⟩ | ⟨_, key', c', next, w', hnext, hread, hmember, hms⟩)
      · cases hnext
      · cases hnext
        rw [hkey.read] at hread
        cases hread
        obtain ⟨hnext, rfl⟩ := (hhead next w').mp hmember
        obtain ⟨hlast, rfl⟩ := (htail next).mp hms
        exact ⟨⟨next, hnext, hlast⟩, rfl⟩
    · rintro ⟨⟨next, hnext, hlast⟩, rfl⟩
      exact Or.inr ⟨k, key, c, next, v, rfl, hkey.read, (hhead next v).mpr ⟨hnext, rfl⟩,
        (htail next).mpr ⟨hlast, rfl⟩⟩

/-- An object from behind its brace. -/
theorem TakesDocuments.object_eq_ok_iff
    {member : σ → List Char → List Char → Except Fault (σ × List Char)}
    {step : σ → List Char × Document → Option σ} (h : TakesDocuments member step)
    {ms : List (List Char × Document)} (hms : Members Document.Stands true ms s t)
    (start last : σ) (rest : List Char) :
    object member start s = .ok (last, rest) ↔ ms.foldlM step start = some last ∧ rest = t := by
  have hlength := hms.length_lt Document.stands_solid
  exact h.members_eq_ok_iff hms (by omega) start last rest

end Runs

/-! ## Values -/

namespace Document

/-- The value that a document is, when it is told which values are inside it. -/
def valueWith (inside : Option (Document → Option Value)) : Document → Option Value
  | null => some .null
  | boolean b => some (.boolean b)
  | number n => n.number.toOption.map .number
  | text w => some (.text w)
  | list ds => inside.bind fun f => (ds.mapM f).map .list
  | object ms =>
    inside.bind fun f => (ms.mapM fun m => (f m.2).map fun v => (m.1, v)).map .object

/-- The value that a document is: its numbers have to be in range, and not more than
`room` lists and objects may be open at the same time. -/
def value? : (room : Nat) → Document → Option Value
  | 0 => valueWith none
  | room + 1 => valueWith (some (value? room))

theorem value?_list_eq_some_iff (room : Nat) (ds : List Document) (v : Value) :
    value? (room + 1) (list ds) = some v ↔ ∃ vs, ds.mapM (value? room) = some vs ∧ .list vs = v :=
  Option.map_eq_some_iff

theorem value?_object_eq_some_iff (room : Nat) (ms : List (List Char × Document)) (v : Value) :
    value? (room + 1) (object ms) = some v ↔
      ∃ vs, (ms.mapM fun m => (value? room m.2).map fun v => (m.1, v)) = some vs ∧ .object vs = v :=
  Option.map_eq_some_iff

end Document

/-- The members of a document that is kept whole, put one before the other. -/
theorem foldlM_keep_documents (f : Document → Option Value) (ms : List (List Char × Document))
    (before : List (List Char × Value)) :
    (ms.foldlM (fun before m => (f m.2).map fun v => (m.1, v) :: before) before) =
      (ms.mapM fun m => (f m.2).map fun v => (m.1, v)).map fun vs => vs.reverse ++ before := by
  induction ms generalizing before with
  | nil => rfl
  | cons m ms ih =>
    rw [List.foldlM_cons, List.mapM_cons]
    cases f m.2 with
    | none => rfl
    | some v =>
      simp only [Option.map_some, Option.bind_eq_bind, Option.bind_some, ih]
      cases ms.mapM fun m => (f m.2).map fun v => (m.1, v) with
      | none => rfl
      | some vs => simp

theorem takesDocuments_keep {inside : List Char → Except Fault (Value × List Char)}
    {f : Document → Option Value} (h : Understands inside f) :
    TakesDocuments (fun before key s => do
        let (v, s) ← inside (← colon s)
        return ((key, v) :: before, s))
      fun before m => (f m.2).map fun v => (m.1, v) :: before := by
  intro before key d s t u v hcolon hblanks hd next rest
  simp only [colon_of_blanks hcolon, bind_eq_ok_iff, Prod.exists, Option.map_eq_some_iff]
  constructor
  · rintro ⟨_, hc, x, w, hx, hnext⟩
    cases hc
    cases hnext
    obtain ⟨hx, rfl⟩ := (h d t u v hblanks hd x _).mp hx
    exact ⟨⟨x, hx, rfl⟩, rfl⟩
  · rintro ⟨⟨x, hx, rfl⟩, rfl⟩
    exact ⟨t, rfl, x, rest, (h d t u rest hblanks hd x rest).mpr ⟨hx, rfl⟩, rfl⟩

theorem toOption_eq_some_iff {ε α : Type} (r : Except ε α) (x : α) :
    r.toOption = some x ↔ r = .ok x := by
  cases r <;> simp [Except.toOption]

theorem ok_pair_eq_iff {ε α β : Type} (x y : α) (s t : β) :
    (.ok (x, s) : Except ε (α × β)) = .ok (y, t) ↔ some x = some y ∧ t = s := by
  simp [eq_comm]

theorem Value.understands_readWith {inside : Option (List Char → Except Fault (Value × List Char))}
    {f : Option (Document → Option Value)} (h : Option.Rel Understands inside f) :
    Understands (readWith inside) (Document.valueWith f) := by
  apply understands_of_front (readWith_dropBlank inside)
  intro d s t hstands v rest
  cases hstands.inside with
  | null t => exact ok_pair_eq_iff .null v t rest
  | yes t => exact ok_pair_eq_iff (.boolean true) v t rest
  | no t => exact ok_pair_eq_iff (.boolean false) v t rest
  | @number n text t hn hended =>
    have hread := Numeral.read_of_spells .valueCutShort hn hended
    obtain ⟨c, r, rfl, hc⟩ := hn.head
    rw [List.cons_append] at hread ⊢
    rw [readWith_number inside hc]
    simp only [Number.read, hread, bind_eq_ok_iff, Document.valueWith, Option.map_eq_some_iff,
      toOption_eq_some_iff]
    constructor
    · rintro ⟨⟨x, _⟩, ⟨_, hn, y, hy, hxs⟩, hv⟩
      cases hn
      cases hxs
      cases hv
      exact ⟨⟨x, hy, rfl⟩, rfl⟩
    · rintro ⟨⟨x, hx, rfl⟩, rfl⟩
      exact ⟨(x, rest), ⟨(n, rest), rfl, x, hx, rfl⟩, rfl⟩
  | @text w s t hw =>
    have hread : readWith inside ('"' :: s) =
        Quoted.read s >>= fun p => .ok (.text p.1, p.2) := rfl
    rw [hread, hw.read]
    exact ok_pair_eq_iff (.text w) v t rest
  | @list _ ds s t hf hds =>
    cases hf
    cases h with
    | none => simp [readWith, dropBlank, isBlank, Document.valueWith]
    | @some f g h =>
      have hread : readWith (some f) ('[' :: s) =
          Json.list f s >>= fun p => .ok (.list p.1, p.2) := rfl
      simp only [hread, bind_eq_ok_iff, Prod.exists, h.list_eq_ok_iff hds, Document.valueWith,
        Option.bind_some, Option.map_eq_some_iff]
      constructor
      · rintro ⟨xs, _, ⟨hxs, rfl⟩, hv⟩
        cases hv
        exact ⟨⟨xs, hxs, rfl⟩, rfl⟩
      · rintro ⟨⟨xs, hxs, rfl⟩, rfl⟩
        exact ⟨xs, rest, ⟨hxs, rfl⟩, rfl⟩
  | @object _ ms s t hf hms =>
    cases hf
    cases h with
    | none => simp [readWith, dropBlank, isBlank, Document.valueWith]
    | @some f g h =>
      have hread : readWith (some f) ('\x7b' :: s) =
          Json.object (fun before key s => do
            let (v, s) ← f (← colon s)
            return ((key, v) :: before, s)) [] s >>= fun p => .ok (.object p.1.reverse, p.2) := rfl
      simp only [hread, bind_eq_ok_iff, Prod.exists, (takesDocuments_keep h).object_eq_ok_iff hms,
        foldlM_keep_documents, Document.valueWith, Option.bind_some, Option.map_eq_some_iff]
      constructor
      · rintro ⟨_, _, ⟨⟨vs, hvs, rfl⟩, rfl⟩, hv⟩
        cases hv
        exact ⟨⟨vs, hvs, by simp⟩, rfl⟩
      · rintro ⟨⟨vs, hvs, rfl⟩, rfl⟩
        exact ⟨_, rest, ⟨⟨vs, hvs, rfl⟩, rfl⟩, by simp⟩

/-- A value is read as the value that its document is. -/
theorem Value.understands_read (room : Nat) : Understands (read room) (Document.value? room) := by
  induction room with
  | zero => exact understands_readWith .none
  | succ room ih => exact understands_readWith (.some ih)

/-! ## Values of a wanted sort -/

/-- Values with nothing inside them are read as the documents that are such values. -/
theorem understands_scalar {α : Type} {wanted : String} {as : Value → Except Fault α}
    {meaning : Document → Option α} (hplain : ∀ v x, as v = .ok x → v.Plain) (depth : Nat)
    (hmeaning : ∀ d x, meaning d = some x ↔ ∃ v, d.value? depth = some v ∧ as v = .ok x)
    (room : Nat) : Understands (scalar wanted as room) meaning := by
  intro d s u t hblanks hd x rest
  obtain ⟨inside, hinside, _⟩ := Value.read_eq depth
  simp only [scalar_eq_ok_iff (fun v => hplain v x) room inside, ← hinside, hmeaning,
    Value.understands_read depth d s u t hblanks hd]
  constructor
  · rintro ⟨v, ⟨hv, rfl⟩, has⟩
    exact ⟨⟨v, hv, has⟩, rfl⟩
  · rintro ⟨⟨v, hv, has⟩, rfl⟩
    exact ⟨v, ⟨hv, rfl⟩, has⟩

/-- The elements of a document that is a list, each with its meaning. -/
def Document.listOf? {α : Type} (meaning : Document → Option α) : Document → Option (List α)
  | list ds => ds.mapM meaning
  | _ => none

theorem understands_listOf {α : Type} {element : Reader α} {meaning : Document → Option α}
    {room : Nat} (h : Understands (element room) meaning) :
    Understands (listOf element (room + 1)) (Document.listOf? meaning) := by
  apply understands_of_brackets
  · intro s
    unfold listOf
    rw [dropBlank_dropBlank]
  · intro ds s t hds xs rest
    exact h.list_eq_ok_iff hds xs rest
  · intro ms s t _ _ xs rest
    simp [listOf, dropBlank, isBlank, Document.listOf?]
  · intro s hbracket _ p
    unfold listOf
    split
    · rename_i heq
      exact absurd heq (hbracket _)
    · intro h
      cases h
  · intro d hlist _
    cases d with
    | list ds => exact absurd rfl (hlist ds)
    | _ => rfl

end SeededStreams.Json
