-- Sources as documents. A source is understood out of the value that its document is;
-- whether that is an object or a list, the number in the member that counts can be
-- another one without a change to anything but that number.
import SeededStreams.Proofs.Json.Forms
import SeededStreams.Proofs.Json.Words
import SeededStreams.Proofs.Source.Members

namespace SeededStreams

/-! ## Sources out of values -/

namespace Source

/-- The one element of a list that has no other. -/
def sole? {α : Type} : List α → Option α
  | [a] => some a
  | _ => none

theorem sole?_eq_some_iff {α : Type} (xs : List α) (a : α) : sole? xs = some a ↔ xs = [a] := by
  unfold sole?
  split
  · simp
  · rename_i hno
    constructor
    · intro h
      cases h
    · intro h
      exact absurd h (hno a)

/-- The source that a value describes. -/
def ofKept : Json.Value → Option Source
  | .object ms => do
    let form ← (formOf (← sole? (Json.valuesOf "algorithm" ms))).toOption
    (ofValue form (← sole? (Json.valuesOf form.field ms))).toOption
  | .list (a :: vs) => do
    let form ← (formOf a).toOption
    (ofElements form vs).toOption
  | _ => none

theorem ofKept_object_eq_some_iff (ms : List (List Char × Json.Value)) (source : Source) :
    ofKept (.object ms) = some source ↔ Describes ms source := by
  simp only [ofKept, Option.bind_eq_bind, Option.bind_eq_some_iff, sole?_eq_some_iff,
    Json.toOption_eq_some_iff, formOf_eq_ok_iff, ofValue_eq_ok_iff, describes_iff]
  constructor
  · rintro ⟨_, halgorithm, _, rfl, _, hfield, rfl, rfl⟩
    exact ⟨halgorithm, hfield⟩
  · rintro ⟨halgorithm, hfield⟩
    exact ⟨_, halgorithm, source.form, rfl, _, hfield, rfl, rfl⟩

theorem ofElements_eq_ok_iff (form : Form) (vs : List Json.Value) (source : Source) :
    ofElements form vs = .ok source ↔ source.form = form ∧ vs = [source.fieldValue] := by
  cases vs with
  | nil => simp [ofElements]
  | cons v vs =>
    simp only [ofElements, Json.bind_eq_ok_iff, ofValue_eq_ok_iff]
    cases vs with
    | nil =>
      constructor
      · rintro ⟨_, ⟨hform, rfl⟩, h⟩
        cases h
        exact ⟨hform, rfl⟩
      · rintro ⟨hform, h⟩
        cases h
        exact ⟨source, ⟨hform, rfl⟩, rfl⟩
    | cons w vs => simp

theorem ofKept_list_eq_some_iff (vs : List Json.Value) (source : Source) :
    ofKept (.list vs) = some source ↔
      vs = [.text source.form.name.toList, source.fieldValue] := by
  cases vs with
  | nil => simp [ofKept]
  | cons a vs =>
    simp only [ofKept, Option.bind_eq_bind, Option.bind_eq_some_iff, Json.toOption_eq_some_iff,
      formOf_eq_ok_iff, ofElements_eq_ok_iff]
    constructor
    · rintro ⟨form, rfl, rfl, rfl⟩
      rfl
    · intro h
      cases h
      exact ⟨source.form, rfl, rfl, rfl⟩

/-- The source that a document describes. -/
def ofDocument (room : Nat) (d : Json.Document) : Option Source := (d.value? room).bind ofKept

theorem ofDocument_object_eq_some_iff (room : Nat) (ms : List (List Char × Json.Document))
    (source : Source) :
    ofDocument (room + 1) (.object ms) = some source ↔
      ∃ vs, (ms.mapM fun m => (m.2.value? room).map fun v => (m.1, v)) = some vs ∧
        Describes vs source := by
  unfold ofDocument
  rw [Option.bind_eq_some_iff]
  constructor
  · rintro ⟨v, hv, hkept⟩
    obtain ⟨vs, hvs, rfl⟩ := (Json.Document.value?_object_eq_some_iff room ms v).mp hv
    exact ⟨vs, hvs, (ofKept_object_eq_some_iff vs source).mp hkept⟩
  · rintro ⟨vs, hvs, hdescribes⟩
    exact ⟨.object vs, (Json.Document.value?_object_eq_some_iff room ms _).mpr ⟨vs, hvs, rfl⟩,
      (ofKept_object_eq_some_iff vs source).mpr hdescribes⟩

theorem ofDocument_list_eq_some_iff (room : Nat) (ds : List Json.Document) (source : Source) :
    ofDocument (room + 1) (.list ds) = some source ↔
      ds.mapM (Json.Document.value? room) =
        some [.text source.form.name.toList, source.fieldValue] := by
  unfold ofDocument
  rw [Option.bind_eq_some_iff]
  constructor
  · rintro ⟨v, hv, hkept⟩
    obtain ⟨vs, hvs, rfl⟩ := (Json.Document.value?_list_eq_some_iff room ds v).mp hv
    rw [hvs, (ofKept_list_eq_some_iff vs source).mp hkept]
  · intro hvs
    exact ⟨_, (Json.Document.value?_list_eq_some_iff room ds _).mpr ⟨_, hvs, rfl⟩,
      (ofKept_list_eq_some_iff _ source).mpr rfl⟩

/-- What is no list and no object describes no source. -/
theorem ofDocument_plain (room : Nat) {d : Json.Document} (hlist : ∀ ds, d ≠ .list ds)
    (hobject : ∀ ms, d ≠ .object ms) : ofDocument room d = none := by
  unfold ofDocument
  cases d with
  | list ds => exact absurd rfl (hlist ds)
  | object ms => exact absurd rfl (hobject ms)
  | number n =>
    rw [Json.Document.value?_number]
    cases n.number <;> rfl
  | _ => cases room <;> rfl

theorem understands_readForm (room : Nat) :
    Json.Understands (readForm room) fun d =>
      (d.value? room).bind fun v => (formOf v).toOption := by
  refine Json.understands_scalar ?_ room ?_ room
  · intro v form hform
    rw [(formOf_eq_ok_iff v form).mp hform]
    trivial
  · intro d form
    simp only [Option.bind_eq_some_iff, Json.toOption_eq_some_iff]
    rfl

/-- A list is read as a source when it describes one. -/
theorem readList_eq_ok_iff (room : Nat) {ds : List Json.Document} {s t : List Char}
    (hds : Json.Elements Json.Document.Stands true ds s t) (source : Source) (rest : List Char) :
    readList room s = .ok (source, rest) ↔
      ofDocument (room + 1) (.list ds) = some source ∧ rest = t := by
  unfold readList
  rw [ofDocument_list_eq_some_iff, Json.bind_eq_ok_iff]
  cases hds with
  | done hclose =>
    rw [Json.nextElement_done true hclose]
    constructor
    · rintro ⟨_, hnext, h⟩
      cases hnext
      cases h
    · rintro ⟨h, _⟩
      cases h
  | @more _ d ds _ u v _ honward hd htail =>
    have hform := fun form => understands_readForm room d u u v (.none u) hd form
    have hlength := htail.length_lt Json.Document.stands_solid
    have hfuel : ds.length < v.length + 1 := by omega
    have hrest := (Json.Value.understands_read room).elements_eq_ok_iff htail hfuel
    simp only [formOf_eq_ok_iff, Option.bind_eq_some_iff, Json.toOption_eq_some_iff] at hform
    rw [Json.nextElement_more honward hd]
    simp only [Json.mapM_cons_eq_some_iff]
    constructor
    · rintro ⟨_, hnext, h⟩
      cases hnext
      obtain ⟨⟨form, w⟩, hread, h⟩ := (Json.bind_eq_ok_iff _ _ _).mp h
      obtain ⟨⟨_, ha, rfl⟩, rfl⟩ := (hform form w).mp hread
      obtain ⟨⟨vs, w'⟩, helements, h⟩ := (Json.bind_eq_ok_iff _ _ _).mp h
      obtain ⟨hvs, rfl⟩ := (hrest vs w').mp helements
      obtain ⟨_, hsource, h⟩ := (Json.bind_eq_ok_iff _ _ _).mp h
      cases h
      obtain ⟨rfl, rfl⟩ := (ofElements_eq_ok_iff form vs source).mp hsource
      exact ⟨⟨_, _, ha, hvs, rfl⟩, rfl⟩
    · rintro ⟨⟨_, _, ha, hvs, hcons⟩, rfl⟩
      cases hcons
      refine ⟨_, rfl, (Json.bind_eq_ok_iff _ _ _).mpr ⟨(source.form, v), ?_, ?_⟩⟩
      · exact (hform source.form v).mpr ⟨⟨_, ha, rfl⟩, rfl⟩
      · refine (Json.bind_eq_ok_iff _ _ _).mpr ⟨_, (hrest _ rest).mpr ⟨hvs, rfl⟩, ?_⟩
        exact (Json.bind_eq_ok_iff _ _ _).mpr
          ⟨source, (ofElements_eq_ok_iff _ _ source).mpr ⟨rfl, rfl⟩, rfl⟩

/-- A source is read as the source that its document describes. -/
theorem understands_read (room : Nat) :
    Json.Understands (read (room + 1)) (ofDocument (room + 1)) := by
  apply Json.understands_of_brackets
  · intro s
    unfold read
    rw [Json.dropBlank_dropBlank]
  · intro ds s t hds source rest
    exact readList_eq_ok_iff room hds source rest
  · intro ms s t hstands _ source rest
    have hbrace : Json.dropBlank ('\x7b' :: s) = '\x7b' :: s := rfl
    have hvalue := Json.Value.understands_read (room + 1) _ _ _ _ (.none _) hstands
    simp only [read_eq_ok_iff_of_brace hbrace, hvalue, ofDocument_object_eq_some_iff,
      Json.Document.value?_object_eq_some_iff, Json.Value.object.injEq, exists_eq_right]
    constructor
    · rintro ⟨vs, ⟨hvs, rfl⟩, hdescribes⟩
      exact ⟨⟨vs, hvs, hdescribes⟩, rfl⟩
    · rintro ⟨⟨vs, hvs, hdescribes⟩, rfl⟩
      exact ⟨vs, ⟨hvs, rfl⟩, hdescribes⟩
  · intro s hbracket hbrace p h
    unfold read at h
    split at h
    · rename_i heq
      exact hbracket _ heq
    · rename_i heq
      exact hbrace _ heq
    · cases h
  · intro d hlist hobject
    exact ofDocument_plain (room + 1) hlist hobject

/-! ## Another number in the member that counts -/

/-- Forms are told by their names. -/
theorem form_eq_of_text {form other : Form}
    (h : Json.Value.text form.name.toList = .text other.name.toList) : form = other := by
  have hform := (formOf_eq_ok_iff _ form).mpr h.symm
  rw [(formOf_eq_ok_iff _ other).mpr rfl] at hform
  exact (Except.ok.inj hform).symm

/-- Behind members that describe a source but for the one that counts, that one describes
the sources of the form. -/
theorem describes_hole {form : Form} {before after : List (List Char × Json.Value)}
    {v₀ : Json.Value} {source₀ : Source}
    (h₀ : Describes (before ++ (form.field.toList, v₀) :: after) source₀)
    (hform : source₀.form = form) (v : Json.Value) (source : Source) :
    Describes (before ++ (form.field.toList, v) :: after) source ↔
      source.form = form ∧ v = source.fieldValue := by
  have halgorithm : ∀ v, Json.valuesOf "algorithm" (before ++ (form.field.toList, v) :: after) =
      Json.valuesOf "algorithm" before ++ Json.valuesOf "algorithm" after := by
    intro v
    rw [Json.valuesOf_append, Json.valuesOf_cons_of_ne (field_ne_algorithm form)]
  have hfield : ∀ v, Json.valuesOf form.field (before ++ (form.field.toList, v) :: after) =
      Json.valuesOf form.field before ++ v :: Json.valuesOf form.field after := by
    intro v
    rw [Json.valuesOf_append, Json.valuesOf_cons_of_eq rfl]
  obtain ⟨hname₀, hvalue₀⟩ := describes_iff.mp h₀
  rw [halgorithm, hform] at hname₀
  rw [hform, hfield, List.append_eq_singleton_iff] at hvalue₀
  obtain ⟨hbefore, hafter⟩ : Json.valuesOf form.field before = [] ∧
      Json.valuesOf form.field after = [] := by
    rcases hvalue₀ with ⟨hbefore, hcons⟩ | ⟨_, hcons⟩
    · exact ⟨hbefore, (List.cons.inj hcons).2⟩
    · cases hcons
  rw [describes_iff]
  constructor
  · rintro ⟨hname, hvalue⟩
    rw [halgorithm, hname₀] at hname
    have hsame : source.form = form := form_eq_of_text (List.cons.inj hname).1.symm
    rw [hsame, hfield, hbefore, hafter] at hvalue
    exact ⟨hsame, by simpa using hvalue⟩
  · rintro ⟨rfl, rfl⟩
    exact ⟨by rw [halgorithm, hname₀], by rw [hfield, hbefore, hafter]; rfl⟩

/-- In an object or in a list that describes a source but for the member that counts,
a document describes the sources of the form that have its value. -/
theorem ofDocument_hole {room : Nat} (form : Form) {hole : Json.Document → Json.Document}
    (hhole : Json.MemberHole ["algorithm", form.field] form.field hole) {d₀ : Json.Document}
    {source₀ : Source} (h₀ : ofDocument (room + 1) (hole d₀) = some source₀)
    (hform : source₀.form = form) (d : Json.Document) (source : Source) :
    ofDocument (room + 1) (hole d) = some source ↔
      source.form = form ∧ d.value? room = some source.fieldValue := by
  cases hhole with
  | object before after =>
    simp only [ofDocument_object_eq_some_iff, Json.mapM_append_cons_eq_some_iff] at h₀ ⊢
    obtain ⟨_, ⟨bs, _, cs, hbs, hv₀, hcs, rfl⟩, hdescribes₀⟩ := h₀
    obtain ⟨v₀, _, rfl⟩ := Option.map_eq_some_iff.mp hv₀
    have hdescribes := describes_hole hdescribes₀ hform
    constructor
    · rintro ⟨_, ⟨bs', _, cs', hbs', hm, hcs', rfl⟩, hsource⟩
      obtain ⟨v, hv, rfl⟩ := Option.map_eq_some_iff.mp hm
      rw [hbs] at hbs'
      rw [hcs] at hcs'
      cases hbs'
      cases hcs'
      obtain ⟨hsame, rfl⟩ := (hdescribes v source).mp hsource
      exact ⟨hsame, hv⟩
    · rintro ⟨hsame, hv⟩
      refine ⟨_, ⟨bs, _, cs, hbs, Option.map_eq_some_iff.mpr ⟨_, hv, rfl⟩, hcs, rfl⟩, ?_⟩
      exact (hdescribes _ source).mpr ⟨hsame, rfl⟩
  | @list before after hplace =>
    obtain ⟨a, rfl⟩ : ∃ a, before = [a] := by
      cases before with
      | nil =>
        have hsame : "algorithm" = form.field := Option.some.inj hplace
        exact absurd (congrArg String.toList hsame.symm) (field_ne_algorithm form)
      | cons a before =>
        cases before with
        | nil => exact ⟨a, rfl⟩
        | cons b before => cases hplace
    simp only [ofDocument_list_eq_some_iff, List.cons_append, List.nil_append,
      Json.mapM_cons_eq_some_iff] at h₀ ⊢
    obtain ⟨_, _, ha, ⟨_, _, _, hafter, rfl⟩, hvs⟩ := h₀
    cases hvs
    constructor
    · rintro ⟨_, _, ha', ⟨_, _, hv, _, rfl⟩, hvs⟩
      cases hvs
      rw [ha] at ha'
      exact ⟨form_eq_of_text (hform ▸ Option.some.inj ha').symm, hv⟩
    · rintro ⟨rfl, hv⟩
      exact ⟨_, _, hform ▸ ha, ⟨_, _, hv, hafter, rfl⟩, rfl⟩

/-! ## The places of numbers -/

theorem mapM_value?_eq_some_iff (room : Nat) (ds : List Json.Document) (ws : List Word) :
    ds.mapM (Json.Document.value? room) = some (ws.map fun w => .number (.word w)) ↔
      ds.mapM Json.Document.word? = some ws := by
  induction ds generalizing ws with
  | nil => cases ws <;> simp
  | cons d ds ih =>
    simp only [Json.mapM_cons_eq_some_iff]
    constructor
    · rintro ⟨_, _, hd, hds, hcons⟩
      cases ws with
      | nil => cases hcons
      | cons w ws =>
        cases hcons
        exact ⟨w, ws, (Json.Document.value?_eq_word_iff room d w).mp hd, (ih ws).mp hds, rfl⟩
    · rintro ⟨w, ws, hd, hds, rfl⟩
      exact ⟨_, _, (Json.Document.value?_eq_word_iff room d w).mpr hd, (ih ws).mpr hds, rfl⟩

/-- A list is kept as words when its elements are these words. -/
theorem value?_eq_ofWords_iff (room : Nat) (d : Json.Document) (ws : List Word) :
    d.value? (room + 1) = some (Json.Value.ofWords ws) ↔
      d.listOf? Json.Document.word? = some ws := by
  cases d with
  | list ds =>
    rw [Json.Document.value?_list_eq_some_iff]
    simp only [Json.Value.ofWords, Json.Value.list.injEq, exists_eq_right, mapM_value?_eq_some_iff,
      Json.Document.listOf?]
  | number n => simp [Json.Document.value?_number, Json.Value.ofWords, Json.Document.listOf?]
  | _ =>
    simp [Json.Document.value?, Json.Document.valueWith, Json.Value.ofWords, Json.Document.listOf?]

/-- Another element in one place of a list that is kept as words. -/
theorem value?_element_iff {room i : Nat} {element : Json.Document → Json.Document}
    (helement : Json.ElementHole i element) {d₀ : Json.Document} {ws₀ : List Word}
    (h₀ : (element d₀).value? (room + 1) = some (Json.Value.ofWords ws₀)) (d : Json.Document)
    (ws : List Word) :
    (element d).value? (room + 1) = some (Json.Value.ofWords ws) ↔
      ∃ w, d.word? = some w ∧ ws = ws₀.set i w := by
  rw [value?_eq_ofWords_iff] at h₀ ⊢
  exact Json.listOf?_hole helement h₀ d ws

/-- Another word in one place of a state. -/
def setWord (x : Xoshiro) : (i : Nat) → Word → Xoshiro
  | 0, w => { x with s0 := w }
  | 1, w => { x with s1 := w }
  | 2, w => { x with s2 := w }
  | 3, w => { x with s3 := w }
  | _, _ => x

theorem words_setWord (x : Xoshiro) (i : Nat) (w : Word) :
    (setWord x i w).words = x.words.set i w := by
  match i with
  | 0 => rfl
  | 1 => rfl
  | 2 => rfl
  | 3 => rfl
  | i + 4 => rfl

theorem eq_of_words_eq {x y : Xoshiro} (h : x.words = y.words) : x = y := by
  cases x
  cases y
  cases h
  rfl

/-- The places where the document of a source has a number that is a word: the seed, a
word of the key and a word of the state. With a place goes what becomes of the source
when another number stands there. -/
inductive Place : Source → (Nat → Source) → (Json.Document → Json.Document) → Prop where
  | seed {word : Word} {hole : Json.Document → Json.Document} :
      Json.MemberHole ["algorithm", "seed"] "seed" hole →
      Place (twisterSeed word) (fun v => twisterSeed (.ofNat v)) hole
  | key {key : List Word} {i : Nat} {hole element : Json.Document → Json.Document} :
      Json.MemberHole ["algorithm", "key"] "key" hole → Json.ElementHole i element →
      Place (twisterKey key) (fun v => twisterKey (key.set i (.ofNat v))) fun d => hole (element d)
  | state {x : Xoshiro} {i : Nat} {hole element : Json.Document → Json.Document} :
      Json.MemberHole ["algorithm", "state"] "state" hole → Json.ElementHole i element →
      Place (xoshiroState x) (fun v => xoshiroState (setWord x i (.ofNat v)))
        fun d => hole (element d)
  | spread {word : Word} {hole : Json.Document → Json.Document} :
      Json.MemberHole ["algorithm", "seed"] "seed" hole →
      Place (xoshiroSpread word) (fun v => xoshiroSpread (.ofNat v)) hole

/-- In a place of a source that has been read once, a natural number that fits is read as
itself, and nothing else is read. -/
theorem Place.ofDocument_eq_some_iff {room : Nat} {source₀ : Source} {put : Nat → Source}
    {hole : Json.Document → Json.Document} (h : Place source₀ put hole) {n₀ : Json.Numeral}
    (h₀ : ofDocument (room + 2) (hole (.number n₀)) = some source₀) (n : Json.Numeral)
    (source : Source) :
    ofDocument (room + 2) (hole (.number n)) = some source ↔
      ∃ v, v < UInt64.size ∧ n.IsNat v ∧ source = put v := by
  cases h with
  | seed hhole =>
    rw [ofDocument_hole .seed hhole h₀ rfl,
      ← Json.Document.exists_word_iff n source twisterSeed]
    simp only [← Json.Document.value?_eq_word_iff (room + 1)]
    constructor
    · rintro ⟨hform, hv⟩
      cases source <;> cases hform
      exact ⟨_, hv, rfl⟩
    · rintro ⟨w, hw, rfl⟩
      exact ⟨rfl, hw⟩
  | spread hhole =>
    rw [ofDocument_hole .spread hhole h₀ rfl,
      ← Json.Document.exists_word_iff n source xoshiroSpread]
    simp only [← Json.Document.value?_eq_word_iff (room + 1)]
    constructor
    · rintro ⟨hform, hv⟩
      cases source <;> cases hform
      exact ⟨_, hv, rfl⟩
    · rintro ⟨w, hw, rfl⟩
      exact ⟨rfl, hw⟩
  | @key key i hole element hhole helement =>
    have hhole := ofDocument_hole .key hhole h₀ rfl
    have hwords := value?_element_iff helement ((hhole _ _).mp h₀).2
    rw [hhole, ← Json.Document.exists_word_iff n source fun w => twisterKey (key.set i w)]
    constructor
    · rintro ⟨hform, hv⟩
      cases source <;> cases hform
      obtain ⟨w, hw, rfl⟩ := (hwords _ _).mp hv
      exact ⟨w, hw, rfl⟩
    · rintro ⟨w, hw, rfl⟩
      exact ⟨rfl, (hwords _ _).mpr ⟨w, hw, rfl⟩⟩
  | @state x i hole element hhole helement =>
    have hhole := ofDocument_hole .state hhole h₀ rfl
    have hwords := value?_element_iff helement ((hhole _ _).mp h₀).2
    rw [hhole, ← Json.Document.exists_word_iff n source fun w => xoshiroState (setWord x i w)]
    constructor
    · rintro ⟨hform, hv⟩
      cases source <;> cases hform
      obtain ⟨w, hw, hset⟩ := (hwords _ _).mp hv
      exact ⟨w, hw, by rw [eq_of_words_eq (hset.trans (words_setWord x i w).symm)]⟩
    · rintro ⟨w, hw, rfl⟩
      exact ⟨rfl, (hwords _ _).mpr ⟨w, hw, words_setWord x i w⟩⟩

end Source

end SeededStreams
