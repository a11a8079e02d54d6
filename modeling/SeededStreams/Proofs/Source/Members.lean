-- What the members of an object say of a source. The member that tells the
-- generator and the member that counts for it have to be there once each, with a
-- value of the right sort; all other members, and the order of all of them, are
-- nothing to the source.
import SeededStreams.Proofs.Json.Objects
import SeededStreams.Proofs.Json.Records
import SeededStreams.Source.Json

namespace SeededStreams

/-! ## Values of the right sort -/

namespace Json.Value

/-- Words as a list of values. -/
def ofWords (ws : List Word) : Value := .list (ws.map fun w => .number (.word w))

theorem mapM_word_eq_ok_iff (wanted : String) (vs : List Value) (ws : List Word) :
    vs.mapM (word wanted) = .ok ws ↔ vs = ws.map fun w => .number (.word w) := by
  induction vs generalizing ws with
  | nil => cases ws <;> simp [pure, Except.pure]
  | cons v vs ih =>
    simp only [List.mapM_cons, bind_eq_ok_iff, word_eq_ok_iff, ih]
    constructor
    · rintro ⟨w, rfl, ws', rfl, h⟩
      cases h
      rfl
    · intro h
      cases ws with
      | nil => cases h
      | cons w ws =>
        cases h
        exact ⟨w, rfl, ws, rfl, rfl⟩

theorem words_eq_ok_iff (v : Value) (ws : List Word) : v.words = .ok ws ↔ v = ofWords ws := by
  cases v with
  | list vs => simp [words, ofWords, mapM_word_eq_ok_iff]
  | _ => simp [words, ofWords]

end Json.Value

namespace Source

theorem stateOfValue_eq_ok_iff (v : Json.Value) (x : Xoshiro) :
    stateOfValue v = .ok x ↔ v = Json.Value.ofWords x.words := by
  cases v with
  | list vs =>
    simp only [stateOfValue, Json.bind_eq_ok_iff, Json.Value.mapM_word_eq_ok_iff]
    constructor
    · rintro ⟨ws, hws, h⟩
      split at h
      · split at h
        · rename_i hlength
          rw [List.take_of_length_le (Nat.le_of_eq hlength)] at hws
          cases h
          rw [hws]
          rfl
        · cases h
      · cases h
    · intro h
      cases h
      exact ⟨x.words, rfl, rfl⟩
  | _ => simp [stateOfValue, Json.Value.ofWords]

/-- The value of the member that counts. -/
def fieldValue : Source → Json.Value
  | twisterSeed seed => .number (.word seed)
  | twisterKey key => Json.Value.ofWords key
  | xoshiroState state => Json.Value.ofWords state.words
  | xoshiroSpread seed => .number (.word seed)

theorem ofValue_eq_ok_iff (form : Form) (v : Json.Value) (source : Source) :
    ofValue form v = .ok source ↔ source.form = form ∧ v = source.fieldValue := by
  cases form
  all_goals
    simp only [ofValue, Json.bind_eq_ok_iff, Json.Value.word_eq_ok_iff, Json.Value.words_eq_ok_iff,
      stateOfValue_eq_ok_iff, pure, Except.pure, Except.ok.injEq]
    constructor
    · rintro ⟨_, rfl, rfl⟩
      exact ⟨rfl, rfl⟩
    · rintro ⟨hform, rfl⟩
      cases source <;> cases hform
      exact ⟨_, rfl, rfl⟩

end Source

/-! ## Members that may come once -/

namespace Json

/-- The values of the members with a name, in order. -/
def valuesOf (name : String) (ms : List (List Char × Value)) : List Value :=
  (ms.filter (·.1 = name.toList)).map Prod.snd

/-- The members without those of a name, in order. -/
def without (name : String) (ms : List (List Char × Value)) : List (List Char × Value) :=
  ms.filter (·.1 ≠ name.toList)

section ValuesOf

variable {name : String} {m : List Char × Value}

@[simp] theorem valuesOf_nil : valuesOf name [] = [] := rfl

theorem valuesOf_cons_of_eq (h : m.1 = name.toList) (ms : List (List Char × Value)) :
    valuesOf name (m :: ms) = m.2 :: valuesOf name ms := by
  simp [valuesOf, h]

theorem valuesOf_cons_of_ne (h : m.1 ≠ name.toList) (ms : List (List Char × Value)) :
    valuesOf name (m :: ms) = valuesOf name ms := by
  simp [valuesOf, h]

theorem valuesOf_append (ms ns : List (List Char × Value)) :
    valuesOf name (ms ++ ns) = valuesOf name ms ++ valuesOf name ns := by
  simp [valuesOf]

theorem without_cons_of_eq (h : m.1 = name.toList) (ms : List (List Char × Value)) :
    without name (m :: ms) = without name ms := by
  simp [without, h]

theorem without_cons_of_ne (h : m.1 ≠ name.toList) (ms : List (List Char × Value)) :
    without name (m :: ms) = m :: without name ms := by
  simp [without, h]

theorem valuesOf_without {other : String} (h : other.toList ≠ name.toList)
    (ms : List (List Char × Value)) : valuesOf other (without name ms) = valuesOf other ms := by
  induction ms with
  | nil => rfl
  | cons m ms ih =>
    by_cases hname : m.1 = name.toList
    · have hother : m.1 ≠ other.toList := fun heq => h (heq.symm.trans hname)
      rw [without_cons_of_eq hname, valuesOf_cons_of_ne hother, ih]
    · rw [without_cons_of_ne hname]
      by_cases hother : m.1 = other.toList
      · rw [valuesOf_cons_of_eq hother, valuesOf_cons_of_eq hother, ih]
      · rw [valuesOf_cons_of_ne hother, valuesOf_cons_of_ne hother, ih]

theorem valuesOf_perm {ms ms' : List (List Char × Value)} (h : ms.Perm ms') :
    (valuesOf name ms).Perm (valuesOf name ms') :=
  (h.filter _).map _

end ValuesOf

end Json

namespace Source

/-- Goes through members for the one with a name, of which there may be one only. -/
def once {α : Type} (name : String) (understand : Json.Value → Except Json.Fault α) :
    Option α → List (List Char × Json.Value) → Except Json.Fault (Option α)
  | found, [] => .ok found
  | found, (key, v) :: rest =>
    if key = name.toList then
      match found with
      | some _ => .error (.duplicateField name)
      | none => do once name understand (some (← understand v)) rest
    else once name understand found rest

section Once

variable {α : Type} {name : String} {understand : Json.Value → Except Json.Fault α}

theorem once_some_eq_ok_iff (a : α) (ms : List (List Char × Json.Value)) (found : Option α) :
    once name understand (some a) ms = .ok found ↔ Json.valuesOf name ms = [] ∧ found = some a := by
  induction ms with
  | nil => simp [once, eq_comm]
  | cons m ms ih =>
    by_cases hkey : m.1 = name.toList
    · simp [once, hkey, Json.valuesOf_cons_of_eq hkey]
    · simp [once, hkey, Json.valuesOf_cons_of_ne hkey, ih]

/-- One member is found when there is exactly one and its value is understood. -/
theorem once_none_eq_ok_iff (ms : List (List Char × Json.Value)) (a : α) :
    once name understand none ms = .ok (some a) ↔
      ∃ v, Json.valuesOf name ms = [v] ∧ understand v = .ok a := by
  induction ms with
  | nil => simp [once]
  | cons m ms ih =>
    by_cases hkey : m.1 = name.toList
    · rw [Json.valuesOf_cons_of_eq hkey]
      simp only [once, hkey, if_true, Json.bind_eq_ok_iff, once_some_eq_ok_iff]
      constructor
      · rintro ⟨b, hb, hnone, h⟩
        cases h
        exact ⟨m.2, by rw [hnone], hb⟩
      · rintro ⟨v, hv, ha⟩
        rw [List.cons.injEq] at hv
        obtain ⟨rfl, hnone⟩ := hv
        exact ⟨a, ha, hnone, rfl⟩
    · rw [Json.valuesOf_cons_of_ne hkey]
      simp only [once, hkey, if_false, ih]

end Once

theorem gather_eq_once (form : Form) (found : Option Source)
    (ms : List (List Char × Json.Value)) :
    gather form found ms = once form.field (ofValue form) found ms := by
  induction ms generalizing found with
  | nil => rfl
  | cons m ms ih =>
    cases found
    all_goals simp only [gather, once, ih]

theorem ofMembers_eq_ok_iff (form : Form) (ms : List (List Char × Json.Value)) (source : Source) :
    ofMembers form ms = .ok source ↔
      source.form = form ∧ Json.valuesOf form.field ms = [source.fieldValue] := by
  simp only [ofMembers, Json.bind_eq_ok_iff, gather_eq_once]
  constructor
  · rintro ⟨found, hfound, h⟩
    cases found with
    | none => cases h
    | some a =>
      cases h
      obtain ⟨v, hv, hsource⟩ := (once_none_eq_ok_iff _ _).mp hfound
      obtain ⟨hform, rfl⟩ := (ofValue_eq_ok_iff _ _ _).mp hsource
      exact ⟨hform, hv⟩
  · rintro ⟨hform, hv⟩
    have hsource := (ofValue_eq_ok_iff form _ source).mpr ⟨hform, rfl⟩
    exact ⟨some source, (once_none_eq_ok_iff _ _).mpr ⟨_, hv, hsource⟩, rfl⟩

/-! ## The members of a source -/

theorem Form.name_inj : ∀ a ∈ all, ∀ b ∈ all, name a = name b → a = b := by decide

/-- What the value of `algorithm` tells. -/
def formOf (v : Json.Value) : Except Json.Fault Form := do
  Json.choice Form.all Form.name (← v.string "variant identifier")

theorem formOf_eq_ok_iff (v : Json.Value) (form : Form) :
    formOf v = .ok form ↔ v = .text form.name.toList := by
  have hall : form ∈ Form.all := by cases form <;> decide
  simp only [formOf, Json.bind_eq_ok_iff, Json.choice_eq_ok_iff Form.name_inj hall]
  constructor
  · rintro ⟨t, ht, rfl⟩
    cases v with
    | text s =>
      cases ht
      rfl
    | _ => cases ht
  · rintro rfl
    exact ⟨_, rfl, rfl⟩

/-- What a member adds to what is known of a source. -/
def Draft.take (d : Draft) (m : List Char × Json.Value) : Except Json.Fault Draft :=
  if m.1 = "algorithm".toList then
    if d.form.isSome then .error (.duplicateField "algorithm")
    else do return { d with form := some (← formOf m.2) }
  else .ok { d with members := m :: d.members }

theorem takes_member (room : Nat) : Json.Takes (Json.Value.read room) Draft.take (member room) := by
  intro d key s next rest
  obtain ⟨inside, hinside, _⟩ := Json.Value.read_eq room
  have hform : ∀ form t, readForm room t = .ok (form, rest) ↔
      ∃ v, Json.Value.read room t = .ok (v, rest) ∧ formOf v = .ok form := by
    intro form t
    rw [hinside]
    apply Json.scalar_eq_ok_iff
    intro v hv
    rw [(formOf_eq_ok_iff v form).mp hv]
    trivial
  unfold member Draft.take
  by_cases hkey : key = "algorithm".toList
  · simp only [hkey, if_true]
    cases d.form with
    | some form => simp
    | none =>
      simp only [Option.isSome_none, Bool.false_eq_true, if_false, Json.bind_eq_ok_iff, Prod.exists]
      constructor
      · rintro ⟨t, hcolon, form, u, hread, h⟩
        cases h
        obtain ⟨v, hv, hv'⟩ := (hform form t).mp hread
        exact ⟨v, ⟨t, hcolon, hv⟩, form, hv', rfl⟩
      · rintro ⟨v, ⟨t, hcolon, hv⟩, form, hv', h⟩
        cases h
        exact ⟨t, hcolon, form, rest, (hform form t).mpr ⟨v, hv, hv'⟩, rfl⟩
  · simp only [hkey, if_false, Json.bind_eq_ok_iff, Prod.exists]
    constructor
    · rintro ⟨t, hcolon, v, u, hread, h⟩
      cases h
      exact ⟨v, ⟨t, hcolon, hread⟩, rfl⟩
    · rintro ⟨v, ⟨t, hcolon, hread⟩, h⟩
      cases h
      exact ⟨t, hcolon, v, rest, hread, rfl⟩

theorem foldlM_take_eq_ok_iff (ms : List (List Char × Json.Value)) (d last : Draft) :
    ms.foldlM Draft.take d = .ok last ↔
      once "algorithm" formOf d.form ms = .ok last.form ∧
        last.members = (Json.without "algorithm" ms).reverse ++ d.members := by
  induction ms generalizing d with
  | nil =>
    constructor
    · intro h
      cases h
      exact ⟨rfl, rfl⟩
    · rintro ⟨honce, hmembers⟩
      cases d
      cases last
      cases honce
      cases hmembers
      rfl
  | cons m ms ih =>
    simp only [List.foldlM_cons, Json.bind_eq_ok_iff, ih, Draft.take, once]
    by_cases hkey : m.1 = "algorithm".toList
    · rw [Json.without_cons_of_eq hkey]
      cases hform : d.form with
      | some form => simp [hkey]
      | none =>
        simp only [hkey, if_true, Option.isSome_none, Bool.false_eq_true, if_false,
          Json.bind_eq_ok_iff]
        constructor
        · rintro ⟨next, ⟨form, hv, h⟩, honce, hmembers⟩
          cases h
          exact ⟨⟨form, hv, honce⟩, hmembers⟩
        · rintro ⟨⟨form, hv, honce⟩, hmembers⟩
          exact ⟨_, ⟨form, hv, rfl⟩, honce, hmembers⟩
    · rw [Json.without_cons_of_ne hkey, List.reverse_cons, List.append_assoc]
      simp only [hkey, if_false]
      constructor
      · rintro ⟨next, h, honce, hmembers⟩
        cases h
        exact ⟨honce, hmembers⟩
      · rintro ⟨honce, hmembers⟩
        exact ⟨_, rfl, honce, hmembers⟩

/-- What members say of a source: exactly one of them is `algorithm` and has the name of a
generator, and exactly one has the key that counts for this one and a value of its sort.
These are a word, a list of words of any length, a list of four words, and a word. -/
inductive Describes (ms : List (List Char × Json.Value)) : Source → Prop where
  | twisterSeed {seed : Word} :
      Json.valuesOf "algorithm" ms = [.text "mt19937_64".toList] →
      Json.valuesOf "seed" ms = [.number (.word seed)] → Describes ms (.twisterSeed seed)
  | twisterKey {key : List Word} :
      Json.valuesOf "algorithm" ms = [.text "mt19937_64_array".toList] →
      Json.valuesOf "key" ms = [.list (key.map fun w => .number (.word w))] →
      Describes ms (.twisterKey key)
  | xoshiroState {s0 s1 s2 s3 : Word} :
      Json.valuesOf "algorithm" ms = [.text "xoshiro256starstar".toList] →
      Json.valuesOf "state" ms =
        [.list [.number (.word s0), .number (.word s1), .number (.word s2), .number (.word s3)]] →
      Describes ms (.xoshiroState ⟨s0, s1, s2, s3⟩)
  | xoshiroSpread {seed : Word} :
      Json.valuesOf "algorithm" ms = [.text "xoshiro256starstar_splitmix".toList] →
      Json.valuesOf "seed" ms = [.number (.word seed)] → Describes ms (.xoshiroSpread seed)

/-- The names and the keys are those by which a source is read. -/
theorem describes_iff {ms : List (List Char × Json.Value)} {source : Source} :
    Describes ms source ↔ Json.valuesOf "algorithm" ms = [.text source.form.name.toList] ∧
      Json.valuesOf source.form.field ms = [source.fieldValue] := by
  constructor
  · intro h
    cases h with
    | twisterSeed hname hvalue => exact ⟨hname, hvalue⟩
    | twisterKey hname hvalue => exact ⟨hname, hvalue⟩
    | xoshiroState hname hvalue => exact ⟨hname, hvalue⟩
    | xoshiroSpread hname hvalue => exact ⟨hname, hvalue⟩
  · rintro ⟨hname, hvalue⟩
    cases source with
    | twisterSeed seed => exact .twisterSeed hname hvalue
    | twisterKey key => exact .twisterKey hname hvalue
    | xoshiroState state => exact .xoshiroState hname hvalue
    | xoshiroSpread seed => exact .xoshiroSpread hname hvalue

/-- The key of the member that counts is never that of the form. -/
theorem field_ne_algorithm (form : Form) : form.field.toList ≠ "algorithm".toList := by
  cases form <;> decide

theorem readObject_eq_ok_iff (room : Nat) (s : List Char) (source : Source) (rest : List Char) :
    readObject room s = .ok (source, rest) ↔
      ∃ ms, Json.membersOf (Json.Value.read room) (s.length + 1) true s = .ok (ms, rest) ∧
        Describes ms source := by
  have hfield : ∀ ms : List (List Char × Json.Value),
      Json.valuesOf source.form.field ((Json.without "algorithm" ms).reverse ++ []).reverse =
        Json.valuesOf source.form.field ms := by
    intro ms
    rw [List.append_nil, List.reverse_reverse, Json.valuesOf_without (field_ne_algorithm _)]
  simp only [readObject, Json.bind_eq_ok_iff, Prod.exists, describes_iff,
    Json.object_eq_ok_iff (takes_member room), foldlM_take_eq_ok_iff]
  constructor
  · rintro ⟨⟨form, kept⟩, after, ⟨ms, hms, honce, rfl⟩, h⟩
    cases form with
    | none => cases h
    | some form =>
      simp only [Json.bind_eq_ok_iff] at h
      obtain ⟨_, hsource, h⟩ := h
      cases h
      obtain ⟨v, hv, hform⟩ := (once_none_eq_ok_iff _ _).mp honce
      obtain ⟨rfl, hvalue⟩ := (ofMembers_eq_ok_iff _ _ _).mp hsource
      rw [(formOf_eq_ok_iff _ _).mp hform] at hv
      exact ⟨ms, hms, hv, (hfield ms).symm.trans hvalue⟩
  · rintro ⟨ms, hms, halgorithm, hvalue⟩
    have honce : once "algorithm" formOf none ms = .ok (some source.form) :=
      (once_none_eq_ok_iff _ _).mpr ⟨_, halgorithm, (formOf_eq_ok_iff _ _).mpr rfl⟩
    have hsource := (ofMembers_eq_ok_iff source.form _ source).mpr ⟨rfl, (hfield ms).trans hvalue⟩
    refine ⟨⟨some source.form, _⟩, rest, ⟨ms, hms, honce, rfl⟩, ?_⟩
    simp only [Json.bind_eq_ok_iff]
    exact ⟨source, hsource, rfl⟩

/-- The order of the members says nothing. -/
theorem Describes.perm {ms ms' : List (List Char × Json.Value)} {source : Source}
    (h : Describes ms source) (hperm : ms.Perm ms') : Describes ms' source := by
  obtain ⟨hname, hvalue⟩ := describes_iff.mp h
  rw [describes_iff]
  constructor
  · exact List.perm_singleton.mp (hname ▸ (Json.valuesOf_perm hperm).symm)
  · exact List.perm_singleton.mp (hvalue ▸ (Json.valuesOf_perm hperm).symm)

/-- A text at a brace is read as a source when it is read as an object and the
members describe that source. -/
theorem read_eq_ok_iff_of_brace {room : Nat} {s t : List Char} (hs : Json.dropBlank s = '\x7b' :: t)
    (source : Source) (rest : List Char) :
    read room s = .ok (source, rest) ↔
      ∃ ms, Json.Value.read room s = .ok (.object ms, rest) ∧ Describes ms source := by
  cases room with
  | zero =>
    have hread : read 0 s = .error .tooDeep := by
      unfold read
      rw [hs]
      rfl
    rw [hread]
    constructor
    · intro h
      cases h
    · rintro ⟨ms, hms, _⟩
      obtain ⟨_, _, h, _⟩ := (Json.Value.read_eq_object_iff _ _).mp hms
      cases h
  | succ room =>
    have hread : read (room + 1) s = readObject room t := by
      unfold read
      rw [hs]
      rfl
    rw [hread, readObject_eq_ok_iff]
    constructor
    · rintro ⟨ms, hms, hdescribes⟩
      exact ⟨ms, (Json.Value.read_eq_object_iff _ _).mpr ⟨room, t, rfl, hs, hms⟩, hdescribes⟩
    · rintro ⟨ms, hobject, hdescribes⟩
      obtain ⟨inner, u, hroom, hu, hms⟩ := (Json.Value.read_eq_object_iff _ _).mp hobject
      cases hroom
      rw [hs] at hu
      cases hu
      exact ⟨ms, hms, hdescribes⟩

theorem read_eq_ok_iff_of_object {room : Nat} {s rest : List Char}
    {ms : List (List Char × Json.Value)} (h : Json.Value.read room s = .ok (.object ms, rest))
    (source : Source) (after : List Char) :
    read room s = .ok (source, after) ↔ after = rest ∧ Describes ms source := by
  obtain ⟨_, t, _, hs, _⟩ := (Json.Value.read_eq_object_iff _ _).mp h
  rw [read_eq_ok_iff_of_brace hs, h]
  constructor
  · rintro ⟨_, hms, hdescribes⟩
    cases hms
    exact ⟨rfl, hdescribes⟩
  · rintro ⟨rfl, hdescribes⟩
    exact ⟨ms, rfl, hdescribes⟩

theorem parse_eq_ok_iff {s : List Char} {ms : List (List Char × Json.Value)}
    (h : Json.parse Json.Value.read s = .ok (.object ms)) (source : Source) :
    Json.parse read s = .ok source ↔ Describes ms source := by
  obtain ⟨rest, hread, hend⟩ := (Json.parse_eq_ok_iff _ _ _).mp h
  simp only [Json.parse_eq_ok_iff, read_eq_ok_iff_of_object hread]
  constructor
  · rintro ⟨_, ⟨_, hdescribes⟩, _⟩
    exact hdescribes
  · intro hdescribes
    exact ⟨rest, ⟨rfl, hdescribes⟩, hend⟩

end Source

end SeededStreams
