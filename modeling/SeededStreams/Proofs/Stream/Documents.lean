-- Requests as documents: what each member of a request is, and that a request is read
-- as what its members are together.
import SeededStreams.Proofs.Source.Documents
import SeededStreams.Proofs.Stream.Json

namespace SeededStreams

/-! ## Kinds -/

/-- Nothing, which `null` stands for. -/
def Json.Document.nothing? : Json.Document → Option Unit
  | null => some ()
  | _ => none

theorem Json.Document.nothing?_eq_some_iff (d : Json.Document) (x : Unit) :
    d.nothing? = some x ↔ d = null := by
  cases d <;> simp [nothing?]

theorem Json.understands_nothing (wanted : String) (room : Nat) :
    Json.Understands (Json.scalar wanted (Json.Value.nothing wanted) room)
      Json.Document.nothing? := by
  refine Json.understands_scalar ?_ 0 ?_ room
  · intro v x h
    cases v with
    | null => trivial
    | _ => cases h
  · intro d x
    rw [Json.Document.nothing?_eq_some_iff]
    constructor
    · rintro rfl
      exact ⟨.null, rfl, rfl⟩
    · rintro ⟨v, hv, h⟩
      cases v with
      | null =>
        cases d with
        | null => rfl
        | number n =>
          rw [Json.Document.value?_number] at hv
          obtain ⟨_, _, hv⟩ := Option.map_eq_some_iff.mp hv
          cases hv
        | _ => cases hv
      | _ => cases h

namespace Kind

/-- The kind that a document is: a name, or an object with a name as its one key and
nothing behind it. -/
def ofDocument : Json.Document → Option Kind
  | .text key => (Json.choice all name key).toOption
  | .object [(key, .null)] => (Json.choice all name key).toOption
  | _ => none

theorem ofDocument_object_cons_eq_some_iff (key : List Char) (d : Json.Document)
    (ms : List (List Char × Json.Document)) (kind : Kind) :
    ofDocument (.object ((key, d) :: ms)) = some kind ↔
      d = .null ∧ ms = [] ∧ Json.choice all name key = .ok kind := by
  cases ms with
  | nil => cases d <;> simp [ofDocument, Json.toOption_eq_some_iff]
  | cons m ms => simp [ofDocument]

/-- The end of an object that holds one member. -/
def endOfObject (kind : Kind) (s : List Char) : Except Json.Fault (Kind × List Char) :=
  match Json.dropBlank s with
  | [] => .error .objectCutShort
  | '\x7d' :: s => .ok (kind, s)
  | _ => .error .valueWanted

/-- The object ends behind its one member, or it has another one. -/
theorem endOfObject_eq_ok_iff {ms : List (List Char × Json.Document)} {s t : List Char}
    (hms : Json.Members Json.Document.Stands false ms s t) (kind other : Kind)
    (rest : List Char) :
    endOfObject kind s = .ok (other, rest) ↔ ms = [] ∧ kind = other ∧ rest = t := by
  unfold endOfObject
  cases hms with
  | done hclose =>
    rw [hclose.dropBlank_eq_cons rfl]
    constructor
    · intro h
      cases h
      exact ⟨rfl, rfl, rfl⟩
    · rintro ⟨_, rfl, rfl⟩
      rfl
  | more honward =>
    cases honward with
    | comma hcomma _ =>
      rw [hcomma.dropBlank_eq_cons rfl]
      constructor
      · intro h
        cases h
      · rintro ⟨h, _⟩
        cases h

/-- An object is read as a kind from behind its brace. -/
theorem read_object_eq_ok_iff (room : Nat) {ms : List (List Char × Json.Document)} {s t : List Char}
    (hms : Json.Members Json.Document.Stands true ms s t) (kind : Kind) (rest : List Char) :
    read (room + 1) ('\x7b' :: s) = .ok (kind, rest) ↔
      ofDocument (.object ms) = some kind ∧ rest = t := by
  unfold read
  rw [Json.dropBlank_cons s rfl]
  split
  case h_1 heq => cases heq
  case h_2 heq => cases heq
  case h_4 hno => exact absurd rfl (hno s)
  case h_3 heq =>
    cases heq
    dsimp only
    cases hms with
    | done hclose =>
      rw [hclose.dropBlank_eq_cons rfl]
      constructor
      · intro h
        cases h
      · rintro ⟨h, _⟩
        cases h
    | @more _ key d ms _ k c w u v _ honward hkey hcolon hblanks hd htail =>
      rw [honward.blanks.dropBlank_eq_cons rfl]
      change (Json.Quoted.read k >>= fun p => Json.choice all name p.1 >>= fun kind =>
        Json.colon p.2 >>= fun w =>
          Json.scalar "unit" (Json.Value.nothing "unit") room w >>= fun q =>
            endOfObject kind q.2) = .ok (kind, rest) ↔ _
      have hnothing := Json.understands_nothing "unit" room d w u v hblanks hd
      rw [hkey.read, ofDocument_object_cons_eq_some_iff]
      constructor
      · intro h
        obtain ⟨_, hp, h⟩ := (Json.bind_eq_ok_iff _ _ _).mp h
        cases hp
        obtain ⟨found, hfound, h⟩ := (Json.bind_eq_ok_iff _ _ _).mp h
        obtain ⟨_, hw, h⟩ := (Json.bind_eq_ok_iff _ _ _).mp h
        rw [Json.colon_of_blanks hcolon] at hw
        cases hw
        obtain ⟨⟨_, after⟩, hnull, h⟩ := (Json.bind_eq_ok_iff _ _ _).mp h
        obtain ⟨hnull, rfl⟩ := (hnothing _ after).mp hnull
        obtain ⟨hms, rfl, rfl⟩ := (endOfObject_eq_ok_iff htail _ _ _).mp h
        exact ⟨⟨(Json.Document.nothing?_eq_some_iff d _).mp hnull, hms, hfound⟩, rfl⟩
      · rintro ⟨⟨hnull, hms, hfound⟩, rfl⟩
        have hnull := (hnothing () v).mpr ⟨(Json.Document.nothing?_eq_some_iff d ()).mpr hnull, rfl⟩
        refine (Json.bind_eq_ok_iff _ _ _).mpr ⟨_, rfl, ?_⟩
        refine (Json.bind_eq_ok_iff _ _ _).mpr ⟨kind, hfound, ?_⟩
        refine (Json.bind_eq_ok_iff _ _ _).mpr ⟨w, Json.colon_of_blanks hcolon, ?_⟩
        refine (Json.bind_eq_ok_iff _ _ _).mpr ⟨_, hnull, ?_⟩
        exact (endOfObject_eq_ok_iff htail kind kind rest).mpr ⟨hms, rfl, rfl⟩

theorem understands_read (room : Nat) : Json.Understands (read (room + 1)) ofDocument := by
  apply Json.understands_of_front
  · intro s
    unfold read
    rw [Json.dropBlank_dropBlank]
  · intro d s t hstands kind rest
    cases hstands.inside with
    | @text w s t hw =>
      have hread : read (room + 1) ('"' :: s) = Json.Quoted.read s >>= fun p =>
          Json.choice all name p.1 >>= fun k => .ok (k, p.2) := rfl
      rw [hread, hw.read]
      simp only [Json.bind_eq_ok_iff, ofDocument, Json.toOption_eq_some_iff]
      constructor
      · rintro ⟨_, hp, k, hk, h⟩
        cases hp
        cases h
        exact ⟨hk, rfl⟩
      · rintro ⟨hk, rfl⟩
        exact ⟨_, rfl, kind, hk, rfl⟩
    | object hf hms =>
      cases hf
      exact read_object_eq_ok_iff room hms kind rest
    | @number n text t hn hended =>
      obtain ⟨c, r, rfl, hc⟩ := hn.head
      have hread : read (room + 1) (c :: r ++ t) = .error .valueWanted := by
        unfold read
        rw [List.cons_append, Json.dropBlank_cons _ (Json.isBlank_of_number hc)]
        split
        case h_1 heq => cases heq
        case h_4 => rfl
        all_goals
          rename_i heq
          cases heq
          exact absurd hc (by decide)
      rw [hread]
      simp [ofDocument]
    | _ => simp [read, Json.dropBlank, Json.isBlank, ofDocument]

end Kind

namespace Request

/-! ## Requests -/

/-- What a document adds to what is known of a request, under the name of a member. -/
def fill (name : String) (known : Draft) (d : Json.Document) : Option Draft :=
  if name = "generator" then
    (Source.ofDocument 126 d).map fun source => { known with source := some source }
  else if name = "draw" then
    (Kind.ofDocument d).map fun kind => { known with kind := some kind }
  else if name = "count" then
    (d.word?.map UInt64.toNat).map fun count => { known with count := some count }
  else if name = "skip" then
    (d.word?.map UInt64.toNat).map fun skip => { known with skip := some skip }
  else none

/-- The request that a document is. -/
def ofDocument : Json.Document → Option Request := shape.meaning fill

theorem fillsFrom_documents : Json.Shape.FillsFrom shape.slots 126 fill := by
  intro slot hslot known
  simp only [shape, List.mem_cons, List.not_mem_nil, or_false] at hslot
  rcases hslot with rfl | rfl | rfl | rfl
  · exact (Source.understands_read 125).map fun source => { known with source := some source }
  · exact (Kind.understands_read 125).map fun kind => { known with kind := some kind }
  · exact (Json.understands_size 126).map fun count => { known with count := some count }
  · exact (Json.understands_size 126).map fun skip => { known with skip := some skip }

/-- A text is read as the request that its document is. -/
theorem parse_eq_ok_iff {d : Json.Document} {s : List Char} (hs : d.Text s) (r : Request) :
    Json.parse read s = .ok r ↔ ofDocument d = some r :=
  (Json.Shape.understands_read fillsFrom_documents).parse_eq_ok_iff hs r

/-! ## Another number in a place of a request -/

theorem owns_generator : shape.Owns fill "generator" (Source.ofDocument 126)
    fun source known => { known with source := some source } := by
  constructor
  all_goals simp [shape, fill, Function.comp_def]

theorem owns_count : shape.Owns fill "count" (fun d => d.word?.map UInt64.toNat)
    fun count known => { known with count := some count } := by
  constructor
  all_goals simp [shape, fill, Function.comp_def]

theorem owns_skip : shape.Owns fill "skip" (fun d => d.word?.map UInt64.toNat)
    fun skip known => { known with skip := some skip } := by
  constructor
  all_goals simp [shape, fill, Function.comp_def]

theorem finish_eq_ok_iff (known : Draft) (r : Request) :
    shape.finish known = .ok r ↔ known.source = some r.source ∧ known.count = some r.count ∧
      known.kind.getD .u64 = r.kind ∧ known.skip.getD 0 = r.skip := by
  obtain ⟨source, kind, count, skip⟩ := known
  cases source with
  | none => simp [shape, Json.require, bind, Except.bind]
  | some source =>
    cases count with
    | none => simp [shape, Json.require, bind, Except.bind]
    | some count =>
      constructor
      · intro h
        cases h
        exact ⟨rfl, rfl, rfl, rfl⟩
      · rintro ⟨hsource, hcount, hkind, hskip⟩
        cases hsource
        cases hcount
        exact congrArg₂ (fun kind skip => Except.ok { r with kind, skip }) hkind hskip

/-- The places where the document of a request has a number. With a place goes what becomes
of the request when another number stands there. -/
inductive Place : Request → (Nat → Request) → (Json.Document → Json.Document) → Prop where
  | count {r : Request} {hole : Json.Document → Json.Document} :
      Json.MemberHole memberNames "count" hole → Place r (fun v => { r with count := v }) hole
  | skip {r : Request} {hole : Json.Document → Json.Document} :
      Json.MemberHole memberNames "skip" hole → Place r (fun v => { r with skip := v }) hole
  | source {r : Request} {put : Nat → Source} {hole inner : Json.Document → Json.Document} :
      Json.MemberHole memberNames "generator" hole → r.source.Place put inner →
      Place r (fun v => { r with source := put v }) fun d => hole (inner d)

/-- In a place of a request that has been read once, a natural number that fits is read as
itself, and nothing else is read. -/
theorem Place.ofDocument_eq_some_iff {r₀ : Request} {put : Nat → Request}
    {hole : Json.Document → Json.Document} (h : Place r₀ put hole) {n₀ : Json.Numeral}
    (h₀ : ofDocument (hole (.number n₀)) = some r₀) (n : Json.Numeral) (r : Request) :
    ofDocument (hole (.number n)) = some r ↔
      ∃ v, v < UInt64.size ∧ n.IsNat v ∧ r = put v := by
  have hnodup : (shape.slots.map Json.Slot.name).Nodup := by decide
  cases h with
  | count hhole =>
    have hput := owns_count.meaning_hole_eq_some_iff (by decide) hnodup hhole
      (fun count r => { r with count }) (by simp +contextual [finish_eq_ok_iff]) h₀
    exact (hput _ r).trans (Json.Document.exists_size_iff n r _)
  | skip hhole =>
    have hput := owns_skip.meaning_hole_eq_some_iff (by decide) hnodup hhole
      (fun skip r => { r with skip }) (by simp +contextual [finish_eq_ok_iff]) h₀
    exact (hput _ r).trans (Json.Document.exists_size_iff n r _)
  | source hhole hplace =>
    have hput := owns_generator.meaning_hole_eq_some_iff (by decide) hnodup hhole
      (fun source r => { r with source }) (by simp +contextual [finish_eq_ok_iff]) h₀
    obtain ⟨source₀, hsource₀, hsame⟩ := (hput _ r₀).mp h₀
    have hsource := congrArg Request.source hsame
    dsimp only at hsource
    subst hsource
    have hnumber := hplace.ofDocument_eq_some_iff hsource₀ n
    refine (hput _ r).trans ?_
    constructor
    · rintro ⟨source, hread, rfl⟩
      obtain ⟨v, hv, hn, rfl⟩ := (hnumber source).mp hread
      exact ⟨v, hv, hn, rfl⟩
    · rintro ⟨v, hv, hn, rfl⟩
      exact ⟨_, (hnumber _).mpr ⟨v, hv, hn, rfl⟩, rfl⟩

end Request

end SeededStreams
