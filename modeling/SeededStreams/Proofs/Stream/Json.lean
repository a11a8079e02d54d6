-- Requests as texts: a request is read back from its text and from every text
-- that has the same members in another order, also without those that say what
-- a request is taken to say anyway. Only its counts have to fit a word.
import Mathlib.Data.List.Nodup
import SeededStreams.Proofs.Source.Json
import SeededStreams.Stream.Json

namespace SeededStreams

theorem Kind.reads_write (room : Nat) (k : Kind) : Json.Reads (read room) k.write k := by
  refine ⟨⟨'"', _, rfl, by decide, by decide⟩, ?_⟩
  intro rest _
  have hchoice : Json.choice all name k.name.toList = .ok k := by
    cases k <;> rfl
  have hread : ∀ s, read room ('"' :: s) =
      Json.Quoted.read s >>= fun p => Json.choice all name p.1 >>= fun k => .ok (k, p.2) :=
    fun _ => rfl
  unfold write Json.Quoted.write
  rw [List.cons_append, List.append_assoc, List.singleton_append, hread, Json.Quoted.read_write]
  simp only [bind, Except.bind, hchoice]

namespace Request

variable {r : Request}

/-! ## The texts of a request -/

/-- The members of the text of a request, with a text of its source. -/
def members (r : Request) (source : List Char) : List (String × List Char) :=
  [("generator", source), ("draw", r.kind.write), ("count", Json.writeNat r.count),
    ("skip", Json.writeNat r.skip)]

/-- The names of these members. -/
def memberNames : List String := ["generator", "draw", "count", "skip"]

/-- The members that say what a request is taken to say without them. -/
def MayLack (r : Request) (name : String) : Prop :=
  name = "draw" ∧ r.kind = .u64 ∨ name = "skip" ∧ r.skip = 0

/-- The texts of a request: its members in any order, with any text of its
source, and without some of those that it may lack. -/
inductive Text (r : Request) : List Char → Prop where
  | intro {source : List Char} {lacking : List String} {ms : List (String × List Char)} :
      r.source.Text source → (∀ name ∈ lacking, r.MayLack name) →
      ms.Perm ((r.members source).filter (·.1 ∉ lacking)) → Text r (Json.writeObject ms)

theorem text_write (r : Request) : r.Text r.write :=
  .intro r.source.text_write (List.forall_mem_nil _) (.refl _)

/-! ## Reading -/

/-- What is known of a request once the members of some names have been read. -/
def known (r : Request) (names : List String) : Draft where
  source := if "generator" ∈ names then some r.source else none
  kind := if "draw" ∈ names then some r.kind else none
  count := if "count" ∈ names then some r.count else none
  skip := if "skip" ∈ names then some r.skip else none

/-- Each member fills its own slot and leaves the others as they are. -/
theorem member_known (room : Nat) (hcount : r.count < UInt64.size) (hskip : r.skip < UInt64.size)
    {source : List Char} (hsource : r.source.Text source) {m : String × List Char}
    (hm : m ∈ r.members source) {names : List String} (hnew : m.1 ∉ names) (rest : List Char)
    (hrest : Json.Ended rest) :
    shape.member (room + 2) (r.known names) m.1.toList (':' :: (m.2 ++ rest)) =
      .ok (r.known (m.1 :: names), rest) := by
  have hfree {α : Type} (x : α) : (if m.1 ∈ names then some x else none).isSome = false := by
    rw [if_neg hnew]
    rfl
  simp only [members, List.mem_cons, List.not_mem_nil, or_false] at hm
  rcases hm with rfl | rfl | rfl | rfl
  all_goals dsimp only at hfree ⊢
  · have hfill := (hsource.reads room).map fun x => { r.known names with source := some x }
    have hnext :
        r.known ("generator" :: names) = { r.known names with source := some r.source } := by
      simp [known]
    rw [hnext]
    exact Json.Shape.member_fills rfl (hfree r.source) hfill rest hrest
  · have hfill := (r.kind.reads_write (room + 2)).map
      fun x => { r.known names with kind := some x }
    have hnext : r.known ("draw" :: names) = { r.known names with kind := some r.kind } := by
      simp [known]
    rw [hnext]
    exact Json.Shape.member_fills rfl (hfree r.kind) hfill rest hrest
  · have hfill := (Json.reads_size (room + 2) hcount).map
      fun x => { r.known names with count := some x }
    have hnext : r.known ("count" :: names) = { r.known names with count := some r.count } := by
      simp [known]
    rw [hnext]
    exact Json.Shape.member_fills rfl (hfree r.count) hfill rest hrest
  · have hfill := (Json.reads_size (room + 2) hskip).map
      fun x => { r.known names with skip := some x }
    have hnext : r.known ("skip" :: names) = { r.known names with skip := some r.skip } := by
      simp [known]
    rw [hnext]
    exact Json.Shape.member_fills rfl (hfree r.skip) hfill rest hrest

/-- What has been read makes the request, once it has all members but those that
the request may lack. -/
theorem finish_known {names : List String}
    (h : ∀ name ∈ memberNames, name ∈ names ∨ r.MayLack name) :
    shape.finish (r.known names) = .ok r := by
  have hgenerator : "generator" ∈ names := by simpa [MayLack] using h "generator" (by decide)
  have hcount : "count" ∈ names := by simpa [MayLack] using h "count" (by decide)
  have hdraw : "draw" ∈ names ∨ r.kind = .u64 := by simpa [MayLack] using h "draw" (by decide)
  have hskip : "skip" ∈ names ∨ r.skip = 0 := by simpa [MayLack] using h "skip" (by decide)
  have hkept {α : Type} {name : String} {x default : α} (h : name ∈ names ∨ x = default) :
      (if name ∈ names then some x else none).getD default = x := by
    split
    · rfl
    · rename_i hlacking
      exact (h.resolve_left hlacking).symm
  simp only [shape, known, hkept hdraw, hkept hskip, if_pos hgenerator, if_pos hcount]
  rfl

/-- A request is read back from each of its texts, with room for the source and
the list inside it. -/
theorem Text.reads (room : Nat) (hcount : r.count < UInt64.size) (hskip : r.skip < UInt64.size)
    {text : List Char} (h : r.Text text) : Json.Reads (read (room + 3)) text r := by
  obtain @⟨source, lacking, ms, hsource, hlacking, hperm⟩ := h
  have hmem : ∀ m ∈ ms, m ∈ r.members source :=
    fun m hm => List.mem_of_mem_filter (hperm.mem_iff.mp hm)
  have hnames : (ms.map Prod.fst).Perm (memberNames.filter (· ∉ lacking)) := by
    have hmembers : memberNames = (r.members source).map Prod.fst := rfl
    rw [hmembers, List.filter_map]
    exact hperm.map Prod.fst
  have hnodup : (ms.map Prod.fst).Nodup :=
    hnames.nodup_iff.mpr (List.Nodup.filter _ (by decide))
  have hgathers : Json.Gathers (shape.member (room + 2)) (r.known []) ms
      (r.known ((ms.map Prod.fst).reverse ++ [])) :=
    Json.gathers_of_names
      (fun m hm names hnew => member_known room hcount hskip hsource (hmem m hm) hnew) hnodup
      (fun m _ => List.not_mem_nil)
  refine Json.Shape.reads_object hgathers (finish_known ?_)
  intro name hname
  rw [List.append_nil, List.mem_reverse, hnames.mem_iff, List.mem_filter, decide_eq_true_eq]
  by_cases hlack : name ∈ lacking
  · exact Or.inr (hlacking name hlack)
  · exact Or.inl ⟨hname, hlack⟩

theorem reads_write (room : Nat) (hcount : r.count < UInt64.size) (hskip : r.skip < UInt64.size) :
    Json.Reads (read (room + 3)) r.write r :=
  r.text_write.reads room hcount hskip

/-! ## The law -/

/-- A request whose counts fit a word is read back from its text, and from every
text that has the same members in another order, in the request and in its
source, with or without a kind that is `u64` and a count to skip that is 0. -/
theorem a_request_is_read_from_its_members_in_any_order (r : Request)
    (hcount : r.count < UInt64.size) (hskip : r.skip < UInt64.size) :
    Json.parse read r.write = .ok r ∧
      ∀ text, r.Text text → Json.parse read text = .ok r :=
  ⟨Json.parse_of_reads (r.reads_write 124 hcount hskip), fun _ h =>
    Json.parse_of_reads (h.reads 124 hcount hskip)⟩

/-- The law at a request of words with nothing to skip: its text, and a text in
which both orders are turned around and the kind is left out. -/
theorem a_request_is_read_without_its_kind :
    Json.parse read (write ⟨.twisterKey [291, 564], .u64, 3, 0⟩) =
        .ok ⟨.twisterKey [291, 564], .u64, 3, 0⟩ ∧
      Json.parse read ("\x7b\"skip\":0,\"count\":3,\"generator\":".toList ++
          "\x7b\"key\":[291,564],\"algorithm\":\"mt19937_64_array\"\x7d\x7d".toList) =
        .ok ⟨.twisterKey [291, 564], .u64, 3, 0⟩ := by
  obtain ⟨hwritten, htexts⟩ := a_request_is_read_from_its_members_in_any_order
    ⟨.twisterKey [291, 564], .u64, 3, 0⟩ (by decide) (by decide)
  have hsource : Source.Text (.twisterKey [291, 564]) (Json.writeObject
      [("key", Json.writeList [Json.writeNat 291, Json.writeNat 564]),
        ("algorithm", Json.Quoted.write "mt19937_64_array".toList)]) :=
    .intro (.swap _ _ _)
  have hlacking : ∀ name ∈ ["draw"],
      MayLack ⟨.twisterKey [291, 564], .u64, 3, 0⟩ name := by
    intro name hname
    exact Or.inl ⟨List.mem_singleton.mp hname, rfl⟩
  have htext := Text.intro hsource hlacking (List.reverse_perm _)
  exact ⟨hwritten, htexts _ htext⟩

end Request

end SeededStreams
