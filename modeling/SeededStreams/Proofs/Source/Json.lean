-- Sources as texts. A source is written as an object of two members, and is read
-- back whichever of them comes first.
import Mathlib.Data.List.Perm.Basic
import SeededStreams.Proofs.Json.Texts
import SeededStreams.Proofs.Source.Members

namespace SeededStreams

namespace Json.Value

theorem text_word (room : Nat) (w : Word) : Text room (.number (.word w)) (Json.writeWord w) := by
  have hnumber := Numeral.number_toDigits w.toNat_lt
  rw [UInt64.ofNat_toNat] at hnumber
  cases room <;> exact .number (Numeral.spells_toDigits w.toNat) hnumber

theorem text_words (room : Nat) (ws : List Word) :
    Text (room + 1) (ofWords ws) (Json.writeList (ws.map Json.writeWord)) := by
  refine .list rfl ?_
  simp [List.forall₂_map_left_iff, List.forall₂_map_right_iff, text_word]

theorem reads_words (room : Nat) (ws : List Word) :
    Json.Reads (read (room + 1)) (Json.writeList (ws.map Json.writeWord)) (ofWords ws) :=
  (text_words room ws).reads

end Json.Value

namespace Source

variable {source : Source}

/-! ## Objects that are written -/

/-- An object whose members describe a source is read as that source. -/
theorem reads_of_describes {room : Nat} {ms : List (List Char × Json.Value)}
    {texts : List (String × List Char)}
    (h : List.Forall₂ (Json.Value.MemberText fun v t => Json.Reads (Json.Value.read room) t v)
      ms texts)
    (hdescribes : Describes ms source) :
    Json.Reads (read (room + 1)) (Json.writeObject texts) source := by
  have hobject := Json.Value.reads_writeObject h
  refine ⟨hobject.starts, ?_⟩
  intro rest hrest
  exact (read_eq_ok_iff_of_object (hobject.reads rest hrest) source rest).mpr ⟨rfl, hdescribes⟩

/-! ## The texts of a source -/

/-- The members of the text of a source. -/
def members (source : Source) : List (String × List Char) :=
  [("algorithm", Json.Quoted.write source.form.name.toList), (source.form.field, source.writeField)]

/-- The texts of a source: its members, in any order. -/
inductive Text (source : Source) : List Char → Prop where
  | intro {ms : List (String × List Char)} : ms.Perm source.members →
      Text source (Json.writeObject ms)

theorem text_write (source : Source) : source.Text source.write := .intro (.refl _)

theorem reads_writeField (room : Nat) (source : Source) :
    Json.Reads (Json.Value.read (room + 1)) source.writeField source.fieldValue := by
  cases source with
  | twisterSeed seed => exact Json.Value.reads_writeWord _ seed
  | twisterKey key => exact Json.Value.reads_words room key
  | xoshiroState state => exact Json.Value.reads_words room state.words
  | xoshiroSpread seed => exact Json.Value.reads_writeWord _ seed

theorem describes_members (source : Source) :
    Describes [("algorithm".toList, .text source.form.name.toList),
      (source.form.field.toList, source.fieldValue)] source := by
  rw [describes_iff]
  constructor
  · rw [Json.valuesOf_cons_of_eq rfl, Json.valuesOf_cons_of_ne (field_ne_algorithm _),
      Json.valuesOf_nil]
  · rw [Json.valuesOf_cons_of_ne (field_ne_algorithm _).symm, Json.valuesOf_cons_of_eq rfl,
      Json.valuesOf_nil]

/-- A source is read back from each of its texts, with room for the list inside
its object. -/
theorem Text.reads (room : Nat) {text : List Char} (h : source.Text text) :
    Json.Reads (read (room + 2)) text source := by
  obtain ⟨hperm⟩ := h
  have hmembers : List.Forall₂
      (fun t m => Json.Value.MemberText (fun v t => Json.Reads (Json.Value.read (room + 1)) t v) m t)
      source.members [("algorithm".toList, .text source.form.name.toList),
        (source.form.field.toList, source.fieldValue)] :=
    .cons ⟨rfl, Json.Value.reads_write _ _⟩ (.cons ⟨rfl, reads_writeField room source⟩ .nil)
  obtain ⟨ms, hms, hback⟩ := List.perm_comp_forall₂ hperm hmembers
  exact reads_of_describes hms.flip ((describes_members source).perm hback.symm)

theorem reads_write (room : Nat) (source : Source) :
    Json.Reads (read (room + 2)) source.write source := source.text_write.reads room

/-! ## The law -/

/-- An object is read as a source when exactly one of its members is `algorithm` and has
the name of a generator, and exactly one has the key that counts for this one and a value
of its sort; and then it is read as the source that these two describe. Neither the other
members nor the order count. This is so for every text of an object, also where it stands
inside another text, and every list of members that have texts is the object of a text. -/
theorem an_object_is_the_source_that_two_members_describe :
    (∀ (s : List Char) (ms : List (List Char × Json.Value)),
      Json.parse Json.Value.read s = .ok (.object ms) →
      ∀ source, Json.parse read s = .ok source ↔ Describes ms source) ∧
    (∀ (s t : List Char) (ms ns : List (List Char × Json.Value)),
      Json.parse Json.Value.read s = .ok (.object ms) →
      Json.parse Json.Value.read t = .ok (.object ns) → ms.Perm ns →
      ∀ source, Json.parse read s = .ok source ↔ Json.parse read t = .ok source) ∧
    (∀ (room : Nat) (s t : List Char), Json.dropBlank s = '\x7b' :: t →
      ∀ source rest, read room s = .ok (source, rest) ↔
        ∃ ms, Json.Value.read room s = .ok (.object ms, rest) ∧ Describes ms source) ∧
    (∀ (ms : List (List Char × Json.Value)) (text : List Char),
      Json.Value.Text Json.depthLimit (.object ms) text →
      Json.parse Json.Value.read text = .ok (.object ms)) := by
  refine ⟨fun s ms h => parse_eq_ok_iff h, ?_, fun room s t hs => read_eq_ok_iff_of_brace hs,
    fun ms text h => Json.parse_of_reads h.reads⟩
  intro s t ms ns hs ht hperm source
  rw [parse_eq_ok_iff hs, parse_eq_ok_iff ht]
  exact ⟨fun h => h.perm hperm, fun h => h.perm hperm.symm⟩

/-- Members with all keys that count for some source, and with one that counts for none. -/
def mixedMembers (name : String) : List (List Char × Json.Value) :=
  [("key".toList, Json.Value.ofWords [1, 2]), ("seed".toList, .number (.word 7)),
    ("state".toList, Json.Value.ofWords [3, 4, 5, 6]),
    ("note".toList, .object [("seed".toList, .null)]), ("algorithm".toList, .text name.toList)]

/-- The texts of these members. -/
def mixedTexts (name : String) : List (String × List Char) :=
  [("key", Json.writeList ([1, 2].map Json.writeWord)), ("seed", Json.writeWord 7),
    ("state", Json.writeList ([3, 4, 5, 6].map Json.writeWord)),
    ("note", Json.writeObject [("seed", "null".toList)]),
    ("algorithm", Json.Quoted.write name.toList)]

theorem text_mixedMembers (name : String) :
    List.Forall₂ (Json.Value.MemberText (Json.Value.Text 126)) (mixedMembers name)
      (mixedTexts name) := by
  have hnote : Json.Value.Text 126 (.object [("seed".toList, .null)])
      (Json.writeObject [("seed", "null".toList)]) :=
    .object rfl (.cons ⟨rfl, .null⟩ .nil)
  exact .cons ⟨rfl, Json.Value.text_words 125 [1, 2]⟩ (.cons ⟨rfl, Json.Value.text_word 126 7⟩
    (.cons ⟨rfl, Json.Value.text_words 125 [3, 4, 5, 6]⟩ (.cons ⟨rfl, hnote⟩
      (.cons ⟨rfl, .text _⟩ .nil))))

theorem text_mixed (name : String) :
    Json.Value.Text Json.depthLimit (.object (mixedMembers name))
        (Json.writeObject (mixedTexts name)) ∧
      Json.Value.Text Json.depthLimit (.object (mixedMembers name).reverse)
        (Json.writeObject (mixedTexts name).reverse) :=
  ⟨.object rfl (text_mixedMembers name), .object rfl (List.rel_reverse (text_mixedMembers name))⟩

/-- The law at four objects that differ in the name of the generator only: each time
another member counts, and the keys of the other sources are left aside. Then at one of
them with its members in the other order, and at its place inside a text. -/
theorem the_name_tells_which_member_counts :
    (Json.parse Json.Value.read (Json.writeObject (mixedTexts "mt19937_64")) =
        .ok (.object (mixedMembers "mt19937_64")) ∧
      Json.parse read (Json.writeObject (mixedTexts "mt19937_64")) = .ok (.twisterSeed 7)) ∧
    (Json.parse Json.Value.read (Json.writeObject (mixedTexts "mt19937_64_array")) =
        .ok (.object (mixedMembers "mt19937_64_array")) ∧
      Json.parse read (Json.writeObject (mixedTexts "mt19937_64_array")) =
        .ok (.twisterKey [1, 2])) ∧
    (Json.parse Json.Value.read (Json.writeObject (mixedTexts "xoshiro256starstar")) =
        .ok (.object (mixedMembers "xoshiro256starstar")) ∧
      Json.parse read (Json.writeObject (mixedTexts "xoshiro256starstar")) =
        .ok (.xoshiroState ⟨3, 4, 5, 6⟩)) ∧
    (Json.parse Json.Value.read (Json.writeObject (mixedTexts "xoshiro256starstar_splitmix")) =
        .ok (.object (mixedMembers "xoshiro256starstar_splitmix")) ∧
      Json.parse read (Json.writeObject (mixedTexts "xoshiro256starstar_splitmix")) =
        .ok (.xoshiroSpread 7)) ∧
    (Json.parse Json.Value.read (Json.writeObject (mixedTexts "xoshiro256starstar").reverse) =
        .ok (.object (mixedMembers "xoshiro256starstar").reverse) ∧
      (mixedMembers "xoshiro256starstar").Perm (mixedMembers "xoshiro256starstar").reverse ∧
      Json.parse read (Json.writeObject (mixedTexts "xoshiro256starstar").reverse) =
        .ok (.xoshiroState ⟨3, 4, 5, 6⟩)) ∧
    read Json.depthLimit (Json.writeObject (mixedTexts "xoshiro256starstar") ++ [',']) =
      .ok (.xoshiroState ⟨3, 4, 5, 6⟩, [',']) := by
  obtain ⟨hlaw, horder, hplace, htexts⟩ := an_object_is_the_source_that_two_members_describe
  have hmixed := fun name => htexts _ _ (text_mixed name).1
  have hreverse := htexts _ _ (text_mixed "xoshiro256starstar").2
  have hperm := (List.reverse_perm (mixedMembers "xoshiro256starstar")).symm
  have hstate : Describes (mixedMembers "xoshiro256starstar") (.xoshiroState ⟨3, 4, 5, 6⟩) :=
    .xoshiroState rfl rfl
  have hsource := (hlaw _ _ (hmixed _) _).mpr hstate
  have hobject := (text_mixed "xoshiro256starstar").1.reads.reads [','] (Json.ended_comma [])
  refine ⟨⟨hmixed _, ?_⟩, ⟨hmixed _, ?_⟩, ⟨hmixed _, hsource⟩, ⟨hmixed _, ?_⟩,
    ⟨hreverse, hperm, (horder _ _ _ _ (hmixed _) hreverse hperm _).mp hsource⟩,
    (hplace _ _ _ rfl _ _).mpr ⟨_, hobject, hstate⟩⟩
  · exact (hlaw _ _ (hmixed _) _).mpr (.twisterSeed rfl rfl)
  · exact (hlaw _ _ (hmixed _) _).mpr (.twisterKey rfl rfl)
  · exact (hlaw _ _ (hmixed _) _).mpr (.xoshiroSpread rfl rfl)

end Source

end SeededStreams
