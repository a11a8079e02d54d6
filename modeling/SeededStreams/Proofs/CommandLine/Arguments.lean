-- Options among the arguments of a command. An option is given by its name or its
-- letter, with its value behind it in one of several ways; whatever the ways and
-- the order, sorting notes the same options with the same values.
import Mathlib.Data.List.TakeWhile
import SeededStreams.CommandLine.Command

namespace SeededStreams.CommandLine

/-! ## Options as they are given -/

/-- An option that is given, with the text of its value if it takes one. -/
structure Item where
  option : OptionSpec
  value : Option (List Char)

/-- The arguments that give an option: its name behind two dashes or its letter behind
one, and its value in the next argument, or behind an equals sign, or right behind
the letter. -/
inductive Item.Args : Item → List String → Prop where
  | flag {o : OptionSpec} : Args ⟨o, none⟩ [String.ofList ('-' :: '-' :: o.name.toList)]
  | apart {o : OptionSpec} {v : List Char} :
      Args ⟨o, some v⟩ [String.ofList ('-' :: '-' :: o.name.toList), String.ofList v]
  | joined {o : OptionSpec} {v : List Char} :
      Args ⟨o, some v⟩ [String.ofList ('-' :: '-' :: (o.name.toList ++ '=' :: v))]
  | letterApart {o : OptionSpec} {v : List Char} {l : Char} : o.letter = some l →
      Args ⟨o, some v⟩ [String.ofList ['-', l], String.ofList v]
  | letterJoined {o : OptionSpec} {v : List Char} {l : Char} : o.letter = some l →
      Args ⟨o, some v⟩ [String.ofList ('-' :: l :: '=' :: v)]
  | letterAttached {o : OptionSpec} {v : List Char} {l : Char} : o.letter = some l →
      Args ⟨o, some v⟩ [String.ofList ('-' :: l :: v)]

/-- The arguments that give options one after the other. -/
inductive Arranged : List Item → List String → Prop where
  | nil : Arranged [] []
  | cons {item : Item} {items : List Item} {args rest : List String} : item.Args args →
      Arranged items rest → Arranged (item :: items) (args ++ rest)

/-- The text begins like neither an option nor the rest of one. -/
def Begins (s : List Char) : Prop := ∃ c rest, s = c :: rest ∧ c ≠ '-' ∧ c ≠ '='

/-- An option has a value exactly when it takes one, and the value cannot be taken for
something else. -/
def Item.Fits (item : Item) : Prop :=
  match item.value with
  | none => item.option.takes = .nothing
  | some v => item.option.takes ≠ .nothing ∧ Begins v

/-- The options of a command can be told from each other and from their values. -/
structure Spec.Lawful (spec : Spec) : Prop where
  names_differ : (spec.options.map OptionSpec.name).Nodup
  found_by_letter : ∀ o ∈ spec.options, o.letter.isSome →
    spec.options.find? (·.letter == o.letter) = some o
  head_ne_dash : ∀ o ∈ spec.options, o.name.toList.head?.any (· ≠ '-')
  no_equals : ∀ o ∈ spec.options, '=' ∉ o.name.toList
  letter_ne_dash : ∀ o ∈ spec.options, o.letter ≠ some '-'

/-- The name of an option leads to it. -/
theorem Spec.Lawful.name {spec : Spec} (h : spec.Lawful) {o : OptionSpec}
    (hmem : o ∈ spec.options) : spec.options.find? (·.name == o.name) = some o := by
  obtain ⟨before, after, happ⟩ := List.append_of_mem hmem
  refine List.find?_eq_some_iff_append.mpr ⟨beq_self_eq_true _, before, after, happ, ?_⟩
  intro o' ho'
  have hnodup := h.names_differ
  rw [happ, List.map_append, List.map_cons] at hnodup
  have hne := (List.nodup_append.mp hnodup).2.2 o'.name (List.mem_map_of_mem ho') o.name
    List.mem_cons_self
  simpa using hne

/-- The letter of an option leads to it, and does not make up two dashes. -/
theorem Spec.Lawful.letter {spec : Spec} (h : spec.Lawful) {o : OptionSpec}
    (hmem : o ∈ spec.options) {l : Char} (hl : o.letter = some l) :
    l ≠ '-' ∧ spec.options.find? (·.letter == some l) = some o := by
  have hfound := h.found_by_letter o hmem (by rw [hl]; rfl)
  rw [hl] at hfound
  exact ⟨fun heq => h.letter_ne_dash o hmem (hl.trans (congrArg some heq)), hfound⟩

theorem lawful_twisterSpec : twisterSpec.Lawful := by
  constructor <;> decide

theorem lawful_xoshiroSpec : xoshiroSpec.Lawful := by
  constructor <;> decide

theorem lawful_fileSpec : fileSpec.Lawful := by
  constructor <;> decide

/-! ## Forms -/

section Names

variable {name : List Char} (hdash : name.head?.any (· ≠ '-')) (hequals : '=' ∉ name)

include hequals in
theorem bne_equals : ∀ c ∈ name, (c != '=') = true :=
  fun _ hc => bne_iff_ne.mpr (ne_of_mem_of_not_mem hc hequals)

include hdash

/-- Behind the two dashes of a name no more dashes are dropped. -/
theorem dropWhile_dash (s : List Char) : (name ++ s).dropWhile (· == '-') = name ++ s := by
  cases name with
  | nil => cases hdash
  | cons c name =>
    have hc : (c == '-') = false := by simpa using hdash
    simp only [List.cons_append, List.dropWhile_cons, hc]
    rfl

include hequals

theorem formOf_name :
    formOf (String.ofList ('-' :: '-' :: name)) = .long (String.ofList name) none := by
  have hbody := dropWhile_dash hdash []
  have hplain := bne_equals hequals
  have htake : name.takeWhile (· != '=') = name := List.takeWhile_eq_self_iff.mpr hplain
  have hdrop : name.dropWhile (· != '=') = [] := List.dropWhile_eq_nil_iff.mpr hplain
  rw [List.append_nil] at hbody
  unfold formOf
  rw [String.toList_ofList]
  cases name with
  | nil => cases hdash
  | cons c name => simp only [hbody, htake, hdrop]

theorem formOf_name_value (v : List Char) :
    formOf (String.ofList ('-' :: '-' :: (name ++ '=' :: v))) =
      .long (String.ofList name) (some v) := by
  have hbody := dropWhile_dash hdash ('=' :: v)
  have hplain := bne_equals hequals
  have htake : (name ++ '=' :: v).takeWhile (· != '=') = name :=
    (List.takeWhile_append_of_pos hplain).trans (List.append_nil name)
  have hdrop : (name ++ '=' :: v).dropWhile (· != '=') = '=' :: v :=
    List.dropWhile_append_of_pos hplain
  unfold formOf
  rw [String.toList_ofList]
  cases name with
  | nil => cases hdash
  | cons c name =>
    rw [List.cons_append] at hbody htake hdrop ⊢
    simp only [hbody, htake, hdrop]

end Names

theorem formOf_letter {l : Char} (hl : l ≠ '-') (s : List Char) :
    formOf (String.ofList ('-' :: l :: s)) = .short l s := by
  unfold formOf
  rw [String.toList_ofList]
  split
  · rename_i h
    cases h
    exact absurd rfl hl
  · rename_i h
    cases h
    exact absurd rfl hl
  · rename_i h
    cases h
    rfl
  · rename_i h
    exact absurd rfl (h l s)

theorem formOf_plain {s : List Char} (h : s.head? ≠ some '-') :
    formOf (String.ofList s) = .plain := by
  unfold formOf
  rw [String.toList_ofList]
  split
  · cases h rfl
  · cases h rfl
  · cases h rfl
  · rfl

/-! ## One argument -/

section Sorting

variable {spec : Spec} {o : OptionSpec} {arg : String} (awaiting : Option OptionSpec) (g : Given)
  (args : List String)

theorem sort_flag {value : Option (List Char)} (hform : formOf arg = .long o.name value)
    (hfound : spec.options.find? (·.name == o.name) = some o) (htakes : o.takes = .nothing) :
    sort spec awaiting false g (arg :: args) = sort spec none false (g.note o) args := by
  simp only [sort, hform, hfound, htakes]

theorem sort_name (hform : formOf arg = .long o.name none)
    (hfound : spec.options.find? (·.name == o.name) = some o) (htakes : o.takes ≠ .nothing) :
    sort spec awaiting false g (arg :: args) = sort spec (some o) false (g.note o) args := by
  cases h : o.takes with
  | nothing => exact absurd h htakes
  | one => simp only [sort, hform, hfound, h]
  | many => simp only [sort, hform, hfound, h]

theorem sort_name_value {v : List Char} (hform : formOf arg = .long o.name (some v))
    (hfound : spec.options.find? (·.name == o.name) = some o) (htakes : o.takes ≠ .nothing) :
    sort spec awaiting false g (arg :: args) =
      sort spec none false ((g.note o).addValues o (o.split (v.dropWhile (· == '=')))) args := by
  cases h : o.takes with
  | nothing => exact absurd h htakes
  | one => simp only [sort, hform, hfound, h]
  | many => simp only [sort, hform, hfound, h]

theorem sort_letter {l : Char} (hform : formOf arg = .short l [])
    (hfound : spec.options.find? (·.letter == some l) = some o) :
    sort spec awaiting false g (arg :: args) = sort spec (some o) false (g.note o) args := by
  simp only [sort, hform, hfound]
  rfl

theorem sort_letter_value {l : Char} {v : List Char} (hform : formOf arg = .short l v)
    (hfound : spec.options.find? (·.letter == some l) = some o) (hv : v ≠ []) :
    ∃ awaiting', sort spec awaiting false g (arg :: args) =
      sort spec awaiting' false ((g.note o).addValues o (o.split (v.dropWhile (· == '=')))) args := by
  have hattached : v.isEmpty = false := List.isEmpty_eq_false_iff.mpr hv
  simp only [sort, hform, hfound, hattached]
  exact ⟨_, rfl⟩

theorem sort_value {v : List Char} (hform : formOf (String.ofList v) = .plain) :
    ∃ awaiting', sort spec (some o) false g (String.ofList v :: args) =
      sort spec awaiting' false (g.addValues o (o.split v)) args := by
  simp only [sort, hform, String.toList_ofList]
  exact ⟨_, rfl⟩

/-! ## One option -/

/-- What is noted of an option that is given. -/
def Given.add (g : Given) (item : Item) : Given :=
  match item.value with
  | none => g.note item.option
  | some v => (g.note item.option).addValues item.option (item.option.split v)

theorem Begins.ne_nil {v : List Char} (h : Begins v) : v ≠ [] := by
  obtain ⟨c, rest, rfl, _⟩ := h
  exact List.cons_ne_nil c rest

theorem Begins.dropWhile {v : List Char} (h : Begins v) : v.dropWhile (· == '=') = v := by
  obtain ⟨c, rest, rfl, _, hc⟩ := h
  have hc' : (c == '=') = false := beq_eq_false_iff_ne.mpr hc
  rw [List.dropWhile_cons, hc']
  rfl

theorem Begins.formOf {v : List Char} (h : Begins v) : formOf (String.ofList v) = .plain := by
  obtain ⟨c, rest, rfl, hc, _⟩ := h
  exact formOf_plain fun h => hc (Option.some.inj h)

/-- Whatever option was given before, an option is noted with its value, in each of the
ways in which it may be given. Only an option with a value may take more values behind. -/
theorem sort_item (hspec : spec.Lawful) {item : Item} {parts : List String} (h : item.Args parts)
    (hfits : item.Fits) (hmem : item.option ∈ spec.options) :
    ∃ awaiting', sort spec awaiting false g (parts ++ args) =
        sort spec awaiting' false (g.add item) args ∧
      (item.value = none → awaiting' = none) := by
  have hfound := hspec.name hmem
  have hdash := hspec.head_ne_dash _ hmem
  have hequals := hspec.no_equals _ hmem
  have hform := formOf_name hdash hequals
  rw [String.ofList_toList] at hform
  cases h with
  | flag => exact ⟨none, sort_flag awaiting g args hform hfound hfits, fun _ => rfl⟩
  | apart =>
    obtain ⟨htakes, hv⟩ := hfits
    obtain ⟨awaiting', hvalue⟩ := sort_value (g.note _) args hv.formOf
    exact ⟨awaiting', (sort_name awaiting g _ hform hfound htakes).trans hvalue, nofun⟩
  | @joined o v =>
    obtain ⟨htakes, hv⟩ := hfits
    have hformv := formOf_name_value hdash hequals v
    rw [String.ofList_toList] at hformv
    have hsort := sort_name_value awaiting g args hformv hfound htakes
    rw [hv.dropWhile] at hsort
    exact ⟨none, hsort, nofun⟩
  | letterApart hl =>
    obtain ⟨_, hv⟩ := hfits
    obtain ⟨hne, hletter⟩ := hspec.letter hmem hl
    obtain ⟨awaiting', hvalue⟩ := sort_value (g.note _) args hv.formOf
    exact ⟨awaiting', (sort_letter awaiting g _ (formOf_letter hne []) hletter).trans hvalue, nofun⟩
  | @letterJoined o v l hl =>
    obtain ⟨_, hv⟩ := hfits
    obtain ⟨hne, hletter⟩ := hspec.letter hmem hl
    obtain ⟨awaiting', hvalue⟩ := sort_letter_value awaiting g args
      (formOf_letter hne ('=' :: v)) hletter (List.cons_ne_nil _ _)
    have hbehind : ('=' :: v).dropWhile (· == '=') = v := hv.dropWhile
    rw [hbehind] at hvalue
    exact ⟨awaiting', hvalue, nofun⟩
  | @letterAttached o v l hl =>
    obtain ⟨_, hv⟩ := hfits
    obtain ⟨hne, hletter⟩ := hspec.letter hmem hl
    obtain ⟨awaiting', hvalue⟩ := sort_letter_value awaiting g args
      (formOf_letter hne v) hletter hv.ne_nil
    rw [hv.dropWhile] at hvalue
    exact ⟨awaiting', hvalue, nofun⟩

/-- The options of any arguments that give them are noted one after the other. -/
theorem sort_arranged (hspec : spec.Lawful) {items : List Item} {parts : List String}
    (h : Arranged items parts)
    (hitems : ∀ item ∈ items, item.Fits ∧ item.option ∈ spec.options) :
    ∃ awaiting', sort spec awaiting false g (parts ++ args) =
        sort spec awaiting' false (items.foldl Given.add g) args ∧
      (awaiting = none → (∀ item ∈ items, item.value = none) → awaiting' = none) := by
  induction h generalizing awaiting g with
  | nil => exact ⟨awaiting, rfl, fun h _ => h⟩
  | @cons item items parts rest hitem _ ih =>
    obtain ⟨⟨hfits, hmem⟩, hitems⟩ := List.forall_mem_cons.mp hitems
    obtain ⟨between, hfirst, hflag⟩ := sort_item awaiting g (rest ++ args) hspec hitem hfits hmem
    obtain ⟨awaiting', hrest, hflags⟩ := ih between (g.add item) hitems
    rw [List.append_assoc]
    refine ⟨awaiting', hfirst.trans hrest, fun _ hnone => ?_⟩
    obtain ⟨hnone, hnones⟩ := List.forall_mem_cons.mp hnone
    exact hflags (hflag hnone) hnones

end Sorting

end SeededStreams.CommandLine
