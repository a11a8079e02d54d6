-- What options come to. Each has the texts that are given with it, or its standard
-- text if it is left out, and these are understood as its values, whatever stands
-- around the option and in whatever order.
import Mathlib.Data.List.Forall2
import Mathlib.Data.List.Nodup
import SeededStreams.Proofs.CommandLine.Arguments

namespace SeededStreams.CommandLine

/-! ## Pieces -/

theorem piecesOnto_plain {s : List Char} (h : ',' ∉ s) {found : List Char} (hne : found ++ s ≠ []) :
    piecesOnto found s = [found.reverse ++ s] := by
  induction s generalizing found with
  | nil =>
    rw [List.append_nil] at hne
    simp [piecesOnto, hne]
  | cons c s ih =>
    obtain ⟨hc, hs⟩ := not_or.mp (mt List.mem_cons.mpr h)
    rw [piecesOnto, if_neg (Ne.symm hc), ih hs (List.cons_ne_nil _ _)]
    simp

theorem piecesOnto_comma {s : List Char} (h : ',' ∉ s) (found rest : List Char) :
    piecesOnto found (s ++ ',' :: rest) = (found.reverse ++ s) :: pieces rest := by
  induction s generalizing found with
  | nil => simp [piecesOnto, pieces]
  | cons c s ih =>
    obtain ⟨hc, hs⟩ := not_or.mp (mt List.mem_cons.mpr h)
    rw [List.cons_append, piecesOnto, if_neg (Ne.symm hc), ih hs]
    simp

/-- Texts joined by commas are the pieces of what they make. -/
theorem pieces_intercalate {ss : List (List Char)} (h : ∀ s ∈ ss, s ≠ [] ∧ ',' ∉ s) :
    pieces ([','].intercalate ss) = ss := by
  induction ss with
  | nil => rfl
  | cons s ss ih =>
    obtain ⟨⟨hne, hs⟩, hss⟩ := List.forall_mem_cons.mp h
    cases ss with
    | nil =>
      rw [List.intercalate_singleton]
      exact piecesOnto_plain hs hne
    | cons s' ss =>
      rw [List.intercalate_cons_cons, List.append_assoc, List.singleton_append]
      exact (piecesOnto_comma hs [] _).trans (congrArg (s :: ·) (ih hss))

/-! ## What is given -/

/-- The name of the option. -/
def Item.name (item : Item) : String := item.option.name

/-- The texts that an option gives as values. -/
def Item.texts (item : Item) : List (List Char) :=
  match item.value with
  | none => []
  | some v => item.option.split v

namespace Given

variable (g : Given) (item : Item) (o : OptionSpec) (name : String)

theorem valuesOf_addValues (vs : List (List Char)) :
    (g.addValues o vs).valuesOf name = g.valuesOf name ++ if o.name = name then vs else [] := by
  unfold valuesOf addValues
  rw [List.filterMap_append, List.filterMap_map]
  congr 1
  split
  · rename_i h
    simp [h]
  · rename_i h
    simp [h]

theorem names_add : (g.add item).names = g.names ++ [item.name] := by
  unfold add
  split <;> rfl

theorem path_add : (g.add item).path = g.path := by
  unfold add
  split <;> rfl

theorem valuesOf_add :
    (g.add item).valuesOf name = g.valuesOf name ++ if item.name = name then item.texts else [] := by
  cases item with
  | mk o value =>
    cases value with
    | none =>
      simp only [Item.texts, ite_self, List.append_nil]
      rfl
    | some v => exact valuesOf_addValues (g.note o) o name (o.split v)

theorem valuesOf_add_other (h : item.name ≠ name) : (g.add item).valuesOf name = g.valuesOf name := by
  rw [valuesOf_add, if_neg h, List.append_nil]

/-- What an option that has no value is given. -/
def standardize (g : Given) (o : OptionSpec) : Given :=
  match o.standard with
  | some v => if (g.valuesOf o.name).isEmpty then g.addValues o [v.toList] else g
  | none => g

theorem addStandard_eq (spec : Spec) : addStandard spec g = spec.options.foldl standardize g := rfl

theorem standardize_keeps :
    (g.standardize o).names = g.names ∧ (g.standardize o).path = g.path := by
  unfold standardize
  split
  · split <;> exact ⟨rfl, rfl⟩
  · exact ⟨rfl, rfl⟩

theorem valuesOf_standardize :
    (g.standardize o).valuesOf name = g.valuesOf name ++
      if o.name = name ∧ g.valuesOf name = [] then (o.standard.map String.toList).toList else [] := by
  cases hv : o.standard with
  | none => simp [standardize, hv]
  | some v =>
    by_cases hempty : g.valuesOf o.name = []
    · simp only [standardize, hv, hempty, List.isEmpty_nil, if_true, valuesOf_addValues]
      by_cases hname : o.name = name
      · subst hname
        simp [hempty]
      · simp [hname]
    · have hsome : ¬(o.name = name ∧ g.valuesOf name = []) := by
        rintro ⟨rfl, h⟩
        exact hempty h
      simp [standardize, hv, hempty, hsome]

theorem valuesOf_standardize_other (h : o.name ≠ name) :
    (g.standardize o).valuesOf name = g.valuesOf name := by
  rw [valuesOf_standardize, if_neg fun hboth => h hboth.1, List.append_nil]

/-! ## One after the other -/

section Changes

variable {g} {α : Type} {change : Given → α → Given} {nameOf : α → String} {name}

/-- Changes under other names leave the values of a name as they are. -/
theorem valuesOf_foldl_other
    (hother : ∀ g a, nameOf a ≠ name → (change g a).valuesOf name = g.valuesOf name) {as : List α}
    (hname : name ∉ as.map nameOf) : (as.foldl change g).valuesOf name = g.valuesOf name := by
  induction as generalizing g with
  | nil => rfl
  | cons a as ih =>
    obtain ⟨ha, has⟩ := not_or.mp (mt List.mem_cons.mpr hname)
    exact (ih has).trans (hother g a (Ne.symm ha))

/-- Of changes under different names, the values of a name see one. -/
theorem valuesOf_foldl_own
    (hother : ∀ g a, nameOf a ≠ name → (change g a).valuesOf name = g.valuesOf name) {as : List α}
    (hnodup : (as.map nameOf).Nodup) {a : α} (ha : a ∈ as) (hname : nameOf a = name) :
    ∃ g', g'.valuesOf name = g.valuesOf name ∧
      (as.foldl change g).valuesOf name = (change g' a).valuesOf name := by
  induction as generalizing g with
  | nil => cases ha
  | cons b as ih =>
    obtain ⟨hb, hnodup⟩ := List.nodup_cons.mp hnodup
    rcases List.mem_cons.mp ha with rfl | ha
    · exact ⟨g, rfl, valuesOf_foldl_other hother (hname ▸ hb)⟩
    · have hne : nameOf b ≠ name := fun h => hb (List.mem_map.mpr ⟨a, ha, hname.trans h.symm⟩)
      obtain ⟨g', hg', hvalues⟩ := ih hnodup ha
      exact ⟨g', hg'.trans (hother g b hne), hvalues⟩

end Changes

theorem names_foldl_add (items : List Item) :
    (items.foldl add g).names = g.names ++ items.map Item.name := by
  induction items generalizing g with
  | nil => exact (List.append_nil _).symm
  | cons item items ih =>
    rw [List.foldl_cons, ih, names_add, List.append_assoc]
    rfl

/-- The path and the options do not meet. -/
theorem foldl_add_path (items : List Item) (path : Option String) :
    items.foldl add { g with path := path } = { items.foldl add g with path := path } := by
  have hadd (g : Given) (item : Item) :
      add { g with path := path } item = { g.add item with path := path } := by
    unfold add
    split <;> rfl
  induction items generalizing g with
  | nil => rfl
  | cons item items ih => rw [List.foldl_cons, hadd, ih, List.foldl_cons]

theorem path_foldl_add (items : List Item) : (items.foldl add g).path = g.path := by
  induction items generalizing g with
  | nil => rfl
  | cons item items ih => exact (ih (g.add item)).trans (path_add g item)

/-- Standard texts are added for options that have none, and nothing else is changed. -/
theorem foldl_standardize_keeps (os : List OptionSpec) :
    (os.foldl standardize g).names = g.names ∧ (os.foldl standardize g).path = g.path ∧
      ∀ name, g.valuesOf name ≠ [] → (os.foldl standardize g).valuesOf name = g.valuesOf name := by
  induction os generalizing g with
  | nil => exact ⟨rfl, rfl, fun _ _ => rfl⟩
  | cons o os ih =>
    obtain ⟨hnames, hpath, hvalues⟩ := ih (g.standardize o)
    obtain ⟨hnames', hpath'⟩ := standardize_keeps g o
    refine ⟨hnames.trans hnames', hpath.trans hpath', fun name hname => ?_⟩
    have hkept := valuesOf_standardize g o name
    rw [if_neg fun h => hname h.2, List.append_nil] at hkept
    exact (hvalues name (hkept ▸ hname)).trans hkept

end Given

/-! ## What a command is told -/

/-- The options suit a command: it knows each of them, none is given twice, and those
that take a value have one, and no others. -/
structure Suits (spec : Spec) (items : List Item) : Prop where
  known : ∀ item ∈ items, item.option ∈ spec.options
  once : (items.map Item.name).Nodup
  valued : ∀ item ∈ items, item.value.isSome ↔ item.option.takes ≠ .nothing

/-- The text that an option is taken to have: the one it is given with, or its standard
text if it is left out. -/
def TextOf (items : List Item) (o : OptionSpec) (v : List Char) : Prop :=
  ⟨o, some v⟩ ∈ items ∨ o.name ∉ items.map Item.name ∧ o.standard.map String.toList = some v

/-- Of each option, no less and no more is noted than its own texts, or else its standard
text. -/
structure Given.Holds (g : Given) (spec : Spec) (items : List Item) : Prop where
  names : g.names = items.map Item.name
  own : ∀ item ∈ items, item.texts ≠ [] → g.valuesOf item.name = item.texts
  standard : ∀ o ∈ spec.options, o.name ∉ items.map Item.name →
    g.valuesOf o.name = (o.standard.map String.toList).toList

/-- Options that are noted and then given their standard texts hold what they should. -/
theorem holds_addStandard {spec : Spec} (hspec : spec.Lawful) {items : List Item}
    (honce : (items.map Item.name).Nodup) (path : Option String) :
    (addStandard spec (items.foldl Given.add { path := path })).Holds spec items := by
  have hadd (name : String) (g : Given) (item : Item) (h : item.name ≠ name) :=
    Given.valuesOf_add_other g item name h
  have hstandard (name : String) (g : Given) (o : OptionSpec) (h : o.name ≠ name) :=
    Given.valuesOf_standardize_other g o name h
  obtain ⟨hnames, _, hkept⟩ :=
    (items.foldl Given.add { path := path }).foldl_standardize_keeps spec.options
  rw [Given.addStandard_eq]
  constructor
  · exact hnames.trans (Given.names_foldl_add _ _)
  · intro item hitem htexts
    have hown : (items.foldl Given.add { path := path }).valuesOf item.name = item.texts := by
      obtain ⟨g', hg', hvalues⟩ := Given.valuesOf_foldl_own (g := { path := path })
        (hadd item.name) honce hitem rfl
      rw [hvalues, Given.valuesOf_add, hg', if_pos rfl]
      rfl
    rw [hkept item.name (hown ▸ htexts), hown]
  · intro o ho hleft
    have hnone : (items.foldl Given.add { path := path }).valuesOf o.name = [] :=
      Given.valuesOf_foldl_other (hadd o.name) hleft
    obtain ⟨g', hg', hvalues⟩ := Given.valuesOf_foldl_own
      (g := items.foldl Given.add { path := path }) (hstandard o.name) hspec.names_differ ho rfl
    rw [hvalues, Given.valuesOf_standardize, hg', hnone, if_pos ⟨rfl, rfl⟩]
    rfl

/-! ## Sorting and completing -/

section Reading

variable {spec : Spec} {items : List Item} {args : List String}

theorem read_of_sort {g : Given} (hsort : sort spec none false {} args = .ok g)
    (hconflicts : ∀ pair ∈ spec.conflicts, ¬(pair.1 ∈ g.names ∧ pair.2 ∈ g.names))
    (hpath : spec.takesPath → g.path ≠ none) : spec.read args = .ok (addStandard spec g) := by
  obtain ⟨hnames, hsame, _⟩ := g.foldl_standardize_keeps spec.options
  rw [← Given.addStandard_eq] at hnames hsame
  simp only [Spec.read, hsort, bind, Except.bind]
  rw [if_neg, if_neg]
  · rfl
  · rw [hsame]
    exact fun h => hpath h.1 h.2
  · rw [List.any_eq_true]
    rintro ⟨pair, hpair, hboth⟩
    simp only [Given.has, hnames, Bool.and_eq_true, List.contains_iff_mem] at hboth
    exact hconflicts pair hpair hboth

variable (hspec : spec.Lawful) (hsuits : Suits spec items) (hfits : ∀ item ∈ items, item.Fits)
  (hconflicts : ∀ pair ∈ spec.conflicts,
    ¬(pair.1 ∈ items.map Item.name ∧ pair.2 ∈ items.map Item.name))

include hspec hsuits hfits hconflicts

/-- A command that takes no path is told by its options alone. -/
theorem read_options (hargs : Arranged items args) (hpath : spec.takesPath = false) :
    ∃ g, spec.read args = .ok g ∧ g.Holds spec items := by
  obtain ⟨_, hsort, _⟩ := sort_arranged none {} [] hspec hargs
    fun item hitem => ⟨hfits item hitem, hsuits.known item hitem⟩
  rw [List.append_nil] at hsort
  refine ⟨_, read_of_sort hsort ?_ ?_, holds_addStandard hspec hsuits.once none⟩
  · rw [Given.names_foldl_add]
    exact hconflicts
  · intro h
    exact absurd h (by rw [hpath]; exact Bool.false_ne_true)

omit hsuits hfits hconflicts

/-- A path is found between options without values. -/
theorem read_path {before after : List Item} {args' : List String} {path : String}
    (hsuits : Suits spec (before ++ after)) (hfits : ∀ item ∈ before ++ after, item.Fits)
    (hflags : ∀ item ∈ before, item.value = none)
    (hconflicts : ∀ pair ∈ spec.conflicts, ¬(pair.1 ∈ (before ++ after).map Item.name ∧
      pair.2 ∈ (before ++ after).map Item.name))
    (hbefore : Arranged before args) (hafter : Arranged after args')
    (htakes : spec.takesPath = true) (hpath : path.toList.head? ≠ some '-') :
    ∃ g, spec.read (args ++ path :: args') = .ok g ∧ g.Holds spec (before ++ after) ∧
      g.path = some path := by
  obtain ⟨hfits, hfits'⟩ := List.forall_mem_append.mp hfits
  obtain ⟨hknown, hknown'⟩ := List.forall_mem_append.mp hsuits.known
  obtain ⟨_, hsort, hnone⟩ := sort_arranged none {} (path :: args') hspec hbefore
    fun item hitem => ⟨hfits item hitem, hknown item hitem⟩
  have hfree := Given.path_foldl_add {} before
  have hform := formOf_plain hpath
  rw [String.ofList_toList] at hform
  obtain ⟨_, hsort', _⟩ := sort_arranged none { before.foldl Given.add {} with path := some path } []
    hspec hafter fun item hitem => ⟨hfits' item hitem, hknown' item hitem⟩
  -- No option before the path waits for a value, so the path is not taken for one.
  have hplace : sort spec none false (before.foldl Given.add {}) (path :: args') =
      sort spec none false { before.foldl Given.add {} with path := some path } args' := by
    simp only [sort, hform, takePath, htakes, hfree]
    rfl
  rw [List.append_nil, Given.foldl_add_path] at hsort'
  rw [hnone rfl hflags, hplace, hsort', ← List.foldl_append, ← Given.foldl_add_path] at hsort
  refine ⟨_, read_of_sort hsort ?_ ?_, holds_addStandard hspec hsuits.once (some path), ?_⟩
  · rw [Given.names_foldl_add]
    exact hconflicts
  · rw [Given.path_foldl_add]
    exact fun _ => Option.some_ne_none path
  · rw [Given.addStandard_eq]
    exact (Given.foldl_standardize_keeps _ _).2.1.trans (Given.path_foldl_add _ _)

end Reading

/-! ## Values -/

section Values

variable {spec : Spec} {items : List Item} {g : Given} {o : OptionSpec} {α : Type}
  {as : List Char → Except String α}

theorem mapM_eq_ok {ε β : Type} {f : β → Except ε α} {bs : List β} {found : List α}
    (h : List.Forall₂ (fun b a => f b = .ok a) bs found) : bs.mapM f = .ok found := by
  induction h with
  | nil => rfl
  | cons hb _ ih => simp only [List.mapM_cons, hb, ih, bind, Except.bind, pure, Except.pure]

/-- An option is understood if each of its texts is. -/
theorem all_eq_ok {vs : List (List Char)} {found : List α} (hvs : g.valuesOf o.name = vs)
    (has : List.Forall₂ (fun v a => as v = .ok a) vs found)
    (hgiven : o.name ∈ g.names → o.takes ≠ .nothing → vs ≠ []) (honce : g.names.Nodup) :
    g.all o as = .ok found := by
  have hsome : ¬(g.has o.name = true ∧ o.takes ≠ .nothing ∧ vs.isEmpty = true) := by
    simpa [Given.has] using hgiven
  have htimes : ¬(1 < g.times o.name ∧ o.takes ≠ .many) :=
    fun h => absurd (List.nodup_iff_count_le_one.mp honce o.name) (Nat.not_le.mpr h.1)
  simp only [Given.all, hvs]
  rw [if_neg hsome, mapM_eq_ok (has.imp fun v a hv => ?_)]
  · simp only [bind, Except.bind]
    rw [if_neg htimes]
    rfl
  · simp only [hv]

variable (h : g.Holds spec items) (honce : (items.map Item.name).Nodup)

include h honce

/-- The one text of an option is understood, be it given or meant. -/
theorem Given.Holds.one (ho : o ∈ spec.options) (htakes : o.takes = .one) {v : List Char}
    (hv : TextOf items o v) {a : α} (ha : as v = .ok a) :
    g.one? o as = .ok (some a) ∧ g.one o as = .ok a := by
  have htexts : g.valuesOf o.name = [v] := by
    rcases hv with hgiven | ⟨hleft, hstandard⟩
    · have hsplit : Item.texts ⟨o, some v⟩ = [v] :=
        if_neg fun hboth => absurd (htakes.symm.trans hboth.1) (by decide)
      have hown := h.own _ hgiven (ne_of_eq_of_ne hsplit (List.cons_ne_nil _ _))
      exact hown.trans hsplit
    · rw [h.standard o ho hleft, hstandard]
      rfl
  have hall : g.all o as = .ok [a] :=
    all_eq_ok htexts (.cons ha .nil) (fun _ _ => List.cons_ne_nil _ _) (h.names ▸ honce)
  have hone : g.one? o as = .ok (some a) := by
    simp only [Given.one?, hall]
    rfl
  refine ⟨hone, ?_⟩
  simp only [Given.one, hone]
  rfl

/-- Each of the texts that are joined by commas is understood. -/
theorem Given.Holds.many (htakes : o.takes = .many) {ss : List (List Char)} (hss : ss ≠ [])
    (hplain : ∀ s ∈ ss, s ≠ [] ∧ ',' ∉ s) (hgiven : ⟨o, some ([','].intercalate ss)⟩ ∈ items)
    {found : List α} (has : List.Forall₂ (fun v a => as v = .ok a) ss found) :
    g.all o as = .ok found := by
  have hpieces := pieces_intercalate hplain
  have hne : [','].intercalate ss ≠ [] := by
    intro hnil
    rw [hnil] at hpieces
    exact hss hpieces.symm
  have hsplit : Item.texts ⟨o, some ([','].intercalate ss)⟩ = ss :=
    (if_pos ⟨htakes, hne⟩).trans hpieces
  have hown := h.own _ hgiven (ne_of_eq_of_ne hsplit hss)
  exact all_eq_ok (hown.trans hsplit) has (fun _ _ => hss) (h.names ▸ honce)

/-- An option that is left out and has no standard text has no values. -/
theorem Given.Holds.left_out (ho : o ∈ spec.options) (hleft : o.name ∉ items.map Item.name)
    (hstandard : o.standard = none) : g.all o as = .ok [] ∧ g.one? o as = .ok none := by
  have htexts := h.standard o ho hleft
  rw [hstandard] at htexts
  have hall : g.all o as = .ok [] :=
    all_eq_ok htexts .nil (fun hgiven _ => absurd (h.names ▸ hgiven) hleft) (h.names ▸ honce)
  refine ⟨hall, ?_⟩
  simp only [Given.one?, hall]
  rfl

/-- An option without values says whether it is given. -/
theorem Given.Holds.flag (htakes : o.takes = .nothing) :
    g.flag o = .ok (decide (o.name ∈ items.map Item.name)) := by
  have hunits : List.Forall₂ (fun _ a => (.ok () : Except String Unit) = .ok a)
      (g.valuesOf o.name) ((g.valuesOf o.name).map fun _ => ()) :=
    List.forall₂_map_right_iff.mpr (List.forall₂_same.mpr fun _ _ => rfl)
  have hall := all_eq_ok rfl hunits (fun _ hne => absurd htakes hne) (h.names ▸ honce)
  simp only [Given.flag, hall, Given.has, h.names, List.contains_eq_mem]
  rfl

end Values

end SeededStreams.CommandLine

