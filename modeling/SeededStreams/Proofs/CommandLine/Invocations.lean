-- Two ways to ask for a stream: by options, or by a file that holds the request. What
-- the arguments of each ask for, and that each command is understood as it was meant.
import SeededStreams.Proofs.CommandLine.Options
import SeededStreams.Proofs.Stream.Json
import SeededStreams.Proofs.Word.Texts

namespace SeededStreams.CommandLine

/-! ## What options ask for -/

/-- The options ask for a style. Without any the draws are printed line by line. -/
structure Asks (items : List Item) (style : Style) : Prop where
  json : jsonOption.name ∈ items.map Item.name ↔ style = .json
  digest : digestOption.name ∈ items.map Item.name ↔ style = .digest

/-- The options say how many draws are wanted, and how many are dropped before. -/
structure Counts (items : List Item) (r : Request) : Prop where
  count : ∃ v, TextOf items countOption v ∧ Word.Denotes 10 v r.count
  skip : ∃ v, TextOf items skipOption v ∧ Word.Denotes 10 v r.skip

/-- The options say what the twister starts from: a seed, or a key with its words in any
of their texts, or nothing, which means the default seed. -/
inductive TwisterSource (items : List Item) : Source → Prop where
  | standard : seedOption.name ∉ items.map Item.name → keyOption.name ∉ items.map Item.name →
      TwisterSource items (.twisterSeed Twister.defaultSeed)
  | seed {v : List Char} {w : Word} : ⟨seedOption, some v⟩ ∈ items → Word.Text v w →
      keyOption.name ∉ items.map Item.name → TwisterSource items (.twisterSeed w)
  | key {texts : List (List Char)} {ws : List Word} : texts ≠ [] →
      ⟨keyOption, some ([','].intercalate texts)⟩ ∈ items → List.Forall₂ Word.Text texts ws →
      seedOption.name ∉ items.map Item.name → TwisterSource items (.twisterKey ws)

/-- The options say what the generator with four words of state starts from: these words,
or a seed that is spread over them. -/
inductive XoshiroSource (items : List Item) : Source → Prop where
  | state {texts : List (List Char)} {s0 s1 s2 s3 : Word} :
      ⟨stateOption, some ([','].intercalate texts)⟩ ∈ items →
      List.Forall₂ Word.Text texts [s0, s1, s2, s3] → spreadOption.name ∉ items.map Item.name →
      XoshiroSource items (.xoshiroState ⟨s0, s1, s2, s3⟩)
  | spread {v : List Char} {w : Word} : ⟨spreadOption, some v⟩ ∈ items → Word.Text v w →
      stateOption.name ∉ items.map Item.name → XoshiroSource items (.xoshiroSpread w)

/-- The arguments ask for the stream of a request in a style, by options in any order. -/
inductive AskByOptions (r : Request) (style : Style) : List String → Prop where
  | twister {items : List Item} {args : List String} : Arranged items args →
      Suits twisterSpec items → TwisterSource items r.source →
      TextOf items drawOption r.kind.name.toList → Counts items r → Asks items style →
      AskByOptions r style ("mt64" :: args)
  | xoshiro {items : List Item} {args : List String} : Arranged items args →
      Suits xoshiroSpec items → XoshiroSource items r.source → r.kind = .u64 → Counts items r →
      Asks items style → AskByOptions r style ("xoshiro" :: args)

/-- The arguments ask for the stream of the request in a file, in a style. -/
inductive AskByFile (path : String) (style : Style) : List String → Prop where
  | intro {before after : List Item} {args args' : List String} : Arranged before args →
      Arranged after args' → Suits fileSpec (before ++ after) → Asks (before ++ after) style →
      path.toList.head? ≠ some '-' → AskByFile path style ("config" :: (args ++ path :: args'))

/-! ## Texts that options may have -/

/-- What begins with a letter or a digit is not taken for an option. -/
theorem begins_of_isAlphanum {s : List Char} (hne : s ≠ []) (h : ∀ c ∈ s, c.isAlphanum = true) :
    Begins s := by
  cases s with
  | nil => exact absurd rfl hne
  | cons c s =>
    have hc := h c List.mem_cons_self
    refine ⟨c, s, rfl, ?_, ?_⟩
    · rintro rfl
      exact absurd hc (by decide)
    · rintro rfl
      exact absurd hc (by decide)

theorem begins_denotes {v : List Char} {n : Nat} (h : Word.Denotes 10 v n) : Begins v :=
  begins_of_isAlphanum h.1 fun c hc => (h.isAlphanum (by decide) c hc).1

theorem begins_text {v : List Char} {w : Word} (h : Word.Text v w) : Begins v :=
  begins_of_isAlphanum h.isAlphanum.1 h.isAlphanum.2

theorem begins_kind (k : Kind) : Begins k.name.toList := by
  cases k <;> exact ⟨_, _, rfl, by decide, by decide⟩

/-- The texts of words are nonempty and without commas. -/
theorem plain_texts {texts : List (List Char)} {ws : List Word}
    (h : List.Forall₂ Word.Text texts ws) : ∀ s ∈ texts, s ≠ [] ∧ ',' ∉ s := by
  induction h with
  | nil => exact List.forall_mem_nil _
  | cons hs _ ih =>
    obtain ⟨hne, hchars⟩ := hs.isAlphanum
    exact List.forall_mem_cons.mpr ⟨⟨hne, fun hc => absurd (hchars ',' hc) (by decide)⟩, ih⟩

theorem begins_texts {texts : List (List Char)} {ws : List Word} (hne : texts ≠ [])
    (h : List.Forall₂ Word.Text texts ws) : Begins ([','].intercalate texts) := by
  cases h with
  | nil => exact absurd rfl hne
  | @cons s w texts ws hs _ =>
    obtain ⟨c, rest, rfl, hdash, hequals⟩ := begins_text hs
    cases texts with
    | nil =>
      rw [List.intercalate_singleton]
      exact ⟨c, rest, rfl, hdash, hequals⟩
    | cons s' texts =>
      rw [List.intercalate_cons_cons]
      exact ⟨c, _, rfl, hdash, hequals⟩

section Fitting

variable {spec : Spec} {items : List Item} (hsuits : Suits spec items)

include hsuits

/-- An option has one text, however it is known. -/
theorem Suits.eq_of_textOf {o : OptionSpec} {v v' : List Char} (h : TextOf items o v)
    (h' : ⟨o, some v'⟩ ∈ items) : v' = v := by
  rcases h with hgiven | ⟨hleft, _⟩
  · have heq := List.inj_on_of_nodup_map hsuits.once h' hgiven rfl
    exact Option.some.inj (congrArg Item.value heq)
  · exact absurd (List.mem_map_of_mem h') hleft

theorem Suits.fits (h : ∀ o ∈ spec.options, ∀ v, ⟨o, some v⟩ ∈ items → Begins v) :
    ∀ item ∈ items, item.Fits := by
  intro item hitem
  have hknown := hsuits.known item hitem
  have hvalued := hsuits.valued item hitem
  cases item with
  | mk o value =>
    cases value with
    | none => simpa [Item.Fits] using hvalued
    | some v => exact ⟨hvalued.mp rfl, h o hknown v hitem⟩

end Fitting

/-! ## Understanding what is asked -/

theorem wordValue_eq {s : List Char} {w : Word} (h : Word.Text s w) : wordValue s = .ok w := by
  rw [wordValue, Word.ofText_of_text h]

theorem forall_wordValue_eq {texts : List (List Char)} {ws : List Word}
    (h : List.Forall₂ Word.Text texts ws) :
    List.Forall₂ (fun s w => wordValue s = .ok w) texts ws :=
  h.imp fun _ _ => wordValue_eq

theorem countValue_eq {s : List Char} {n : Nat} (h : Word.Denotes 10 s n) (hn : n < UInt64.size) :
    countValue s = .ok n := by
  rw [countValue, Word.natOfText_of_denotes (by decide) h hn]

theorem kindValue_eq (k : Kind) : kindValue k.name.toList = .ok k := by
  cases k <;> rfl

/-! ## Counts and styles -/

/-- A style is asked for by one flag at most. -/
theorem Asks.not_both {items : List Item} {style : Style} (h : Asks items style) :
    ¬(jsonOption.name ∈ items.map Item.name ∧ digestOption.name ∈ items.map Item.name) := by
  rw [h.json, h.digest]
  rintro ⟨rfl, hdigest⟩
  cases hdigest

section Output

variable {spec : Spec} {items : List Item} {r : Request} (hsuits : Suits spec items)

include hsuits

theorem Counts.begins (hcounts : Counts items r) {o : OptionSpec} {v : List Char}
    (ho : o ∈ [countOption, skipOption, jsonOption, digestOption]) (hv : ⟨o, some v⟩ ∈ items) :
    Begins v := by
  have htakes := (hsuits.valued _ hv).mp rfl
  simp only [List.mem_cons, List.not_mem_nil, or_false] at ho
  rcases ho with rfl | rfl | rfl | rfl
  · obtain ⟨v', hv', hdenotes⟩ := hcounts.count
    exact hsuits.eq_of_textOf hv' hv ▸ begins_denotes hdenotes
  · obtain ⟨v', hv', hdenotes⟩ := hcounts.skip
    exact hsuits.eq_of_textOf hv' hv ▸ begins_denotes hdenotes
  · exact absurd rfl htakes
  · exact absurd rfl htakes

variable {g : Given} (h : g.Holds spec items)

include h

theorem styleOf_eq {style : Style} (hasks : Asks items style) : styleOf g = .ok style := by
  have hjson := h.flag hsuits.once (o := jsonOption) rfl
  have hdigest := h.flag hsuits.once (o := digestOption) rfl
  simp only [hasks.json, hasks.digest] at hjson hdigest
  simp only [styleOf, hjson, hdigest]
  cases style <;> rfl

theorem Counts.read (hcounts : Counts items r) (hcount : r.count < UInt64.size)
    (hskip : r.skip < UInt64.size) (hknown : countOption ∈ spec.options ∧ skipOption ∈ spec.options) :
    g.one countOption countValue = .ok r.count ∧ g.one skipOption countValue = .ok r.skip := by
  obtain ⟨v, hv, hdenotes⟩ := hcounts.count
  obtain ⟨v', hv', hdenotes'⟩ := hcounts.skip
  exact ⟨(h.one hsuits.once hknown.1 rfl hv (countValue_eq hdenotes hcount)).2,
    (h.one hsuits.once hknown.2 rfl hv' (countValue_eq hdenotes' hskip)).2⟩

end Output

/-! ## The commands -/

section Twister

variable {items : List Item} {source : Source} (hsuits : Suits twisterSpec items)
  (hsource : TwisterSource items source)

include hsource

theorem TwisterSource.not_both :
    ¬(seedOption.name ∈ items.map Item.name ∧ keyOption.name ∈ items.map Item.name) := by
  cases hsource with
  | standard hseed _ => exact fun h => hseed h.1
  | seed _ _ hkey => exact fun h => hkey h.2
  | key _ _ _ hseed => exact fun h => hseed h.1

include hsuits

theorem TwisterSource.begins {o : OptionSpec} {v : List Char} (ho : o = seedOption ∨ o = keyOption)
    (hv : ⟨o, some v⟩ ∈ items) : Begins v := by
  have hname : o.name ∈ items.map Item.name := List.mem_map_of_mem hv
  cases hsource with
  | standard hseed hkey =>
    rcases ho with rfl | rfl
    · exact absurd hname hseed
    · exact absurd hname hkey
  | seed hgiven htext hkey =>
    rcases ho with rfl | rfl
    · exact hsuits.eq_of_textOf (.inl hgiven) hv ▸ begins_text htext
    · exact absurd hname hkey
  | key hne hgiven htexts hseed =>
    rcases ho with rfl | rfl
    · exact absurd hname hseed
    · exact hsuits.eq_of_textOf (.inl hgiven) hv ▸ begins_texts hne htexts

theorem TwisterSource.read {g : Given} (h : g.Holds twisterSpec items) :
    ∃ seed key, g.one? seedOption wordValue = .ok seed ∧ g.all keyOption wordValue = .ok key ∧
      (if key.isEmpty then Source.twisterSeed (seed.getD Twister.defaultSeed)
        else .twisterKey key) = source := by
  have hseedknown : seedOption ∈ twisterSpec.options := by decide
  have hkeyknown : keyOption ∈ twisterSpec.options := by decide
  cases hsource with
  | standard hseed hkey =>
    exact ⟨none, [], (h.left_out hsuits.once hseedknown hseed rfl).2,
      (h.left_out hsuits.once hkeyknown hkey rfl).1, rfl⟩
  | seed hgiven htext hkey =>
    exact ⟨_, [], (h.one hsuits.once hseedknown rfl (.inl hgiven) (wordValue_eq htext)).1,
      (h.left_out hsuits.once hkeyknown hkey rfl).1, rfl⟩
  | key hne hgiven htexts hseed =>
    refine ⟨none, _, (h.left_out hsuits.once hseedknown hseed rfl).2,
      h.many hsuits.once rfl hne (plain_texts htexts) hgiven (forall_wordValue_eq htexts), ?_⟩
    cases htexts with
    | nil => exact absurd rfl hne
    | cons _ _ => rfl

end Twister

section Xoshiro

variable {items : List Item} {source : Source} (hsuits : Suits xoshiroSpec items)
  (hsource : XoshiroSource items source)

include hsource

theorem XoshiroSource.not_both :
    ¬(stateOption.name ∈ items.map Item.name ∧ spreadOption.name ∈ items.map Item.name) := by
  cases hsource with
  | state _ _ hspread => exact fun h => hspread h.2
  | spread _ _ hstate => exact fun h => hstate h.1

include hsuits

theorem XoshiroSource.begins {o : OptionSpec} {v : List Char}
    (ho : o = stateOption ∨ o = spreadOption) (hv : ⟨o, some v⟩ ∈ items) : Begins v := by
  have hname : o.name ∈ items.map Item.name := List.mem_map_of_mem hv
  cases hsource with
  | state hgiven htexts hspread =>
    rcases ho with rfl | rfl
    · have hne := List.ne_nil_of_length_eq_add_one htexts.length_eq
      exact hsuits.eq_of_textOf (.inl hgiven) hv ▸ begins_texts hne htexts
    · exact absurd hname hspread
  | spread hgiven htext hstate =>
    rcases ho with rfl | rfl
    · exact absurd hname hstate
    · exact hsuits.eq_of_textOf (.inl hgiven) hv ▸ begins_text htext

end Xoshiro

section Requests

variable {items : List Item} {args : List String} {r : Request} {style : Style}
  (hargs : Arranged items args) (hcounts : Counts items r) (hasks : Asks items style)
  (hcount : r.count < UInt64.size) (hskip : r.skip < UInt64.size)

include hargs hcounts hasks hcount hskip

/-- The command for the twister comes to the request that its options ask for. -/
theorem readTwister_eq (hsuits : Suits twisterSpec items) (hsource : TwisterSource items r.source)
    (hkind : TextOf items drawOption r.kind.name.toList) :
    readTwister args = .ok (.stream r style) := by
  -- The options of the source and of the kind stand before those that both commands have.
  have hfits := hsuits.fits fun o ho v hv => by
    rcases List.mem_append.mp (show o ∈ [seedOption, keyOption, drawOption] ++ _ from ho)
      with ho | ho
    · simp only [List.mem_cons, List.not_mem_nil, or_false] at ho
      rcases ho with rfl | rfl | rfl
      · exact hsource.begins hsuits (.inl rfl) hv
      · exact hsource.begins hsuits (.inr rfl) hv
      · exact hsuits.eq_of_textOf hkind hv ▸ begins_kind r.kind
    · exact hcounts.begins hsuits ho hv
  have hconflicts : ∀ pair ∈ twisterSpec.conflicts,
      ¬(pair.1 ∈ items.map Item.name ∧ pair.2 ∈ items.map Item.name) :=
    List.forall_mem_cons.mpr ⟨hsource.not_both, List.forall_mem_singleton.mpr hasks.not_both⟩
  obtain ⟨g, hread, h⟩ := read_options lawful_twisterSpec hsuits hfits hconflicts hargs rfl
  obtain ⟨seed, key, hseed, hkey, hstart⟩ := hsource.read hsuits h
  have hdraw := (h.one hsuits.once (by decide) rfl hkind (kindValue_eq r.kind)).2
  obtain ⟨hnumber, hdropped⟩ := hcounts.read hsuits h hcount hskip ⟨by decide, by decide⟩
  have hstyle := styleOf_eq hsuits h hasks
  simp only [readTwister, hread, hseed, hkey, hdraw, hnumber, hdropped, hstyle, hstart, bind,
    Except.bind]
  rfl

/-- The command for the generator with four words of state comes to the request that its
options ask for. -/
theorem readXoshiro_eq (hsuits : Suits xoshiroSpec items) (hsource : XoshiroSource items r.source)
    (hkind : r.kind = .u64) : readXoshiro args = .ok (.stream r style) := by
  have hfits := hsuits.fits fun o ho v hv => by
    rcases List.mem_append.mp (show o ∈ [stateOption, spreadOption] ++ _ from ho) with ho | ho
    · simp only [List.mem_cons, List.not_mem_nil, or_false] at ho
      exact hsource.begins hsuits ho hv
    · exact hcounts.begins hsuits ho hv
  have hconflicts : ∀ pair ∈ xoshiroSpec.conflicts,
      ¬(pair.1 ∈ items.map Item.name ∧ pair.2 ∈ items.map Item.name) :=
    List.forall_mem_cons.mpr ⟨hsource.not_both, List.forall_mem_singleton.mpr hasks.not_both⟩
  obtain ⟨g, hread, h⟩ := read_options lawful_xoshiroSpec hsuits hfits hconflicts hargs rfl
  obtain ⟨hnumber, hdropped⟩ := hcounts.read hsuits h hcount hskip ⟨by decide, by decide⟩
  have hstyle := styleOf_eq hsuits h hasks
  have hstateknown : stateOption ∈ xoshiroSpec.options := by decide
  have hspreadknown : spreadOption ∈ xoshiroSpec.options := by decide
  obtain ⟨source, kind, count, skip⟩ := r
  subst hkind
  cases hsource with
  | @state texts s0 s1 s2 s3 hgiven htexts hspread =>
    have hne := List.ne_nil_of_length_eq_add_one htexts.length_eq
    have hstate := h.many hsuits.once rfl hne (plain_texts htexts) hgiven
      (forall_wordValue_eq htexts)
    have hnone : g.one? spreadOption wordValue = .ok none :=
      (h.left_out hsuits.once hspreadknown hspread rfl).2
    simp only [readXoshiro, hread, hstate, hnone, hnumber, hdropped, hstyle, bind, Except.bind]
    rfl
  | spread hgiven htext hstate =>
    have hnone : g.all stateOption wordValue = .ok [] :=
      (h.left_out hsuits.once hstateknown hstate rfl).1
    have hspread := (h.one hsuits.once hspreadknown rfl (.inl hgiven) (wordValue_eq htext)).1
    simp only [readXoshiro, hread, hspread, hnone, hnumber, hdropped, hstyle, bind, Except.bind]
    rfl

end Requests

theorem read_of_askByOptions {r : Request} {style : Style} {args : List String}
    (h : AskByOptions r style args) (hcount : r.count < UInt64.size) (hskip : r.skip < UInt64.size) :
    Command.read args = .ok (.stream r style) := by
  cases h with
  | twister hargs hsuits hsource hkind hcounts hasks =>
    exact readTwister_eq hargs hcounts hasks hcount hskip hsuits hsource hkind
  | xoshiro hargs hsuits hsource hkind hcounts hasks =>
    exact readXoshiro_eq hargs hcounts hasks hcount hskip hsuits hsource hkind

theorem read_of_askByFile {path : String} {style : Style} {args : List String}
    (h : AskByFile path style args) : Command.read args = .ok (.file path style) := by
  obtain @⟨before, after, args, args', hbefore, hafter, hsuits, hasks, hpath⟩ := h
  have hnothing : ∀ o ∈ fileSpec.options, o.takes = .nothing := by decide
  have hflags : ∀ item ∈ before ++ after, item.value = none := by
    intro item hitem
    have htakes := hnothing _ (hsuits.known item hitem)
    exact Option.not_isSome_iff_eq_none.mp fun h => (hsuits.valued item hitem).mp h htakes
  have hfits := hsuits.fits fun o _ v hv => absurd (hflags _ hv) (Option.some_ne_none v)
  have hconflicts : ∀ pair ∈ fileSpec.conflicts, ¬(pair.1 ∈ (before ++ after).map Item.name ∧
      pair.2 ∈ (before ++ after).map Item.name) :=
    List.forall_mem_singleton.mpr hasks.not_both
  obtain ⟨g, hread, h, hplace⟩ := read_path lawful_fileSpec hsuits hfits
    (fun item hitem => hflags item (List.mem_append_left _ hitem)) hconflicts hbefore hafter rfl hpath
  have hstyle := styleOf_eq hsuits h hasks
  simp only [Command.read, readPath, hread, hstyle, hplace, bind, Except.bind]
  rfl

end SeededStreams.CommandLine
