-- Options and files agree. Options can ask for every request of the twister but those
-- for a key without a word, and for every request of the other generator for words; each
-- of these leads to the same text and the same fault as a file that holds it.
import SeededStreams.Proofs.CommandLine.Invocations
import SeededStreams.Proofs.CommandLine.Output
import SeededStreams.Proofs.Stream.Draws

namespace SeededStreams.CommandLine

/-! ## What can be asked for -/

/-- The requests that options can ask for: the kind is chosen for the twister only, and a
key holds a word. -/
def Expressible (r : Request) : Prop :=
  match r.source with
  | .twisterSeed _ => True
  | .twisterKey key => key ≠ []
  | .xoshiroState _ => r.kind = .u64
  | .xoshiroSpread _ => r.kind = .u64

theorem expressible_of_askByOptions {r : Request} {style : Style} {args : List String}
    (h : AskByOptions r style args) : Expressible r := by
  obtain ⟨source, kind, count, skip⟩ := r
  cases h with
  | twister _ _ hsource =>
    cases hsource with
    | standard => exact trivial
    | seed => exact trivial
    | key hne _ htexts =>
      intro hnil
      subst hnil
      exact hne (List.forall₂_nil_right_iff.mp htexts)
  | xoshiro _ _ hsource hkind =>
    cases hsource with
    | state => exact hkind
    | spread => exact hkind

/-! ## Options for each request -/

/-- Some arguments give the options. -/
theorem exists_arranged (items : List Item) : ∃ args, Arranged items args := by
  induction items with
  | nil => exact ⟨[], .nil⟩
  | cons item items ih =>
    obtain ⟨args, hargs⟩ := ih
    cases item with
    | mk o value =>
      cases value with
      | none => exact ⟨_, .cons .flag hargs⟩
      | some v => exact ⟨_, .cons .apart hargs⟩

/-- The flag of a style. -/
def Style.items : Style → List Item
  | .lines => []
  | .json => [⟨jsonOption, none⟩]
  | .digest => [⟨digestOption, none⟩]

/-- The options that say how many draws are printed, and how. -/
def outputItems (r : Request) (style : Style) : List Item :=
  ⟨countOption, some (Nat.toDigits 10 r.count)⟩ :: ⟨skipOption, some (Nat.toDigits 10 r.skip)⟩ ::
    style.items

theorem names_outputItems (r : Request) (style : Style) :
    (outputItems r style).map Item.name = "count" :: "skip" :: style.items.map Item.name := rfl

/-- The names of these options. -/
def outputNames : List String := ["count", "skip", "json", "digest"]

section Behind

variable {spec : Spec} {front : List Item} {r : Request} {style : Style}

theorem mem_outputNames : ∀ name ∈ (outputItems r style).map Item.name, name ∈ outputNames := by
  rw [names_outputItems]
  cases style <;> decide

theorem suits_outputItems
    (hknown : ∀ o ∈ [countOption, skipOption, jsonOption, digestOption], o ∈ spec.options) :
    Suits spec (outputItems r style) := by
  have hflags : ∀ item ∈ style.items,
      item.option ∈ [countOption, skipOption, jsonOption, digestOption] ∧
        (item.value.isSome ↔ item.option.takes ≠ .nothing) := by
    cases style <;> decide
  refine ⟨?_, ?_, ?_⟩
  · exact List.forall_mem_cons.mpr ⟨hknown countOption (by decide), List.forall_mem_cons.mpr
      ⟨hknown skipOption (by decide), fun item hitem => hknown _ (hflags item hitem).1⟩⟩
  · rw [names_outputItems]
    cases style <;> decide
  · exact List.forall_mem_cons.mpr ⟨by simp [countOption], List.forall_mem_cons.mpr
      ⟨by simp [skipOption], fun item hitem => (hflags item hitem).2⟩⟩

theorem counts_outputItems : Counts (front ++ outputItems r style) r where
  count := ⟨_, .inl (List.mem_append_right _ (.head _)), Word.denotes_toDigits (by decide) r.count⟩
  skip := ⟨_, .inl (List.mem_append_right _ (.tail _ (.head _))),
    Word.denotes_toDigits (by decide) r.skip⟩

variable (hnames : ∀ name ∈ front.map Item.name, name ∉ outputNames)

include hnames

theorem asks_outputItems : Asks (front ++ outputItems r style) style := by
  have hjson : jsonOption.name ∉ front.map Item.name := fun h => hnames _ h (by decide)
  have hdigest : digestOption.name ∉ front.map Item.name := fun h => hnames _ h (by decide)
  refine ⟨?_, ?_⟩
  · rw [List.map_append, List.mem_append, or_iff_right hjson, names_outputItems]
    cases style <;> decide
  · rw [List.map_append, List.mem_append, or_iff_right hdigest, names_outputItems]
    cases style <;> decide

omit hnames in
theorem not_mem_behind {name : String} (hfront : name ∉ front.map Item.name)
    (hname : name ∉ outputNames) : name ∉ (front ++ outputItems r style).map Item.name := by
  rw [List.map_append, List.mem_append]
  exact fun h => h.elim hfront fun h => hname (mem_outputNames name h)

theorem suits_append_outputItems (hfront : Suits spec front)
    (hknown : ∀ o ∈ [countOption, skipOption, jsonOption, digestOption], o ∈ spec.options) :
    Suits spec (front ++ outputItems r style) := by
  have hbehind : Suits spec (outputItems r style) := suits_outputItems hknown
  refine ⟨List.forall_mem_append.mpr ⟨hfront.known, hbehind.known⟩, ?_,
    List.forall_mem_append.mpr ⟨hfront.valued, hbehind.valued⟩⟩
  rw [List.map_append]
  exact hfront.once.append hbehind.once fun name hname hother =>
    hnames name hname (mem_outputNames name hother)

end Behind

/-! ## All requests -/

theorem texts_toDigits (ws : List Word) :
    List.Forall₂ Word.Text (ws.map fun w => Nat.toDigits 10 w.toNat) ws :=
  List.forall₂_map_left_iff.mpr (List.forall₂_same.mpr fun w _ => Word.text_toDigits w)

/-- For each source that one option of two tells, the twister can be asked. -/
theorem exists_of_twisterSource {r : Request} {o other : OptionSpec} {v : List Char}
    (ho : o = seedOption ∧ other = keyOption ∨ o = keyOption ∧ other = seedOption)
    (hsource : ∀ items, ⟨o, some v⟩ ∈ items → other.name ∉ items.map Item.name →
      TwisterSource items r.source) (style : Style) :
    ∃ args, AskByOptions r style args := by
  have hnames : ∀ name ∈ [o.name, drawOption.name], name ∉ outputNames := by
    rcases ho with ⟨rfl, rfl⟩ | ⟨rfl, rfl⟩ <;> decide
  have hother : other.name ∉ [o.name, drawOption.name] ∧ other.name ∉ outputNames := by
    rcases ho with ⟨rfl, rfl⟩ | ⟨rfl, rfl⟩ <;> decide
  have hfront : Suits twisterSpec [⟨o, some v⟩, ⟨drawOption, some r.kind.name.toList⟩] := by
    have honce : [o.name, drawOption.name].Nodup := by
      rcases ho with ⟨rfl, rfl⟩ | ⟨rfl, rfl⟩ <;> decide
    refine ⟨?_, honce, ?_⟩
    · rcases ho with ⟨rfl, rfl⟩ | ⟨rfl, rfl⟩ <;> simp [twisterSpec]
    · rcases ho with ⟨rfl, rfl⟩ | ⟨rfl, rfl⟩ <;> simp [seedOption, keyOption, drawOption]
  obtain ⟨args, hargs⟩ := exists_arranged
    ([⟨o, some v⟩, ⟨drawOption, some r.kind.name.toList⟩] ++ outputItems r style)
  exact ⟨_, .twister hargs (suits_append_outputItems hnames hfront (by decide))
    (hsource _ (.head _) (not_mem_behind hother.1 hother.2)) (.inl (.tail _ (.head _)))
    counts_outputItems (asks_outputItems hnames)⟩

/-- For each source that one option of two tells, the other generator can be asked for words. -/
theorem exists_of_xoshiroSource {r : Request} {o other : OptionSpec} {v : List Char}
    (ho : o = stateOption ∧ other = spreadOption ∨ o = spreadOption ∧ other = stateOption)
    (hsource : ∀ items, ⟨o, some v⟩ ∈ items → other.name ∉ items.map Item.name →
      XoshiroSource items r.source) (hkind : r.kind = .u64) (style : Style) :
    ∃ args, AskByOptions r style args := by
  have hnames : ∀ name ∈ [o.name], name ∉ outputNames := by
    rcases ho with ⟨rfl, rfl⟩ | ⟨rfl, rfl⟩ <;> decide
  have hother : other.name ∉ [o.name] ∧ other.name ∉ outputNames := by
    rcases ho with ⟨rfl, rfl⟩ | ⟨rfl, rfl⟩ <;> decide
  have hfront : Suits xoshiroSpec [⟨o, some v⟩] := by
    refine ⟨?_, List.nodup_singleton _, ?_⟩
    · rcases ho with ⟨rfl, rfl⟩ | ⟨rfl, rfl⟩ <;> simp [xoshiroSpec]
    · rcases ho with ⟨rfl, rfl⟩ | ⟨rfl, rfl⟩ <;> simp [stateOption, spreadOption]
  obtain ⟨args, hargs⟩ := exists_arranged ([⟨o, some v⟩] ++ outputItems r style)
  exact ⟨_, .xoshiro hargs (suits_append_outputItems hnames hfront (by decide))
    (hsource _ (.head _) (not_mem_behind hother.1 hother.2)) hkind
    counts_outputItems (asks_outputItems hnames)⟩

/-- A request can be asked for by options, in any style, exactly if it is for a seed, for a
key with a word, or for words of the other generator. -/
theorem exists_askByOptions_iff (r : Request) (style : Style) :
    (∃ args, AskByOptions r style args) ↔ Expressible r := by
  refine ⟨fun ⟨_, h⟩ => expressible_of_askByOptions h, fun h => ?_⟩
  obtain ⟨source, kind, count, skip⟩ := r
  cases source with
  | twisterSeed w =>
    exact exists_of_twisterSource (.inl ⟨rfl, rfl⟩)
      (fun _ hgiven hkey => .seed hgiven (Word.text_toDigits w) hkey) style
  | twisterKey key =>
    exact exists_of_twisterSource (.inr ⟨rfl, rfl⟩)
      (fun _ hgiven hseed => .key (mt List.map_eq_nil_iff.mp h) hgiven (texts_toDigits key) hseed)
      style
  | xoshiroState s =>
    exact exists_of_xoshiroSource (.inl ⟨rfl, rfl⟩)
      (fun _ hgiven hspread => .state hgiven (texts_toDigits [s.s0, s.s1, s.s2, s.s3]) hspread)
      h style
  | xoshiroSpread w =>
    exact exists_of_xoshiroSource (.inr ⟨rfl, rfl⟩)
      (fun _ hgiven hstate => .spread hgiven (Word.text_toDigits w) hstate) h style

/-! ## The law -/

/-- The bytes of a text are read back as it. -/
theorem textOfBytes_toUTF8 (text : List Char) :
    textOfBytes (String.ofList text).toUTF8 = .ok text := by
  have hread : String.fromUTF8? (String.ofList text).toUTF8 = some (String.ofList text) :=
    dif_pos (String.ofList text).isValidUTF8
  rw [textOfBytes, hread]
  exact congrArg Except.ok String.toList_ofList

/-- Every expressible request can be asked for by options, and however it is, in any order
and with each word in any of its texts, the options need no file and lead to the same as a
file with any text of the request: the stream in the style asked for, a line for each draw,
one line of JSON or one line with its fingerprint; or the fault that the request gives and
no text at all. -/
theorem options_and_a_file_lead_to_the_same (r : Request) (style : Style)
    (hcount : r.count < UInt64.size) (hskip : r.skip < UInt64.size) :
    ((∃ args, AskByOptions r style args) ↔ Expressible r) ∧
    ∀ args fileArgs path text, AskByOptions r style args → AskByFile path style fileArgs →
      r.Text text → ∀ content,
        fileOf? args = none ∧ fileOf? fileArgs = some path ∧
        outcomeOf args content = outcomeOf fileArgs (textOfBytes (String.ofList text).toUTF8) ∧
        (∀ draws, r.stream = .ok draws →
          outcomeOf args content = { output := style.print draws, fault := none } ∧
            style.Prints draws (style.print draws)) ∧
        ∀ e, r.stream = .error e →
          outcomeOf args content = { output := [], fault := some (.noStream e) } := by
  refine ⟨exists_askByOptions_iff r style, ?_⟩
  intro args fileArgs path text hoptions hfile htext content
  have hread := read_of_askByOptions hoptions hcount hskip
  have hreadfile := read_of_askByFile hfile
  have hparse : Json.parse Request.read text = .ok r :=
    Json.parse_of_reads (htext.reads 124 hcount hskip)
  have hprint : outcomeOf args content = printRequest r style := by
    simp only [outcomeOf, hread, Command.run]
  refine ⟨?_, ?_, ?_, fun draws hdraws => ⟨?_, ?_⟩, fun e he => ?_⟩
  · simp only [fileOf?, hread, Command.path?]
  · simp only [fileOf?, hreadfile, Command.path?]
  · rw [hprint, textOfBytes_toUTF8]
    simp only [outcomeOf, hreadfile, Command.run, printFile, hparse]
  · rw [hprint]
    simp only [printRequest, hdraws]
  · obtain ⟨g, _, rfl⟩ := Request.eq_of_stream hdraws
    exact prints_print style r.kind _
  · rw [hprint]
    simp only [printRequest, he]

/-- Three reals from a key of two words, one in hexadecimal with letters of both cases and
a zero before it and one in decimal, as JSON and without the first. -/
theorem askByOptions_key :
    AskByOptions ⟨.twisterKey [175, 18446744073709551615], .realOpen, 3, 1⟩ .json
      ["mt64", "--draw=real_open01", "-k0x0aF,18446744073709551615", "--json", "-n", "3",
        "--skip", "1"] := by
  have hhexadecimal : Word.Text "0x0aF".toList 175 :=
    .hexadecimal (.inl rfl) ⟨by decide, [0, 10, 15], by decide, by decide⟩
  have hdecimal : Word.Text "18446744073709551615".toList 18446744073709551615 :=
    .decimal ⟨by decide, [1, 8, 4, 4, 6, 7, 4, 4, 0, 7, 3, 7, 0, 9, 5, 5, 1, 6, 1, 5], by decide,
      by decide⟩
  have hargs : Arranged
      [⟨drawOption, some "real_open01".toList⟩,
        ⟨keyOption, some "0x0aF,18446744073709551615".toList⟩, ⟨jsonOption, none⟩,
        ⟨countOption, some "3".toList⟩, ⟨skipOption, some "1".toList⟩]
      ["--draw=real_open01", "-k0x0aF,18446744073709551615", "--json", "-n", "3", "--skip", "1"] :=
    .cons .joined (.cons (.letterAttached rfl) (.cons .flag (.cons (.letterApart rfl)
      (.cons .apart .nil))))
  refine .twister hargs ⟨by decide, by decide, by decide⟩ ?_ (.inl (.head _)) ?_ ?_
  · exact .key (List.cons_ne_nil _ _) (.tail _ (.head _))
      (.cons hhexadecimal (.cons hdecimal .nil)) (by decide)
  · exact ⟨⟨"3".toList, .inl (by simp), by decide, [3], by decide, by decide⟩,
      ⟨"1".toList, .inl (by simp), by decide, [1], by decide, by decide⟩⟩
  · exact ⟨by decide, by decide⟩

/-- Ten words from a state of zeros, which no generator has, line by line. -/
theorem askByOptions_zeros :
    AskByOptions ⟨.xoshiroState ⟨0, 0, 0, 0⟩, .u64, 10, 0⟩ .lines
      ["xoshiro", "--state", "0,0x0,00,0X00"] := by
  have hdecimal : Word.Text "0".toList 0 := .decimal ⟨by decide, [0], by decide, by decide⟩
  have hdecimal' : Word.Text "00".toList 0 := .decimal ⟨by decide, [0, 0], by decide, by decide⟩
  have hhexadecimal : Word.Text "0x0".toList 0 :=
    .hexadecimal (.inl rfl) ⟨by decide, [0], by decide, by decide⟩
  have hhexadecimal' : Word.Text "0X00".toList 0 :=
    .hexadecimal (.inr rfl) ⟨by decide, [0, 0], by decide, by decide⟩
  have hargs : Arranged [⟨stateOption, some "0,0x0,00,0X00".toList⟩]
      ["--state", "0,0x0,00,0X00"] :=
    .cons .apart .nil
  refine .xoshiro hargs ⟨by decide, by decide, by decide⟩ ?_ rfl ?_ ?_
  · exact .state (.head _)
      (.cons hdecimal (.cons hhexadecimal (.cons hdecimal' (.cons hhexadecimal' .nil)))) (by decide)
  · exact ⟨⟨"10".toList, .inr ⟨by decide, rfl⟩, by decide, [1, 0], by decide, by decide⟩,
      ⟨"0".toList, .inr ⟨by decide, rfl⟩, by decide, [0], by decide, by decide⟩⟩
  · exact ⟨by decide, by decide⟩

/-- The law at a key, whose stream is the same from its options and from a file, and at a
state of zeros, which is refused from its options without a text. -/
theorem a_key_leads_to_the_same_and_zeros_are_refused :
    outcomeOf ["mt64", "--draw=real_open01", "-k0x0aF,18446744073709551615", "--json", "-n", "3",
        "--skip", "1"] (.error .notFound) =
      outcomeOf ["config", "request.json", "--json"]
        (textOfBytes (String.ofList
          (Request.write ⟨.twisterKey [175, 18446744073709551615], .realOpen, 3, 1⟩)).toUTF8) ∧
    outcomeOf ["xoshiro", "--state", "0,0x0,00,0X00"] (.error .notFound) =
      { output := [], fault := some (.noStream (.seed .zeroState)) } := by
  have hflag : Arranged [⟨jsonOption, none⟩] ["--json"] := .cons .flag .nil
  have hjson : AskByFile "request.json" .json ["config", "request.json", "--json"] :=
    .intro .nil hflag ⟨by decide, by decide, by decide⟩ ⟨by decide, by decide⟩ (by decide)
  have hlines : AskByFile "request.json" .lines ["config", "request.json"] :=
    .intro .nil .nil ⟨by decide, by decide, by decide⟩ ⟨by decide, by decide⟩ (by decide)
  obtain ⟨_, hkey⟩ := options_and_a_file_lead_to_the_same
    ⟨.twisterKey [175, 18446744073709551615], .realOpen, 3, 1⟩ .json (by decide) (by decide)
  obtain ⟨_, hzeros⟩ := options_and_a_file_lead_to_the_same
    ⟨.xoshiroState ⟨0, 0, 0, 0⟩, .u64, 10, 0⟩ .lines (by decide) (by decide)
  obtain ⟨_, _, hsame, _, _⟩ := hkey _ _ _ _ askByOptions_key hjson (Request.text_write _)
    (.error .notFound)
  obtain ⟨_, _, _, _, hrefused⟩ := hzeros _ _ _ _ askByOptions_zeros hlines
    (Request.text_write _) (.error .notFound)
  exact ⟨hsame, hrefused _ rfl⟩

end SeededStreams.CommandLine
