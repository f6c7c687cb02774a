import NlsBundle.Proofs.Settings.Written

/-!
# Settings can be read back

The values of an entry stand between quotes, so where they have no quotes themselves they are found
again in the settings, whatever else they contain. Proved here:

* `read_append`, `read_value`: a reader of quoted values goes through a text part by part, and a
  value without quotes stays in one piece;
* `read_render`: in the markup of an entry it reads seven values, of which two belong to the entry;
* `quotedValues_render`: so it reads those of all entries, in order;
* `entriesOf_render`: the entries are told from these;
* `render_determines_entries`: different entries have different settings, and these are two lines.
-/

namespace NlsBundle

namespace Text

/-! ## Quoted values -/

/-- A reader of what stands between quotes. -/
structure QuoteReader where
  /-- the values read so far, the last one first -/
  values : List Text
  /-- the part of a value read so far, if a quote is open -/
  current : Option Text
  deriving DecidableEq, Repr

namespace QuoteReader

/-- Reads a text. -/
def read : QuoteReader → Text → QuoteReader
  | r, [] => r
  | ⟨values, none⟩, c :: t => if c = '"' then read ⟨values, some []⟩ t else read ⟨values, none⟩ t
  | ⟨values, some v⟩, c :: t =>
    if c = '"' then read ⟨v :: values, none⟩ t else read ⟨values, some (v ++ [c])⟩ t

theorem read_append (r : QuoteReader) (a b : Text) : r.read (a ++ b) = (r.read a).read b := by
  fun_induction read r a with
  | case1 r => rfl
  | case2 values t ih => simpa [read] using ih
  | case3 values c t hc ih => simpa [read, hc] using ih
  | case4 values v t ih => simpa [read] using ih
  | case5 values v c t hc ih => simpa [read, hc] using ih

/-- Reads the first part of a text up to some point, and the second one from there. -/
theorem read_append_of_eq {r s : QuoteReader} (between : QuoteReader) {a b : Text}
    (ha : r.read a = between) (hb : between.read b = s) : r.read (a ++ b) = s := by
  rw [read_append, ha, hb]

theorem read_value {values : List Text} {v : Text} (hv : '"' ∉ v) (w : Text) :
    read ⟨values, some w⟩ v = ⟨values, some (w ++ v)⟩ := by
  induction v generalizing w with
  | nil => rw [read, List.append_nil]
  | cons c v ih =>
    have hc : c ≠ '"' := fun h => hv (h ▸ List.mem_cons_self)
    rw [read, if_neg hc, ih fun h => hv (List.mem_cons_of_mem c h), List.append_assoc,
      List.singleton_append]

/-- How a literal is read: it is its list of characters, which the reader can be run on. -/
theorem read_ofList {r s : QuoteReader} {cs : List Char} (h : r.read cs = s) :
    r.read (String.ofList cs).toList = s := by
  rwa [String.toList_ofList]

end QuoteReader

/-- What stands between quotes, in order. -/
def quotedValues (t : Text) : List Text := (QuoteReader.read ⟨[], none⟩ t).values.reverse

end Text

/-! ## Entries -/

namespace BundleEntry

open Text

/-- The parts of the entry have no quotes. -/
structure Unquoted (e : BundleEntry) : Prop where
  accessor : '"' ∉ e.accessor
  properties : '"' ∉ e.properties

/-- The values in the markup of an entry. -/
def values (e : BundleEntry) : List Text :=
  [e.properties, e.accessor, "getString".toList, "0".toList, "true".toList, "key".toList,
    "java.lang.String".toList]

/-- The markup of an entry is read value by value, and no quote is open after it. -/
theorem read_render {e : BundleEntry} (h : e.Unquoted) (found : List Text) :
    QuoteReader.read ⟨found, none⟩ e.render = ⟨e.values.reverse ++ found, none⟩ := by
  unfold BundleEntry.render
  simp only [List.append_assoc]
  -- part by part, each with the state of the reader after it
  refine QuoteReader.read_append_of_eq ⟨found, some []⟩ (QuoteReader.read_ofList rfl) ?_
  refine QuoteReader.read_append_of_eq ⟨found, some e.properties⟩
    (QuoteReader.read_value h.properties []) ?_
  refine QuoteReader.read_append_of_eq ⟨e.properties :: found, some []⟩
    (QuoteReader.read_ofList rfl) ?_
  refine QuoteReader.read_append_of_eq ⟨e.properties :: found, some e.accessor⟩
    (QuoteReader.read_value h.accessor []) ?_
  refine QuoteReader.read_append_of_eq ⟨(e.values.take 4).reverse ++ found, none⟩
    (QuoteReader.read_ofList rfl) ?_
  refine QuoteReader.read_append_of_eq ⟨e.values.reverse ++ found, none⟩
    (QuoteReader.read_ofList rfl) ?_
  exact QuoteReader.read_ofList rfl

theorem read_join_render {entries : List BundleEntry} (h : ∀ e ∈ entries, e.Unquoted)
    (found : List Text) :
    QuoteReader.read ⟨found, none⟩ (join "\\n".toList (entries.map render)) =
      ⟨(entries.flatMap values).reverse ++ found, none⟩ := by
  induction entries generalizing found with
  | nil => rfl
  | cons e entries ih =>
    have he := read_render (h e List.mem_cons_self) found
    cases entries with
    | nil => rwa [List.flatMap_singleton]
    | cons next entries =>
      rw [List.map_cons, List.map_cons, join_cons_cons, List.append_assoc]
      refine QuoteReader.read_append_of_eq _ he ?_
      refine QuoteReader.read_append_of_eq ⟨e.values.reverse ++ found, none⟩
        (QuoteReader.read_ofList rfl) ?_
      have hrest :=
        ih (fun other hother => h other (List.mem_cons_of_mem e hother)) (e.values.reverse ++ found)
      rwa [List.flatMap_cons, List.reverse_append, List.append_assoc]

end BundleEntry

namespace Settings

open Text BundleEntry

/-- The entries with the given values in their markup. -/
def entriesOfValues : List Text → List BundleEntry
  | properties :: accessor :: _ :: _ :: _ :: _ :: _ :: rest =>
      ⟨accessor, properties⟩ :: entriesOfValues rest
  | _ => []

/-- The entries of a settings text. Two values stand before those of the first entry. -/
def entriesOf (t : Text) : List BundleEntry := entriesOfValues ((quotedValues t).drop 2)

theorem entriesOfValues_flatMap (entries : List BundleEntry) :
    entriesOfValues (entries.flatMap values) = entries := by
  induction entries with
  | nil => rfl
  | cons e entries ih =>
    change e :: entriesOfValues (entries.flatMap values) = _
    rw [ih]

theorem quotedValues_render {entries : List BundleEntry} (h : ∀ e ∈ entries, e.Unquoted) :
    quotedValues (render entries) = "1.0".toList :: "UTF-8".toList :: entries.flatMap values := by
  have hread : QuoteReader.read ⟨[], none⟩ (render entries) =
      ⟨(entries.flatMap values).reverse ++ ["UTF-8".toList, "1.0".toList], none⟩ := by
    unfold render
    simp only [List.append_assoc]
    refine QuoteReader.read_append_of_eq ⟨[], none⟩ (QuoteReader.read_ofList rfl) ?_
    refine QuoteReader.read_append_of_eq ⟨["UTF-8".toList, "1.0".toList], none⟩
      (QuoteReader.read_ofList rfl) ?_
    refine QuoteReader.read_append_of_eq _ (read_join_render h _) ?_
    exact QuoteReader.read_ofList rfl
  rw [quotedValues, hread]
  simp

/-- The settings text of entries without quotes is read back. -/
theorem entriesOf_render {entries : List BundleEntry} (h : ∀ e ∈ entries, e.Unquoted) :
    entriesOf (render entries) = entries := by
  rw [entriesOf, quotedValues_render h]
  exact entriesOfValues_flatMap entries

/-! ## Lines -/

/-- A choice of the characters that break lines: the line feed is one, and no visible character
is. -/
structure LineBreaks (isBreak : Char → Bool) : Prop where
  feed : isBreak '\n' = true
  visible : ∀ c, isVisible c = true → isBreak c = false

theorem splitWhere_render {isBreak : Char → Bool} (hbreaks : LineBreaks isBreak)
    {entries : List BundleEntry}
    (h : ∀ e ∈ entries, ∀ c ∈ e.accessor ++ e.properties, isBreak c = false) :
    splitWhere isBreak (render entries) = [configurationLine entries, versionLine, []] := by
  have hconfiguration : ∀ c ∈ configurationLine entries, isBreak c = false := by
    intro c hc
    rcases mem_configurationLine hc with hvisible | ⟨e, he, hentry⟩
    · exact hbreaks.visible c hvisible
    · exact h e he c (List.mem_append.mpr hentry)
  have hversion : ∀ c ∈ versionLine, isBreak c = false :=
    fun c hc => hbreaks.visible c (forall_mem_ofList rfl c hc)
  rw [render_eq, splitWhere_append_cons hbreaks.feed, splitWhere_append_cons hbreaks.feed,
    splitWhere_of_forall hconfiguration, splitWhere_of_forall hversion]
  rfl

/-- **The settings text determines its entries.** Entries without quotes are read back from their
settings, so different lists of entries have different settings. The text is a line with the entries
and a line with the version, each ended by a line feed. If no entry has a line break, whichever
characters are taken for these, there are no other lines. -/
theorem render_determines_entries {entries : List BundleEntry} (h : ∀ e ∈ entries, e.Unquoted) :
    entriesOf (render entries) = entries ∧
      (∀ others : List BundleEntry, (∀ e ∈ others, e.Unquoted) → render entries = render others →
        entries = others) ∧
      render entries = configurationLine entries ++ '\n' :: (versionLine ++ ['\n']) ∧
      ∀ isBreak, LineBreaks isBreak →
        (∀ e ∈ entries, ∀ c ∈ e.accessor ++ e.properties, isBreak c = false) →
        splitWhere isBreak (render entries) = [configurationLine entries, versionLine, []] := by
  refine ⟨entriesOf_render h, ?_, render_eq entries, ?_⟩
  · intro others hothers heq
    rw [← entriesOf_render h, heq, entriesOf_render hothers]
  · intro isBreak hbreaks hunbroken
    exact splitWhere_render hbreaks hunbroken

/-- Entries that look like parts of the markup and of a template, one of them twice. -/
def oddEntries : List BundleEntry :=
  [⟨"\\n</root>".toList, "\x7baccessor\x7d".toList⟩, ⟨[], "\\=".toList⟩,
    ⟨"\\n</root>".toList, "\x7baccessor\x7d".toList⟩]

theorem render_determines_entries_odd :
    entriesOf (render oddEntries) = oddEntries ∧ render oddEntries ≠ render oddEntries.tail ∧
      splitWhere (· = '\n') (render oddEntries) =
        [configurationLine oddEntries, versionLine, []] := by
  have haccessors : ∀ e ∈ oddEntries, '"' ∉ e.accessor := by decide
  have hproperties : ∀ e ∈ oddEntries, '"' ∉ e.properties := by decide
  have hfeed : ∀ e ∈ oddEntries, '\n' ∉ e.accessor ++ e.properties := by decide
  have hquotes : ∀ e ∈ oddEntries, e.Unquoted := fun e he => ⟨haccessors e he, hproperties e he⟩
  have hbreaks : LineBreaks (· = '\n') := by
    refine ⟨rfl, fun c hvisible => decide_eq_false ?_⟩
    rintro rfl
    exact absurd hvisible (by decide)
  obtain ⟨hread, hdifferent, -, hlines⟩ := render_determines_entries hquotes
  refine ⟨hread, ?_, hlines _ hbreaks fun e he c hc => decide_eq_false ?_⟩
  · intro heq
    exact absurd (hdifferent _ (fun e he => hquotes e (List.mem_of_mem_tail he)) heq) (by decide)
  · rintro rfl
    exact hfeed e he hc

end Settings

end NlsBundle
