import UsageGraph.Document.Printing
import UsageGraph.Proofs.Diagnostic.Names
import UsageGraph.Proofs.Lists
import UsageGraph.Proofs.Text.Splitting

/-! # Records of an output

* `Diagnostic.Holds`: what a line holds, one record or a list of records.
* `Diagnostic.ofLine?_eq_some`: just that is read off a line, and nothing off any other line.
* `diagnostics_append`, `diagnostics_join`: the records of texts one below the other.
* `Diagnostic.Reports`: the use that a record tells of.
* `scrape_linewise`: what is scraped off an output is put together from its lines, and each use is
  told by a record of its own.
-/

namespace UsageGraph
open Text
set_option autoImplicit false

namespace Diagnostic

/-! ## The records of a line -/

/-- What a line holds, apart from blanks around it: one record, or a list of records. -/
inductive Holds (line : String) : List Diagnostic → Prop
  | one {doc : Document} {d : Diagnostic} : Document.parse? (trim line) = some doc →
      doc.isKept Document.nestingLimit = true → ofDocument? doc = some d → Holds line [d]
  | many {items : List Document} {ds : List Diagnostic} :
      Document.parse? (trim line) = some (.list items) →
      (Document.list items).isKept Document.nestingLimit = true →
      List.Forall₂ (fun item d => ofDocument? item = some d) items ds → Holds line ds

theorem items?_eq_some {doc : Document} {ds : List Diagnostic} :
    doc.items? ofDocument? = some ds ↔ ∃ items, doc = .list items ∧
      List.Forall₂ (fun item d => ofDocument? item = some d) items ds := by
  cases doc with
  | list items => simp only [Document.items?, mapM_eq_some, Document.list.injEq, exists_eq_left']
  | _ => simp [Document.items?]

/-- No list of records is the list of the fields of one: a record begins with its tag, which is a
text, and a text is no record. -/
theorem ofDocument?_of_items {doc : Document} {ds : List Diagnostic}
    (h : doc.items? ofDocument? = some ds) : ofDocument? doc = none := by
  obtain ⟨items, rfl, hitems⟩ := items?_eq_some.mp h
  cases hitems with
  | nil => rfl
  | @cons item d items ds hitem _ =>
    have htag : item.text? = none := by
      cases item with
      | text s => cases hitem
      | _ => rfl
    rw [ofDocument?]
    by_cases hlength : (item :: items).length ≤ 4
    · have hfields : (Document.list (item :: items)).fields? ["tag", "overview", "region", "file"] =
          some ⟨true, ("tag", item) :: List.zip ["overview", "region", "file"] items⟩ :=
        if_pos hlength
      rw [hfields]
      simp [Fields.required, Fields.get?, htag]
    · have hfields : (Document.list (item :: items)).fields? ["tag", "overview", "region", "file"] =
          none := if_neg hlength
      rw [hfields]
      rfl

theorem ofLine?_eq_some {line : String} {ds : List Diagnostic} :
    ofLine? line = some ds ↔ Holds line ds := by
  constructor
  · intro h
    rw [ofLine?, Option.bind_eq_bind, Option.bind_eq_some_iff] at h
    obtain ⟨doc, hdoc, h⟩ := h
    split at h
    · next hkept =>
      cases hitems : doc.items? ofDocument? with
      | some ds' =>
        rw [hitems] at h
        cases h
        obtain ⟨items, rfl, hds⟩ := items?_eq_some.mp hitems
        exact .many hdoc hkept hds
      | none =>
        rw [hitems] at h
        obtain ⟨d, hd, rfl⟩ := Option.map_eq_some_iff.mp h
        exact .one hdoc hkept hd
    · cases h
  · intro h
    cases h with
    | @one doc d hdoc hkept hd =>
      -- The line is tried as a list of records first, so one record must not pass for a list.
      have hitems : doc.items? ofDocument? = none := by
        cases hitems : doc.items? ofDocument? with
        | none => rfl
        | some ds =>
          rw [ofDocument?_of_items hitems] at hd
          cases hd
      simp [ofLine?, hdoc, hkept, hitems, hd]
    | many hdoc hkept hds =>
      have hitems := items?_eq_some.mpr ⟨_, rfl, hds⟩
      simp [ofLine?, hdoc, hkept, hitems]

/-- The records that are read off a line: those that it holds, if it holds any. -/
def Reads (line : String) (ds : List Diagnostic) : Prop :=
  Holds line ds ∨ ds = [] ∧ ∀ ds', ¬Holds line ds'

theorem ofLine_eq_iff {line : String} {ds : List Diagnostic} :
    ofLine line = ds ↔ Reads line ds := by
  rw [ofLine, Reads]
  simp only [← ofLine?_eq_some]
  cases ofLine? line <;> simp [eq_comm]

theorem ofLine_dropReturn (s : List Char) :
    ofLine (String.ofList (dropReturn s)) = ofLine (String.ofList s) := by
  have htrim : trim (String.ofList (dropReturn s)) = trim (String.ofList s) := by
    rw [trim, trim, String.toList_ofList, String.toList_ofList, trimChars_dropReturn]
  rw [ofLine, ofLine, ofLine?, ofLine?, htrim]

theorem ofLine_empty : ofLine (String.ofList []) = [] := by decide +kernel

end Diagnostic

/-! ## The records of a text -/

theorem diagnostics_eq (output : String) : diagnostics output =
    (splitAll '\n' output.toList).flatMap fun s => Diagnostic.ofLine (String.ofList s) := by
  rw [diagnostics, lines, List.flatMap_map]
  exact flatMap_linesChars (f := fun s => Diagnostic.ofLine (String.ofList s))
    Diagnostic.ofLine_empty Diagnostic.ofLine_dropReturn _

theorem diagnostics_of_line {line : String} (h : '\n' ∉ line.toList) :
    diagnostics line = Diagnostic.ofLine line := by
  rw [diagnostics_eq, splitAll_of_notMem h, List.flatMap_singleton, String.ofList_toList]

theorem diagnostics_append (a b : String) :
    diagnostics (a ++ "\n" ++ b) = diagnostics a ++ diagnostics b := by
  rw [diagnostics_eq, splitAll_append_feed, List.flatMap_append, ← diagnostics_eq,
    ← diagnostics_eq]

theorem diagnostics_join (texts : List String) :
    diagnostics (join "\n" texts) = texts.flatMap diagnostics := by
  induction texts with
  | nil => exact diagnostics_of_line (by decide)
  | cons text texts ih =>
    cases texts with
    | nil => rw [join, String.intercalate_singleton, List.flatMap_singleton]
    | cons next texts =>
      rw [join, String.intercalate_cons_cons, diagnostics_append, List.flatMap_cons, ← ih]
      rfl

theorem diagnostics_of_reads {ls : List String} {dss : List (List Diagnostic)}
    (hls : ∀ l ∈ ls, '\n' ∉ l.toList) (h : List.Forall₂ Diagnostic.Reads ls dss) :
    diagnostics (join "\n" ls) = dss.flatten := by
  rw [diagnostics_join]
  induction h with
  | nil => rfl
  | @cons l ds ls dss hl _ ih =>
    obtain ⟨hfeed, hls⟩ := List.forall_mem_cons.mp hls
    rw [List.flatMap_cons, ih hls, diagnostics_of_line hfeed, Diagnostic.ofLine_eq_iff.mpr hl,
      List.flatten_cons]

/-- A line that holds no record can stand anywhere. -/
theorem diagnostics_insert (before after : List String) {line : String} (hfeed : '\n' ∉ line.toList)
    (h : ∀ ds, ¬Diagnostic.Holds line ds) :
    diagnostics (join "\n" (before ++ line :: after)) =
      diagnostics (join "\n" (before ++ after)) := by
  have hline : diagnostics line = [] := by
    rw [diagnostics_of_line hfeed]
    exact Diagnostic.ofLine_eq_iff.mpr (.inr ⟨rfl, h⟩)
  rw [diagnostics_join, diagnostics_join, List.flatMap_append, List.flatMap_cons, hline,
    List.nil_append, List.flatMap_append]

/-! ## Uses and files -/

theorem PackageId.isLocal_iff {id : PackageId} :
    id.isLocal = true ↔ id = ⟨"user", "project"⟩ := by
  obtain ⟨owner, name⟩ := id
  simp [isLocal]

namespace Diagnostic

/-- The record tells of a use: it is tagged so, and its overview names a value of a package other
than the one under compilation. -/
def Reports (workdir : String) (d : Diagnostic) (u : ExternalUse) : Prop :=
  d.tag = "external value" ∧ ∃ o, Overview.parse? d.overview = some o ∧
    o.package ≠ ⟨"user", "project"⟩ ∧
      u = ⟨o.symbol, o.package, o.module, d.region, relativeName d.file workdir⟩

/-- Some use is told of. -/
def isExternal (d : Diagnostic) : Bool :=
  d.tag == "external value" &&
    (Overview.parse? d.overview).any fun o => o.package ≠ ⟨"user", "project"⟩

variable {workdir : String} {d : Diagnostic} {u : ExternalUse}

theorem use?_eq_some : d.use? workdir = some u ↔ Reports workdir d u := by
  rw [use?, Reports, externalTag]
  by_cases htag : d.tag = "external value"
  · cases ho : Overview.parse? d.overview with
    | none => simp [htag]
    | some o =>
      by_cases hlocal : o.package = ⟨"user", "project"⟩
      · simp [hlocal, PackageId.isLocal_iff.mpr rfl]
      · have hforeign : o.package.isLocal = false :=
          Bool.eq_false_iff.mpr fun h => hlocal (PackageId.isLocal_iff.mp h)
        simp [htag, hlocal, hforeign, eq_comm]
  · simp [htag]

theorem isSome_use? (workdir : String) (d : Diagnostic) :
    (d.use? workdir).isSome = d.isExternal := by
  rw [Bool.eq_iff_iff, Option.isSome_iff_exists, isExternal, Bool.and_eq_true, beq_iff_eq,
    Option.any_eq_true]
  simp only [use?_eq_some, Reports]
  constructor
  · rintro ⟨u, htag, o, ho, hne, -⟩
    exact ⟨htag, o, ho, decide_eq_true hne⟩
  · rintro ⟨htag, o, ho, hne⟩
    exact ⟨_, htag, o, ho, of_decide_eq_true hne, rfl⟩

end Diagnostic

/-- A report tells of some records: of each use that one of them tells of, in their order, and of
every file that one of them is about. -/
structure Report.TellsOf (r : Report) (workdir : String) (ds : List Diagnostic) : Prop where
  uses : List.Forall₂ (Diagnostic.Reports workdir) (ds.filter Diagnostic.isExternal) r.uses
  covered : ∀ u ∈ r.uses, u.file ∈ r.files
  foreign : ∀ u ∈ r.uses, u.package ≠ ⟨"user", "project"⟩
  files : ∀ name, name ∈ r.files ↔ ∃ d ∈ ds, relativeName d.file workdir = name
  ordered : r.files.Pairwise (· < ·)

theorem tellsOf_scrape (output workdir : String) :
    (scrape output workdir).TellsOf workdir (diagnostics output) where
  uses := by
    have huses := forall₂_filterMap (f := Diagnostic.use? workdir) (diagnostics output)
    simp only [Diagnostic.isSome_use?, Diagnostic.use?_eq_some] at huses
    exact huses
  covered := by
    intro u hu
    obtain ⟨d, hd, huse⟩ := mem_uses.mp hu
    exact mem_files.mpr ⟨d, hd, (file_of_use? huse).symm⟩
  foreign := by
    intro u hu
    obtain ⟨d, -, huse⟩ := mem_uses.mp hu
    obtain ⟨-, o, -, hne, rfl⟩ := Diagnostic.use?_eq_some.mp huse
    exact hne
  files := fun _ => mem_files
  ordered := pairwise_nameSet _

/-- An output with one record, which is about a value of another package. -/
theorem scrape_of_record {output : String} {d : Diagnostic} {o : Overview}
    (h : diagnostics output = [d]) (htag : d.tag = externalTag)
    (ho : Overview.parse? d.overview = some o) (hlocal : o.package.isLocal = false)
    (base : String) :
    scrape output base = ⟨[⟨o.symbol, o.package, o.module, d.region, relativeName d.file base⟩],
      [relativeName d.file base]⟩ := by
  rw [scrape, h, List.filterMap_cons, Diagnostic.use?, if_pos htag, ho]
  simp only [hlocal, List.map_cons, List.map_nil]
  rfl

/-- Outputs one below the other are scraped one after the other, a line that holds no record is
passed over wherever it stands, and what is scraped tells of the records of the lines. -/
theorem scrape_linewise (workdir : String) :
    (∀ a b, (scrape (a ++ "\n" ++ b) workdir).uses =
        (scrape a workdir).uses ++ (scrape b workdir).uses ∧
      ∀ name, name ∈ (scrape (a ++ "\n" ++ b) workdir).files ↔
        name ∈ (scrape a workdir).files ∨ name ∈ (scrape b workdir).files) ∧
    (∀ (before after : List String) (line : String), '\n' ∉ line.toList →
      (∀ ds, ¬Diagnostic.Holds line ds) →
        scrape (join "\n" (before ++ line :: after)) workdir =
            scrape (join "\n" (before ++ after)) workdir ∧
          scrapeEvents (join "\n" (before ++ line :: after)) =
            scrapeEvents (join "\n" (before ++ after))) ∧
    (∀ ls dss, (∀ l ∈ ls, '\n' ∉ l.toList) → List.Forall₂ Diagnostic.Reads ls dss →
      diagnostics (join "\n" ls) = dss.flatten) ∧
    ∀ output, (scrape output workdir).TellsOf workdir (diagnostics output) := by
  refine ⟨fun a b => ⟨?_, fun name => ?_⟩, fun before after line hfeed hline => ?_,
    fun ls dss hls h => diagnostics_of_reads hls h, fun output => tellsOf_scrape output workdir⟩
  · rw [scrape, diagnostics_append, List.filterMap_append]
    rfl
  · rw [mem_files, mem_files, mem_files, diagnostics_append]
    simp only [List.mem_append, or_and_right, exists_or]
  · have hsame := diagnostics_insert before after hfeed hline
    rw [scrape, scrape, scrapeEvents, scrapeEvents, hsame]
    exact ⟨rfl, rfl⟩

/-- A list of one record about `./B.elm`, whose tag is not that of a use. -/
def mismatchLine : String := "[[\"TYPE MISMATCH\",\"\",[[1,1],[1,2]],\"./B.elm\"]]"

def mismatch : Diagnostic := ⟨"TYPE MISMATCH", "", ⟨⟨1, 1⟩, ⟨1, 2⟩⟩, "./B.elm"⟩

/-- The overview of a use, as the compiler words it. -/
def externalOverview : List Char :=
  ("External value `text` exists!!Canonical \x7b_package = Name \x7b_user = \"elm-lang\", " ++
    "_project = \"html\"\x7d, _module = \"Html\"\x7d").toList

/-- A list of one record about a use, with all its fields by name. -/
def externalLine : List Char :=
  "[\x7b\"tag\":\"external value\",\"overview\":\"".toList ++ externalOverview.flatMap escapeChar ++
    ("\",\"region\":\x7b\"start\":\x7b\"line\":2,\"column\":3\x7d,\"end\":\x7b\"line\":2," ++
      "\"column\":7\x7d\x7d,\"file\":\"./src/Main.elm\"\x7d]").toList

def external : Diagnostic :=
  ⟨externalTag, String.ofList externalOverview, ⟨⟨2, 3⟩, ⟨2, 7⟩⟩, "./src/Main.elm"⟩

theorem reads_externalLine : Diagnostic.Reads (String.ofList externalLine) [external] := by
  have hline : Diagnostic.ofLine? (String.ofList externalLine) = some [external] := by
    rw [Diagnostic.ofLine?, Document.parse?, trim, String.toList_ofList, String.toList_ofList]
    decide +kernel
  refine Diagnostic.ofLine_eq_iff.mp ?_
  rw [Diagnostic.ofLine, hline, Option.getD_some]

/-- Progress text stands before the records. All of them are read, and one tells of a use. -/
theorem scrape_linewise_progress :
    scrape (join "\n" [mismatchLine, "Success!", mismatchLine]) "/w" =
        scrape (join "\n" [mismatchLine, mismatchLine]) "/w" ∧
      diagnostics (join "\n" ["Success!", mismatchLine]) = [mismatch] ∧
      "B.elm" ∈ (scrape (join "\n" ["Success!", mismatchLine]) "/w").files ∧
      scrape (join "\n" ["Success!", String.ofList externalLine]) "/w" =
        ⟨[⟨"text", ⟨"elm-lang", "html"⟩, "Html", ⟨⟨2, 3⟩, ⟨2, 7⟩⟩, "src/Main.elm"⟩],
          ["src/Main.elm"]⟩ := by
  have hnoise : Diagnostic.Reads "Success!" [] :=
    Diagnostic.ofLine_eq_iff.mp (by decide +kernel)
  have hnone : ∀ ds, ¬Diagnostic.Holds "Success!" ds := by
    intro ds hds
    have hline : Diagnostic.ofLine? "Success!" = none := by decide +kernel
    rw [Diagnostic.ofLine?_eq_some.mpr hds] at hline
    cases hline
  have hrecord : Diagnostic.Reads mismatchLine [mismatch] :=
    Diagnostic.ofLine_eq_iff.mp (by decide +kernel)
  obtain ⟨-, hinsert, hreads, htells⟩ := scrape_linewise "/w"
  have hdiagnostics := hreads ["Success!", mismatchLine] [[], [mismatch]] (by decide +kernel)
    (.cons hnoise (.cons hrecord .nil))
  refine ⟨(hinsert [mismatchLine] [mismatchLine] "Success!" (by decide +kernel) hnone).1,
    hdiagnostics, ?_, ?_⟩
  · refine ((htells _).files "B.elm").mpr ⟨mismatch, ?_, by decide +kernel⟩
    rw [hdiagnostics]
    exact List.mem_singleton_self _
  · have hfeed : '\n' ∉ externalLine := by decide +kernel
    have hexternal := hreads ["Success!", String.ofList externalLine] [[], [external]]
      (by simp [hfeed]) (.cons hnoise (.cons reads_externalLine .nil))
    have hparse : Overview.parse? external.overview = some ⟨"text", ⟨"elm-lang", "html"⟩, "Html"⟩ := by
      rw [external, Overview.parse?, Overview.flatten, String.toList_ofList]
      decide +kernel
    have hname : relativeName "./src/Main.elm" "/w" = "src/Main.elm" := by decide +kernel
    rw [scrape_of_record hexternal rfl hparse (by decide +kernel) "/w", external, hname]

end UsageGraph
