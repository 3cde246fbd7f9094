import TestReach.Proofs.Answer
import TestReach.Report.Display

/-!
# Methods under their projects

A report for reading shows the methods of each side under the names of their projects. The printer
knows nothing of projects: it writes a name whenever the project of a method is not that of the
method before (`Report.rows`). That no name comes twice is therefore a property of the lists that it
is given. A run goes through the projects one after the other and never comes back to one, so the
entries of an outcome lie project by project (`ByProject`), whatever was left out on the way.

What a line shows is said without the printer (`Report.Row.text`), for every painter that prints
different texts differently (`Painter.Faithful`). Both painters do, that for terminals although it
switches a style on again inside a text that switches styles off (`Style.apply_injective`).
-/

namespace TestReach

variable {σ : Type}

/-! ## Painters -/

namespace Text

section Exchange

variable {h : Char} {t more : List Char}

theorem exchange_cons (old new : List Char) (n : Nat) (c : Char) (cs : List Char) :
    exchange old new (n + 1) (c :: cs) =
      if old <+: c :: cs then new ++ exchange old new n ((c :: cs).drop old.length)
      else c :: exchange old new n cs := by
  simp only [exchange, List.isPrefixOf_iff_prefix]

/-- What an exchange begins with stood there before, up to the first character of what it puts in
place. -/
theorem prefix_of_prefix_exchange {u cs : List Char} {n : Nat} (hu : h ∉ u)
    (hpre : u <+: exchange (h :: t) (h :: t ++ more) n cs) : u <+: cs := by
  induction n generalizing u cs with
  | zero => exact hpre
  | succ n ih =>
    cases u with
    | nil => exact List.nil_prefix
    | cons a u =>
      obtain ⟨ha, hu⟩ := not_or.1 (List.mem_cons.not.1 hu)
      cases cs with
      | nil => exact hpre
      | cons c cs =>
        rw [exchange_cons] at hpre
        split at hpre
        · exact absurd (List.cons_prefix_cons.1 hpre).1.symm ha
        · obtain ⟨rfl, hrest⟩ := List.cons_prefix_cons.1 hpre
          exact List.cons_prefix_cons.2 ⟨rfl, ih hu hrest⟩

/-- An exchange makes no occurrence at the beginning of a text that has none there. -/
theorem prefix_exchange_iff (ht : h ∉ t) (n : Nat) (cs : List Char) :
    h :: t <+: exchange (h :: t) (h :: t ++ more) n cs ↔ h :: t <+: cs := by
  cases n with
  | zero => rfl
  | succ n =>
    cases cs with
    | nil => rfl
    | cons c cs =>
      rw [exchange_cons]
      by_cases hold : h :: t <+: c :: cs
      · rw [if_pos hold, List.append_assoc]
        exact iff_of_true (List.prefix_append _ _) hold
      · rw [if_neg hold]
        refine iff_of_false (fun hpre => hold ?_) hold
        obtain ⟨rfl, hrest⟩ := List.cons_prefix_cons.1 hpre
        exact List.cons_prefix_cons.2 ⟨rfl, prefix_of_prefix_exchange ht hrest⟩

theorem exchange_eq_nil {n : Nat} {cs : List Char}
    (heq : exchange (h :: t) (h :: t ++ more) n cs = []) : cs = [] := by
  cases n with
  | zero => exact heq
  | succ n =>
    cases cs with
    | nil => rfl
    | cons c cs =>
      rw [exchange_cons] at heq
      split at heq <;> simp at heq

/-- An exchange that only adds something after each occurrence loses nothing. -/
theorem exchange_injective (ht : h ∉ t) {n m : Nat} {as bs : List Char} (hn : as.length ≤ n)
    (hm : bs.length ≤ m)
    (heq : exchange (h :: t) (h :: t ++ more) n as = exchange (h :: t) (h :: t ++ more) m bs) :
    as = bs := by
  induction n generalizing as m bs with
  | zero =>
    obtain rfl : as = [] := List.length_eq_zero_iff.1 (Nat.le_zero.1 hn)
    exact (exchange_eq_nil heq.symm).symm
  | succ n ih =>
    -- both texts begin with an occurrence or neither does
    have hiff : h :: t <+: as ↔ h :: t <+: bs := by
      rw [← prefix_exchange_iff ht (n + 1) as, heq, prefix_exchange_iff ht m bs]
    cases as with
    | nil => exact (exchange_eq_nil heq.symm).symm
    | cons a as =>
      cases m with
      | zero =>
        obtain rfl : bs = [] := List.length_eq_zero_iff.1 (Nat.le_zero.1 hm)
        exact exchange_eq_nil heq
      | succ m =>
        cases bs with
        | nil => exact exchange_eq_nil heq
        | cons b bs =>
          rw [exchange_cons, exchange_cons] at heq
          rw [List.length_cons] at hn hm
          by_cases hold : h :: t <+: a :: as
          · have hold' := hiff.1 hold
            rw [if_pos hold, if_pos hold'] at heq
            have hrest := ih (by simp; omega) (by simp; omega) (List.append_cancel_left heq)
            rw [← List.prefix_iff_eq_append.1 hold, hrest, List.prefix_iff_eq_append.1 hold']
          · rw [if_neg hold, if_neg (hiff.not.1 hold)] at heq
            obtain ⟨rfl, htail⟩ := List.cons.inj heq
            rw [ih (Nat.le_of_succ_le_succ hn) (Nat.le_of_succ_le_succ hm) htail]

end Exchange

theorem replace_injective {h : Char} {t : List Char} (ht : h ∉ t) {old : String}
    (hold : old.toList = h :: t) (more : String) {a b : String}
    (heq : replace a old (old ++ more) = replace b old (old ++ more)) : a = b := by
  have hne : old.isEmpty = false := by
    rw [Bool.eq_false_iff, ne_eq, String.isEmpty_iff, ← String.toList_inj, hold]
    simp
  rw [replace, replace, hne, String.toList_append, hold] at heq
  exact String.toList_inj.1 (exchange_injective ht String.length_toList.le
    String.length_toList.le (String.ofList_injective heq))

end Text

/-- A text can be told from how it is printed in a style. -/
theorem Style.apply_injective (s : Style) : Function.Injective s.apply := by
  intro a b heq
  unfold Style.apply at heq
  have hinner := (String.append_right_inj _).1 ((String.append_left_inj _).1 heq)
  exact Text.replace_injective (h := '\x1b') (t := ['[', '0', 'm']) (by decide) rfl s.on hinner

/-- Different texts in one style are printed differently. -/
def Painter.Faithful (paint : Painter) : Prop :=
  ∀ style, Function.Injective (paint style)

/-- The program prints faithfully, with colors and without. -/
theorem Painter.faithful_ofColor (color : Bool) : (ofColor color).Faithful := by
  cases color with
  | true => exact Style.apply_injective
  | false => exact fun _ _ _ heq => heq

/-! ## Rows -/

namespace Report

open Piece Style

/-- The project that a row names. -/
def Row.header? : Row → Option String
  | .project name => some name
  | .method _ => none

/-- The method that a row shows. -/
def Row.entry? : Row → Option Entry
  | .project _ => none
  | .method e => some e

/-- The names of projects among rows. -/
def headers (rs : List Row) : List String :=
  rs.filterMap Row.header?

/-- The methods among rows. -/
def entries (rs : List Row) : List Entry :=
  rs.filterMap Row.entry?

@[simp] theorem headers_nil : headers [] = [] := rfl

@[simp] theorem headers_project (name : String) (rs : List Row) :
    headers (.project name :: rs) = name :: headers rs := rfl

@[simp] theorem headers_method (e : Entry) (rs : List Row) :
    headers (.method e :: rs) = headers rs := rfl

@[simp] theorem entries_project (name : String) (rs : List Row) :
    entries (.project name :: rs) = entries rs := rfl

@[simp] theorem entries_method (e : Entry) (rs : List Row) :
    entries (.method e :: rs) = e :: entries rs := rfl

/-- What a row is printed as: the name of a project, or a method with a mark, its type, its name and
its parameters. -/
def Row.text (paint : Painter) (mark : String) : Row → String
  | .project name => "    " ++ paint dimmed name
  | .method e =>
    "      " ++ mark ++ " " ++ paint blue e.typeName ++ " " ++ e.name ++ "(" ++
      ", ".intercalate e.parameters ++ ")"

/-- The rows of a section show these entries under these projects. -/
structure Grouped (paint : Painter) (projects : List String) (es : List Entry) (rs : List Row) :
    Prop where
  /-- No two lines with names of projects are the same. -/
  distinct : ∀ mark, ((headers rs).map fun name => Row.text paint mark (.project name)).Nodup
  /-- The names stand in the order of the projects. -/
  ordered : (headers rs).Sublist projects
  /-- The projects that are named are those of the entries. -/
  named : ∀ name, name ∈ headers rs ↔ ∃ e ∈ es, e.project = name
  /-- The methods are the entries, in their order. -/
  shown : entries rs = es
  /-- The last name before a method is that of its project. -/
  below : ∀ before e after, rs = before ++ .method e :: after →
    (headers before).getLast? = some e.project

/-- Names can be told apart by their lines. -/
theorem text_project_injective {paint : Painter} (hpaint : paint.Faithful) (mark : String) :
    Function.Injective fun name => Row.text paint mark (.project name) :=
  fun _ _ heq => hpaint dimmed ((String.append_right_inj _).1 heq)

theorem joinWith_eq_intercalate (sep : String) (texts : List String) :
    Text.joinWith sep texts = sep.intercalate texts := by
  induction texts with
  | nil => rw [Text.joinWith, String.intercalate_nil]
  | cons text texts ih =>
    cases texts with
    | nil => rw [Text.joinWith, String.intercalate_singleton]
    | cons next texts => rw [Text.joinWith, ih, String.intercalate_cons_cons]

/-- The line of a row is printed as its text. -/
theorem render_line (paint : Painter) (mark : Piece) (row : Row) :
    Piece.render paint (row.line mark) = row.text paint (mark.printed paint) := by
  cases row with
  | project name => simp [Row.line, Row.text, render, printed, Style.piece, String.join_cons]
  | method e =>
    simp [Row.line, Row.text, render, printed, Style.piece, Entry.signature, signature,
      joinWith_eq_intercalate, String.append_assoc]

theorem entries_rows (current : Option String) (es : List Entry) :
    entries (rows current es) = es := by
  induction es generalizing current with
  | nil => rfl
  | cons e es ih =>
    rw [rows]
    split
    · rw [entries_method, ih]
    · rw [entries_project, entries_method, ih]

/-- A method stands below the name of its project, or below the name that was current before. -/
theorem last_header_rows {current : Option String} {es : List Entry} {before after : List Row}
    {e : Entry} (h : rows current es = before ++ .method e :: after) :
    (headers before).getLast?.or current = some e.project := by
  induction es generalizing current before with
  | nil => simp [rows] at h
  | cons d es ih =>
    rw [rows] at h
    split at h
    · rename_i hcurrent
      -- the first row is a method of the current project
      cases before with
      | nil =>
        simp only [List.nil_append, List.cons.injEq, Row.method.injEq] at h
        exact h.1 ▸ hcurrent
      | cons r before =>
        simp only [List.cons_append, List.cons.injEq] at h
        rw [← h.1, headers_method]
        exact ih h.2
    · -- the first two rows are the name of a project and a method of it
      cases before with
      | nil => simp at h
      | cons r before =>
        simp only [List.cons_append, List.cons.injEq] at h
        rw [← h.1, headers_project, List.getLast?_cons, Option.some_or]
        cases before with
        | nil =>
          simp only [List.nil_append, List.cons.injEq, Row.method.injEq] at h
          rw [h.2.1]
          rfl
        | cons r' before =>
          simp only [List.cons_append, List.cons.injEq] at h
          have hlast := ih h.2.2
          rw [← h.2.1, headers_method]
          cases hb : (headers before).getLast? <;> simpa [hb] using hlast

theorem exists_entry_of_mem_headers {current : Option String} {es : List Entry} {name : String}
    (h : name ∈ headers (rows current es)) : ∃ e ∈ es, e.project = name := by
  induction es generalizing current with
  | nil => simp [rows] at h
  | cons d es ih =>
    rw [rows] at h
    split at h
    · obtain ⟨e, he, hname⟩ := ih h
      exact ⟨e, List.mem_cons_of_mem _ he, hname⟩
    · rw [headers_project, headers_method, List.mem_cons] at h
      rcases h with rfl | h
      · exact ⟨d, List.mem_cons_self, rfl⟩
      · obtain ⟨e, he, hname⟩ := ih h
        exact ⟨e, List.mem_cons_of_mem _ he, hname⟩

theorem mem_headers_rows {es : List Entry} {name : String} :
    name ∈ headers (rows none es) ↔ ∃ e ∈ es, e.project = name := by
  refine ⟨exists_entry_of_mem_headers, ?_⟩
  rintro ⟨e, he, rfl⟩
  have hrow : Row.method e ∈ rows none es := by
    rw [← entries_rows none es, entries, List.mem_filterMap] at he
    obtain ⟨r, hr, hentry⟩ := he
    cases r with
    | project name => simp [Row.entry?] at hentry
    | method d => exact Option.some.inj hentry ▸ hr
  obtain ⟨before, after, hrows⟩ := List.append_of_mem hrow
  have hlast := last_header_rows hrows
  rw [Option.or_none] at hlast
  rw [hrows, headers, List.filterMap_append]
  exact List.mem_append_left _ (List.mem_of_getLast? hlast)

end Report

/-! ## Entries project by project -/

/-- Entries that lie project by project, in the order of these projects; a project may have none. -/
inductive ByProject : List String → List Entry → Prop where
  | nil : ByProject [] []
  | cons {name : String} {names : List String} {part rest : List Entry}
    (hpart : ∀ e ∈ part, e.project = name) (hrest : ByProject names rest) :
    ByProject (name :: names) (part ++ rest)

namespace Report

open Piece Style

/-- No name is written as long as the entries are of the current project. -/
theorem rows_append {name : String} {part : List Entry} (hpart : ∀ e ∈ part, e.project = name)
    (rest : List Entry) :
    rows (some name) (part ++ rest) = part.map .method ++ rows (some name) rest := by
  induction part with
  | nil => rfl
  | cons e part ih =>
    obtain ⟨he, hpart⟩ := List.forall_mem_cons.1 hpart
    rw [List.cons_append, rows, if_pos (by rw [he]), ih hpart]
    rfl

theorem headers_append_methods (part : List Entry) (rs : List Row) :
    headers (part.map .method ++ rs) = headers rs := by
  induction part with
  | nil => rfl
  | cons e part ih => exact ih

/-- Of entries that lie project by project each project is named once at most, and in order. -/
theorem headers_sublist {names : List String} {es : List Entry} (h : ByProject names es)
    (hnames : names.Nodup) {current : Option String}
    (hcurrent : ∀ name ∈ names, current ≠ some name) :
    (headers (rows current es)).Sublist names := by
  induction h generalizing current with
  | nil => exact List.Sublist.refl _
  | @cons name names part rest hpart hrest ih =>
    obtain ⟨hname, htail⟩ := List.nodup_cons.1 hnames
    obtain ⟨hfirst, hlater⟩ := List.forall_mem_cons.1 hcurrent
    cases part with
    | nil => exact (ih htail hlater).cons name
    | cons e part =>
      -- the name is written before the first of the part and is current for the others
      obtain ⟨rfl, hothers⟩ := List.forall_mem_cons.1 hpart
      rw [List.cons_append, rows, if_neg hfirst, rows_append hothers, headers_project,
        headers_method, headers_append_methods]
      refine (ih htail ?_).cons_cons _
      rintro n hn ⟨rfl⟩
      exact hname hn

/-- The rows of entries that lie project by project group them. -/
theorem grouped_rows {paint : Painter} (hpaint : paint.Faithful) {names : List String}
    {es : List Entry} (h : ByProject names es) (hnames : names.Nodup) :
    Grouped paint names es (rows none es) where
  distinct := by
    intro mark
    have hsublist : (headers (rows none es)).Sublist names := headers_sublist h hnames (by simp)
    exact (hsublist.nodup hnames).map (text_project_injective hpaint mark)
  ordered := headers_sublist h hnames (by simp)
  named := fun _ => mem_headers_rows
  shown := entries_rows none es
  below := by
    intro before e after hrows
    have hlast := last_header_rows hrows
    rwa [Option.or_none] at hlast

/-! ## Sections -/

/-- The lines of a section with these rows, as they are printed; without rows there is none. -/
def sectionText (paint : Painter) (title mark : String) (rs : List Row) : List String :=
  if rs.isEmpty then []
  else
    ["  " ++ paint bold title ++ " (" ++ toString (entries rs).length ++ "):", ""] ++
      rs.map (Row.text paint mark) ++ [""]

theorem rows_isEmpty (current : Option String) (es : List Entry) :
    (rows current es).isEmpty = es.isEmpty := by
  cases es with
  | nil => rfl
  | cons e es =>
    rw [rows]
    split <;> rfl

theorem render_methodSection (paint : Painter) (title : String) (mark : Piece)
    (es : List Entry) :
    (methodSection title mark es).map (Piece.render paint) =
      sectionText paint title (mark.printed paint) (rows none es) := by
  rw [methodSection, sectionText, rows_isEmpty, entries_rows]
  split
  · rfl
  · have hrows : (rows none es).map (Piece.render paint ∘ Row.line mark) =
        (rows none es).map (Row.text paint (mark.printed paint)) :=
      List.map_congr_left fun row _ => render_line paint mark row
    simp [hrows, render, printed, Style.piece, String.append_assoc]

/-- A report is printed as its head, its two sections and its end. -/
theorem display_eq (r : Report) (showTested : Bool) (paint : Painter) :
    r.display showTested paint = String.join
      (((r.headLines ++ [r.summaryLine, []]).map (Piece.render paint) ++
        sectionText paint "Untested" (paint red "✗") (rows none r.outcome.untested) ++
        (if showTested then sectionText paint "Tested" (paint green "✓")
          (rows none r.outcome.tested) else []) ++
        (diagnosticLines r.outcome ++ [statusLine r.coverage, []]).map (Piece.render paint)).map
          (· ++ "\n")) := by
  have huntested := render_methodSection paint "Untested" (red.piece "✗") r.outcome.untested
  have hshown : (if showTested then methodSection "Tested" (green.piece "✓") r.outcome.tested
      else []).map (Piece.render paint) =
      if showTested then sectionText paint "Tested" (paint green "✓") (rows none r.outcome.tested)
      else [] := by
    cases showTested with
    | true => exact render_methodSection paint "Tested" (green.piece "✓") r.outcome.tested
    | false => rfl
  have hlines : (r.displayLines showTested).map (fun line => Piece.render paint line ++ "\n") =
      ((r.displayLines showTested).map (Piece.render paint)).map (· ++ "\n") := by
    rw [List.map_map]
    rfl
  rw [display, hlines, displayLines]
  simp only [List.map_append, huntested, hshown, List.append_assoc]
  rfl

end Report

/-! ## Runs -/

namespace Criteria

theorem reportedAfter_byProject (c : Criteria) (keep : ProjectRef × SymbolId → Bool)
    (earlier vs : List Visit) :
    ByProject (vs.map (·.ref.name))
      (((reportedAfter earlier vs).filter keep).map fun r => c.describe r.1 r.2) := by
  induction vs generalizing earlier with
  | nil => exact .nil
  | cons v vs ih =>
    rw [List.map_cons, reportedAfter, List.filter_append, List.map_append]
    refine .cons (fun e he => ?_) (ih _)
    obtain ⟨⟨ref, id⟩, hr, rfl⟩ := List.mem_map.1 he
    rw [← (mem_reports.1 (List.mem_of_mem_filter hr)).1]
    rfl

/-- Whatever the front end does and whatever becomes of the token, both sides of an outcome lie
project by project. -/
theorem run_byProject {c : Criteria} {w : Watch (StateM σ)} {front : FrontEnd (StateM σ)}
    {timeout : Option Nat} {token : Token} {world : σ} {o : Outcome}
    (hrun : ((c.run w front timeout token).run world).1 = .ok o) :
    ByProject (front.projects.map (·.name)) o.untested ∧
      ByProject (front.projects.map (·.name)) o.tested := by
  obtain ⟨hrefs, s, hacc, rfl⟩ := c.run_accounting hrun
  obtain ⟨verdict, htested, huntested⟩ := hacc.sides
  rw [← hrefs, List.map_map]
  constructor
  · show ByProject _ s.outcome.untested
    rw [huntested]
    exact c.reportedAfter_byProject _ [] _
  · show ByProject _ s.outcome.tested
    rw [htested]
    exact c.reportedAfter_byProject _ [] _

end Criteria

/-- The projects of a loaded solution in the order of analysis, by name. -/
theorem Program.LoadedFrom.projectRefs_names {p : Program} {s : Solution}
    {news : List (List SymbolTable.Block)} {outside : List SymbolTable.Block} {order : List Nat}
    (h : LoadedFrom s p news outside order) :
    p.projectRefs.map (·.name) = order.map fun i => (s.projects.getD i default).name := by
  rw [p.map_projectRefs fun name _ => name, h.projects, arrange, List.map_map]
  rfl

open Report Piece Style

/-- The report of a run over a loaded solution with distinct names of projects, whatever becomes of
the token and however it is painted: on each side a project is named once and only if it has entries
there, in the order of analysis, and the methods are the entries of the side, each with its type,
name and parameters and below the name of its project. -/
theorem Criteria.report_groups_projects {s : Solution} {p : Program}
    (hload : Program.load s = .ok p)
    (hnames : (s.projects.map (·.name)).Nodup) (markers : MarkerSet) (mode : Propagation)
    (w : Watch (StateM σ)) (timeout : Option Nat) (token : Token) (world : σ) {o : Outcome}
    (hrun : ((Criteria.run ⟨p, markers, mode⟩ w (p.frontEnd w) timeout token).run world).1 =
      .ok o) (modelPath : String) (threshold : Option Float) (showTested : Bool)
    {paint : Painter} (hpaint : paint.Faithful) :
    ∃ order untested tested, ProjectOrder.order s.projects = .ok order ∧
      let names := order.map fun i => (s.projects.getD i default).name
      let r := Report.ofOutcome modelPath markers.names o threshold
      Grouped paint names o.untested untested ∧ Grouped paint names o.tested tested ∧
        r.display showTested paint = String.join
          (((r.headLines ++ [r.summaryLine, []]).map (Piece.render paint) ++
            sectionText paint "Untested" (paint red "✗") untested ++
            (if showTested then sectionText paint "Tested" (paint green "✓") tested else []) ++
            (diagnosticLines o ++ [statusLine r.coverage, []]).map (Piece.render paint)).map
              (· ++ "\n")) := by
  obtain ⟨-, news, outside, order, hloaded⟩ := (Program.load_meets s).of_ok hload
  have hdistinct : (order.map fun i => (s.projects.getD i default).name).Nodup := by
    have hperm := (Program.perm_of_positions hloaded.perm default).map (·.name)
    rw [List.map_map] at hperm
    exact hperm.nodup_iff.2 hnames
  obtain ⟨huntested, htested⟩ := Criteria.run_byProject hrun
  change ByProject (p.projectRefs.map _) _ at huntested htested
  rw [hloaded.projectRefs_names] at huntested htested
  refine ⟨order, rows none o.untested, rows none o.tested, hloaded.ordered,
    grouped_rows hpaint huntested hdistinct, grouped_rows hpaint htested hdistinct, ?_⟩
  exact Report.display_eq _ showTested paint

/-- A test in a project that is declared before the one it calls into, methods on both sides in
both, and between them a project that cannot be analysed. -/
def mixedProjects : Solution where
  projects :=
    [{ name := "Tests"
       references := ["Core"]
       types := [{ name := "ServiceTests"
                   methods := [{ name := "covers"
                                 attributes := ["Fact"]
                                 calls := ["Service::run"] },
                               { name := "helper" }] }] },
     { name := "Broken"
       error := some "no sources"
       types := [{ name := "Caller", methods := [{ name := "go" }] }] },
     { name := "Core"
       types := [{ name := "Service"
                   methods := [{ name := "idle" }, { name := "run" },
                               { name := "stop", parameters := ["int", "bool"] }] }] }]
  externalTypes := [{ name := "Fact" }]

theorem Criteria.report_groups_projects_mixedProjects :
    ∃ p o, Program.load mixedProjects = .ok p ∧ (mixedProjects.projects.map (·.name)).Nodup ∧
      ((Criteria.run ⟨p, .ofNames ["Fact"], .transitive⟩ Session.watch (p.frontEnd Session.watch)
        (some 60) (Session.newToken {}).1).run (Session.newToken {}).2).1 = .ok o ∧
      Painter.terminal.Faithful ∧
      (rows none o.untested).map (Row.text .terminal (Painter.terminal red "✗")) =
        ["    \x1b[2mCore\x1b[0m",
          "      \x1b[31m✗\x1b[0m \x1b[34mService\x1b[0m idle()",
          "      \x1b[31m✗\x1b[0m \x1b[34mService\x1b[0m stop(int, bool)",
          "    \x1b[2mTests\x1b[0m",
          "      \x1b[31m✗\x1b[0m \x1b[34mServiceTests\x1b[0m helper()"] ∧
      ∃ order untested tested, ProjectOrder.order mixedProjects.projects = .ok order ∧
        let names := order.map fun i => (mixedProjects.projects.getD i default).name
        let r := Report.ofOutcome "mixed.yaml" ["Fact"] o none
        Grouped .terminal names o.untested untested ∧ Grouped .terminal names o.tested tested ∧
          r.display true .terminal = String.join
            (((r.headLines ++ [r.summaryLine, []]).map (Piece.render .terminal) ++
              sectionText .terminal "Untested" (Painter.terminal red "✗") untested ++
              (if true then sectionText .terminal "Tested" (Painter.terminal green "✓") tested
                else []) ++
              (diagnosticLines o ++ [statusLine r.coverage, []]).map (Piece.render .terminal)).map
                (· ++ "\n")) := by
  have hreport : (Program.load mixedProjects).toOption.map (fun p =>
      ((Criteria.run ⟨p, .ofNames ["Fact"], .transitive⟩ Session.watch (p.frontEnd Session.watch)
        (some 60) (Session.newToken {}).1).run (Session.newToken {}).2).1.toOption.map fun o =>
          (rows none o.untested).map (Row.text .terminal (Painter.terminal red "✗"))) =
      some (some ["    \x1b[2mCore\x1b[0m",
        "      \x1b[31m✗\x1b[0m \x1b[34mService\x1b[0m idle()",
        "      \x1b[31m✗\x1b[0m \x1b[34mService\x1b[0m stop(int, bool)",
        "    \x1b[2mTests\x1b[0m",
        "      \x1b[31m✗\x1b[0m \x1b[34mServiceTests\x1b[0m helper()"]) := by
    decide +kernel
  have hnames : (mixedProjects.projects.map (·.name)).Nodup := by decide
  have hmarkers : (MarkerSet.ofNames ["Fact"]).names = ["Fact"] := by decide +kernel
  obtain ⟨p, hload, hreport⟩ := exists_ok_of_map hreport
  obtain ⟨o, hrun, hlines⟩ := exists_ok_of_map hreport
  have hgroups := Criteria.report_groups_projects hload hnames _ _ _ _ _ _ hrun "mixed.yaml" none
    true (Painter.faithful_ofColor true)
  rw [hmarkers] at hgroups
  exact ⟨p, o, hload, hnames, hrun, Painter.faithful_ofColor true, hlines, hgroups⟩

end TestReach
