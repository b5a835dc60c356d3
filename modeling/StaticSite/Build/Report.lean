import StaticSite.Value.Show

/-!
# Reports

What a pass did: the pages, stylesheets and asset directories it built, the files it wrote, and all
that went wrong.
-/

namespace StaticSite

/-- The report of a pass. -/
structure Report where
  /-- The kind of the pass: `full` or `incremental`. -/
  kind : String
  /-- The mode of the build. -/
  mode : String
  /-- The file that changed, if the pass was made for one. -/
  changed : Option String
  /-- The keys of the pages written. -/
  pages : List Value
  /-- The names of the stylesheets written. -/
  styles : List String
  /-- The keys of the asset directories copied. -/
  assets : List Value
  /-- The files written. -/
  written : List String
  /-- The sitemap written. -/
  sitemap : Option String
  /-- What was missing. -/
  warnings : List String
  /-- What failed. -/
  errors : List String
deriving Repr

namespace Report

/-- A report on nothing yet. -/
def start (kind mode : String) (changed : Option String) : Report :=
  ⟨kind, mode, changed, [], [], [], [], none, [], []⟩

/-- Adds something that failed. -/
def addError (r : Report) (message : String) : Report := { r with errors := r.errors ++ [message] }

/-- Whether nothing failed. -/
def isOk (r : Report) : Bool := r.errors.isEmpty

/-- A text or nothing as a value. -/
def optional (s : Option String) : Value := (s.map .text).getD .null

/-- Texts as a value. -/
def texts (l : List String) : Value := .list (l.map .text)

/-- A report as a mapping, with the time at which it was made if that is known. -/
def toMapping (r : Report) (time : Option String) : Mapping :=
  [(.text "kind", .text r.kind), (.text "mode", .text r.mode)] ++
    (time.map fun t => [(.text "timestamp", .text t)]).getD [] ++
    [(.text "changed_file", optional r.changed), (.text "pages", .list r.pages),
      (.text "styles", texts r.styles), (.text "assets", .list r.assets),
      (.text "written", texts r.written), (.text "sitemap", optional r.sitemap),
      (.text "warnings", texts r.warnings), (.text "errors", texts r.errors),
        (.text "ok", .bool r.isOk)]

/-- A line of a summary that counts something. -/
def countLine (label : String) (count : Nat) : String := "  " ++ label ++ ": " ++ toString count

/-- The lines for what was missing or failed, with the first three of it; none if there is
nothing. -/
def detailLines (label : String) (messages : List String) : List String :=
  if messages.isEmpty then []
  else countLine label messages.length :: (messages.take 3).map fun m => "    - " ++ m

/-- A report for the eye. -/
def summary (r : Report) : String :=
  let named (label : String) (s : Option String) : List String :=
    match s with
    | some s => if s.isEmpty then [] else ["  " ++ label ++ ": " ++ s]
    | none => []
  "\n".intercalate (
    ["Build Report: " ++ r.kind ++ " (" ++ r.mode ++ ")"] ++ named "Changed" r.changed ++
    [countLine "Pages" r.pages.length, countLine "Styles" r.styles.length,
      countLine "Assets" r.assets.length, countLine "Files written" r.written.length] ++
    named "Sitemap" r.sitemap ++ detailLines "Warnings" r.warnings ++ detailLines "Errors" r.errors)

end Report

end StaticSite
